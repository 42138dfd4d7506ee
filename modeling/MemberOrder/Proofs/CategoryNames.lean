import MemberOrder.Category.Json
import MemberOrder.Proofs.JsonEntries

/-! The two spellings of a category, the name written out for configurations and the tag made from
the identifier for data, are the same for every category. So the two readers, each with a search of
its own, accept the same texts. What is left to tell of JSON values is which objects stand for a
category, and which of the checks a value fails first. -/
namespace MemberOrder

namespace Json

variable {α : Type} {key name : String} {value v : α} {members : List (String × α)}

/-- All members have one name. The last of them counts. -/
structure HoldsOnly (members : List (String × α)) (name : String) (value : α) : Prop where
  names : ∀ m ∈ members, m.1 = name
  last : members.getLast? = some (name, value)

theorem HoldsOnly.mem_entries_iff (only : HoldsOnly members name value) :
    (key, v) ∈ entries members ↔ (key, v) = (name, value) := by
  obtain ⟨front, rfl⟩ := List.getLast?_eq_some_iff.mp only.last
  rw [Json.mem_entries_iff, List.reverse_concat, lookup_entry, Prod.mk.injEq]
  by_cases same : key = name
  · simp [same, eq_comm]
  · -- no other name stands in front of the last member either
    have missing : front.reverse.lookup key = none := by
      refine List.lookup_eq_none_iff.mpr fun m member => ?_
      have named := only.names m (List.mem_append_left _ (List.mem_reverse.mp member))
      simpa [named] using same
    simp [same, missing]

theorem HoldsOnly.of_entries (single : entries members = [(name, value)]) :
    HoldsOnly members name value := by
  have found (key : String) :
      members.reverse.lookup key = if key = name then some value else none := by
    rw [← lookup_entries, single, lookup_entry, List.lookup_nil]
  have names : ∀ m ∈ members, m.1 = name := by
    intro m member
    by_contra other
    have missing := found m.1
    rw [if_neg other] at missing
    have apart := List.lookup_eq_none_iff.mp missing m (List.mem_reverse.mpr member)
    simp at apart
  refine ⟨names, ?_⟩
  rcases List.eq_nil_or_concat members with rfl | ⟨front, m, rfl⟩
  · contradiction
  · have named : m.1 = name := names m (by simp)
    have last := found name
    rw [List.concat_eq_append, List.reverse_concat, lookup_entry, if_pos named.symm,
      if_pos rfl] at last
    rw [List.concat_eq_append, List.getLast?_concat, ← named, ← Option.some.inj last]

/-- An object has a single entry if all its members have one name. -/
theorem entries_eq_singleton_iff :
    entries members = [(name, value)] ↔ HoldsOnly members name value := by
  refine ⟨HoldsOnly.of_entries, fun only => List.perm_singleton.mp ?_⟩
  refine (List.perm_ext_iff_of_nodup (ascending_entries members).distinct.of_map
    (List.nodup_singleton _)).mpr fun ⟨key, v⟩ => ?_
  rw [only.mem_entries_iff, List.mem_singleton]

end Json

namespace Category

open Json (HoldsOnly)

variable {text : String} {c : Category} {members : List (String × Json)} {v : Json}

theorem tag_eq_name (c : Category) : c.tag = c.name := by
  cases c <;> decide

theorem ofTag?_eq_ofName? (text : String) : ofTag? text = ofName? text := by
  simp only [ofTag?, ofName?, tag_eq_name]

theorem ofName?_of_unknown (unknown : ∀ c : Category, text ≠ c.name) : ofName? text = none := by
  refine ofName?_eq_none_iff.mpr fun known => ?_
  obtain ⟨c, _, named⟩ := List.mem_map.mp known
  exact unknown c named.symm

theorem parse_name (c : Category) : parse c.name = .ok c := by
  rw [parse, ofName?_eq_some_iff.mpr rfl]

theorem parse_of_unknown (unknown : ∀ c : Category, text ≠ c.name) :
    parse text = .error ⟨text⟩ := by
  rw [parse, ofName?_of_unknown unknown]

theorem decodeTag_name (c : Category) : decodeTag c.name = .ok c := by
  rw [decodeTag, ofTag?_eq_ofName?, ofName?_eq_some_iff.mpr rfl]

theorem decodeTag_of_unknown (unknown : ∀ c : Category, text ≠ c.name) :
    decodeTag text = .error (.unknownCategory text) := by
  rw [decodeTag, ofTag?_eq_ofName?, ofName?_of_unknown unknown]

theorem known_or_unknown (text : String) :
    (∃ c : Category, text = c.name) ∨ ∀ c : Category, text ≠ c.name := by
  by_cases known : ∃ c : Category, text = c.name
  · exact .inl known
  · exact .inr (not_exists.mp known)

theorem parse_eq_ok_iff : parse text = .ok c ↔ text = c.name := by
  refine ⟨fun read => ?_, fun named => named ▸ parse_name c⟩
  rcases known_or_unknown text with ⟨d, rfl⟩ | unknown
  · rw [parse_name] at read
    rw [Except.ok.inj read]
  · rw [parse_of_unknown unknown] at read
    contradiction

theorem parse_eq_error_iff {e : UnknownCategory} :
    parse text = .error e ↔ (∀ c : Category, text ≠ c.name) ∧ e = ⟨text⟩ := by
  rcases known_or_unknown text with ⟨d, rfl⟩ | unknown
  · rw [parse_name]
    exact ⟨fun read => by contradiction, fun refused => absurd rfl (refused.1 d)⟩
  · rw [parse_of_unknown unknown, Except.error.injEq, eq_comm]
    simp [unknown]

/-- Reading a category: a string has only its text to check, an object first its size, then its
key, then what the key holds. -/
inductive Decodes : Json → Except (DecodeError Json) Category → Prop
  | name (c : Category) : Decodes (.string c.name) (.ok c)
  | unknownName {text : String} (unknown : ∀ c : Category, text ≠ c.name) :
      Decodes (.string text) (.error (.unknownCategory text))
  | member {members : List (String × Json)} {c : Category} (only : HoldsOnly members c.name .null) :
      Decodes (.object members) (.ok c)
  | size {members : List (String × Json)} (notSingle : ∀ key value, ¬ HoldsOnly members key value) :
      Decodes (.object members) (.error .notSingleKey)
  | unknownKey {members : List (String × Json)} {key : String} {value : Json}
      (only : HoldsOnly members key value) (unknown : ∀ c : Category, key ≠ c.name) :
      Decodes (.object members) (.error (.unknownCategory key))
  | content {members : List (String × Json)} {value : Json} {c : Category}
      (only : HoldsOnly members c.name value) (filled : value ≠ .null) :
      Decodes (.object members) (.error (.wrongType value .unit))
  | other {v : Json} (noString : ∀ text, v ≠ .string text)
      (noObject : ∀ members, v ≠ .object members) :
      Decodes v (.error (.wrongType v .category))

/-- Every value has a result. -/
theorem exists_decodes (v : Json) : ∃ r, Decodes v r := by
  cases v with
  | string text =>
    rcases known_or_unknown text with ⟨c, rfl⟩ | unknown
    · exact ⟨_, .name c⟩
    · exact ⟨_, .unknownName unknown⟩
  | object members =>
    by_cases single : ∃ key value, HoldsOnly members key value
    · obtain ⟨key, value, only⟩ := single
      rcases known_or_unknown key with ⟨c, rfl⟩ | unknown
      · by_cases empty : value = .null
        · exact ⟨_, .member (empty ▸ only)⟩
        · exact ⟨_, .content only empty⟩
      · exact ⟨_, .unknownKey only unknown⟩
    · exact ⟨_, .size fun key value only => single ⟨key, value, only⟩⟩
  | _ => exact ⟨_, .other (fun _ => Json.noConfusion) (fun _ => Json.noConfusion)⟩

theorem ofJson_of_decodes {r : Except (DecodeError Json) Category} (decodes : Decodes v r) :
    ofJson v = r := by
  cases decodes with
  | name c => exact decodeTag_name c
  | unknownName unknown => exact decodeTag_of_unknown unknown
  | member only =>
    simp only [ofJson, Json.entries_eq_singleton_iff.mpr only, decodeTag_name]
    rfl
  | size notSingle =>
    unfold ofJson
    split
    · contradiction
    · next found =>
      cases found
      split
      · next key value single => exact absurd (.of_entries single) (notSingle key value)
      · rfl
    · next noObject => exact absurd rfl (noObject _)
  | unknownKey only unknown =>
    simp only [ofJson, Json.entries_eq_singleton_iff.mpr only, decodeTag_of_unknown unknown]
    rfl
  | content only filled =>
    simp only [ofJson, Json.entries_eq_singleton_iff.mpr only, decodeTag_name]
    rfl
  | other noString noObject =>
    unfold ofJson
    split
    · next text => exact absurd rfl (noString text)
    · next members => exact absurd rfl (noObject members)
    · rfl

theorem ofJson_eq_iff {r : Except (DecodeError Json) Category} : ofJson v = r ↔ Decodes v r := by
  refine ⟨fun decoded => ?_, ofJson_of_decodes⟩
  obtain ⟨r', decodes⟩ := exists_decodes v
  rwa [← decoded, ofJson_of_decodes decodes]

theorem ofJson_eq_ok_iff :
    ofJson v = .ok c ↔
      v = .string c.name ∨ ∃ members, v = .object members ∧ HoldsOnly members c.name .null := by
  rw [ofJson_eq_iff]
  constructor
  · intro decodes
    cases decodes with
    | name => exact .inl rfl
    | member only => exact .inr ⟨_, rfl, only⟩
  · rintro (rfl | ⟨members, rfl, only⟩)
    · exact .name c
    · exact .member only

/-- A name holds nothing that would be escaped. -/
theorem compact_toJson (c : Category) : c.toJson.compact = "\"" ++ c.name ++ "\"" := by
  have plain : c.name.toList.flatMap Json.escapeChar = c.name.toList := by
    cases c <;> rfl
  apply String.toList_injective
  rw [toJson, tag_eq_name, Json.compact, String.toList_ofList, Json.write, Json.writeString, plain]
  simp

/-- The names that a refusal offers are those that are read. -/
theorem message_unknownCategory (text : String) :
    (DecodeError.unknownCategory text : DecodeError Json).message =
      "unknown variant `" ++ text ++ "`, expected one of " ++
        ", ".intercalate (all.map fun c => "`" ++ c.name ++ "`") := by
  have offered : (all.map fun c => "`" ++ c.tag ++ "`") = all.map fun c => "`" ++ c.name ++ "`" :=
    List.map_congr_left fun c _ => by rw [tag_eq_name]
  exact congrArg (fun offers => "unknown variant `" ++ text ++ "`, expected one of " ++
    ", ".intercalate offers) offered

/-- Names are read from configurations and from data alike, and written to data as they are read.
Of the checks that other values fail the first is the error. -/
theorem decoders_agree_on_names :
    (∀ text : String,
      (∀ c : Category, parse text = .ok c ↔ text = c.name) ∧
      (∀ e, parse text = .error e ↔ (∀ c : Category, text ≠ c.name) ∧ e = ⟨text⟩) ∧
      ∀ c, ofJson (.string text) = .ok c ↔ parse text = .ok c) ∧
    (∀ v,
      (∀ c, ofJson v = .ok c ↔
        v = .string c.name ∨ ∃ members, v = .object members ∧ HoldsOnly members c.name .null) ∧
      ∀ r, ofJson v = r ↔ Decodes v r) ∧
    (∀ c : Category, c.toJson = .string c.name ∧ c.toJson.compact = "\"" ++ c.name ++ "\"") ∧
    ∀ text, (DecodeError.unknownCategory text : DecodeError Json).message =
      "unknown variant `" ++ text ++ "`, expected one of " ++
        ", ".intercalate (all.map fun c => "`" ++ c.name ++ "`") := by
  refine ⟨fun text => ⟨fun c => parse_eq_ok_iff, fun e => parse_eq_error_iff, fun c => ?_⟩,
    fun v => ⟨fun c => ofJson_eq_ok_iff, fun r => ofJson_eq_iff⟩,
    fun c => ⟨congrArg Json.string (tag_eq_name c), compact_toJson c⟩, message_unknownCategory⟩
  rw [ofJson_eq_ok_iff, parse_eq_ok_iff]
  simp

/-- A key that names no category is refused before what it holds is looked at. -/
example : ofJson (.object [("Method", .integer 1)]) = .error (.unknownCategory "Method") := rfl

end Category

end MemberOrder
