import MemberOrder.Settings.Decoding

/-! What the decoders of single fields accept, told by the form of a value alone. The
relations leave no value out and allow one result for each, so that a decoder agrees with its
relation as soon as it gives what the relation allows. -/
namespace MemberOrder.Settings

variable {α : Type} [HasForm α] {v item : α} {items front rest : List α}

inductive ReadsFlag (v : α) : Except (DecodeError α) Bool → Prop
  | boolean {b : Bool} (flag : form v = .boolean b) : ReadsFlag v (.ok b)
  | refused (noFlag : ∀ b, form v ≠ .boolean b) : ReadsFlag v (.error (.wrongType v .boolean))

/-- An order is null or a sequence of strings; the first item that is no string is at fault. -/
inductive ReadsOrder (v : α) : Except (DecodeError α) (Option (List String)) → Prop
  | null (isNull : form v = .null) : ReadsOrder v (.ok none)
  | names {items : List α} {names : List String} (sequence : form v = .sequence items)
      (strings : items.map form = names.map .string) : ReadsOrder v (.ok (some names))
  | item {front rest : List α} {item : α} (sequence : form v = .sequence (front ++ item :: rest))
      (strings : ∀ i ∈ front, ∃ s, form i = .string s) (noString : ∀ s, form item ≠ .string s) :
      ReadsOrder v (.error (.wrongType item .string))
  | refused (noNull : form v ≠ .null) (noSequence : ∀ items, form v ≠ .sequence items) :
      ReadsOrder v (.error (.wrongType v .sequence))

theorem decodeFlag_of_reads {r : Except (DecodeError α) Bool} (reads : ReadsFlag v r) :
    decodeFlag v = r := by
  cases reads with
  | boolean flag => simp only [decodeFlag, flag]
  | refused noFlag =>
    unfold decodeFlag
    split
    · next b flag => exact absurd flag (noFlag b)
    · rfl

theorem readsFlag_decodeFlag (v : α) : ReadsFlag v (decodeFlag v) := by
  unfold decodeFlag
  split
  · next b flag => exact .boolean flag
  · next other => exact .refused other

theorem decodeFlag_eq_iff {r : Except (DecodeError α) Bool} : decodeFlag v = r ↔ ReadsFlag v r :=
  ⟨fun decoded => decoded ▸ readsFlag_decodeFlag v, decodeFlag_of_reads⟩

theorem decodeName_of_string {s : String} (string : form item = .string s) :
    decodeName item = .ok s := by
  simp only [decodeName, string]

theorem decodeName_of_no_string (noString : ∀ s, form item ≠ .string s) :
    decodeName item = .error (.wrongType item .string) := by
  unfold decodeName
  split
  · next s string => exact absurd string (noString s)
  · rfl

theorem mapM_decodeName_of_strings {names : List String}
    (strings : items.map form = names.map .string) : items.mapM decodeName = .ok names := by
  induction items generalizing names with
  | nil =>
    cases names with
    | nil => rfl
    | cons name names => contradiction
  | cons item items ih =>
    cases names with
    | nil => contradiction
    | cons name names =>
      obtain ⟨string, strings⟩ := List.cons.inj strings
      rw [List.mapM_cons, decodeName_of_string string, ih strings]
      rfl

theorem mapM_decodeName_of_item (strings : ∀ i ∈ front, ∃ s, form i = .string s)
    (noString : ∀ s, form item ≠ .string s) :
    (front ++ item :: rest).mapM decodeName = .error (.wrongType item .string) := by
  induction front with
  | nil =>
    rw [List.nil_append, List.mapM_cons, decodeName_of_no_string noString]
    rfl
  | cons first front ih =>
    obtain ⟨s, string⟩ := strings first List.mem_cons_self
    rw [List.cons_append, List.mapM_cons, decodeName_of_string string,
      ih fun i member => strings i (List.mem_cons_of_mem first member)]
    rfl

/-- Either every item is a string, or one is the first that is none. -/
theorem strings_or_item (items : List α) :
    (∃ names : List String, items.map form = names.map .string) ∨
      ∃ front item rest, items = front ++ item :: rest ∧
        (∀ i ∈ front, ∃ s, form i = .string s) ∧ ∀ s, form item ≠ .string s := by
  induction items with
  | nil => exact .inl ⟨[], rfl⟩
  | cons first items ih =>
    by_cases string : ∃ s, form first = .string s
    · obtain ⟨s, string⟩ := string
      rcases ih with ⟨names, strings⟩ | ⟨front, item, rest, rfl, strings, noString⟩
      · exact .inl ⟨s :: names, by simp [string, strings]⟩
      · exact .inr ⟨first :: front, item, rest, rfl, List.forall_mem_cons.mpr ⟨⟨s, string⟩, strings⟩,
          noString⟩
    · exact .inr ⟨[], first, items, rfl, by simp, not_exists.mp string⟩

theorem mapM_decodeName_eq_ok_iff {names : List String} :
    items.mapM decodeName = .ok names ↔ items.map form = names.map .string := by
  refine ⟨fun decoded => ?_, mapM_decodeName_of_strings⟩
  rcases strings_or_item items with ⟨names', strings⟩ | ⟨front, item, rest, rfl, strings, noString⟩
  · rw [mapM_decodeName_of_strings strings] at decoded
    cases decoded
    exact strings
  · rw [mapM_decodeName_of_item strings noString] at decoded
    contradiction

theorem decodeOrder_of_reads {r : Except (DecodeError α) (Option (List String))}
    (reads : ReadsOrder v r) : decodeOrder v = r := by
  cases reads with
  | null isNull => simp only [decodeOrder, isNull]
  | names sequence strings =>
    simp only [decodeOrder, sequence, mapM_decodeName_of_strings strings, Except.map]
  | item sequence strings noString =>
    simp only [decodeOrder, sequence, mapM_decodeName_of_item strings noString, Except.map]
  | refused noNull noSequence =>
    unfold decodeOrder
    split
    · next isNull => exact absurd isNull noNull
    · next items sequence => exact absurd sequence (noSequence items)
    · rfl

theorem exists_readsOrder (v : α) : ∃ r, ReadsOrder v r := by
  by_cases isNull : form v = .null
  · exact ⟨_, .null isNull⟩
  by_cases isSequence : ∃ items, form v = .sequence items
  · obtain ⟨items, sequence⟩ := isSequence
    rcases strings_or_item items with ⟨names, strings⟩ | ⟨front, item, rest, rfl, strings, noString⟩
    · exact ⟨_, .names sequence strings⟩
    · exact ⟨_, .item sequence strings noString⟩
  · exact ⟨_, .refused isNull (not_exists.mp isSequence)⟩

theorem decodeOrder_eq_iff {r : Except (DecodeError α) (Option (List String))} :
    decodeOrder v = r ↔ ReadsOrder v r := by
  refine ⟨fun decoded => ?_, decodeOrder_of_reads⟩
  obtain ⟨r', reads⟩ := exists_readsOrder v
  rwa [← decoded, decodeOrder_of_reads reads]

variable {key : String} {d : Draft}

def fieldNames : List String :=
  ["class_attributes_order", "order", "strict", "use_class_attributes_order_strict_mode"]

theorem ofKey?_eq_none_iff : Field.ofKey? key = none ↔ key ∉ fieldNames := by
  simp [Field.ofKey?, Field.longName, Field.shortName, fieldNames]
  grind

namespace Draft

theorem enter_other (names : Field.ofKey? key = none) : d.enter key v = .ok d := by
  simp only [enter, names]

theorem enter_strict (names : Field.ofKey? key = some .strict) (isOpen : d.strict = none) :
    d.enter key v = (decodeFlag v).map fun b => { d with strict := some b } := by
  simp [enter, names, isOpen]

theorem enter_order (names : Field.ofKey? key = some .order) (isOpen : d.order = none) :
    d.enter key v = (decodeOrder v).map fun order => { d with order := some order } := by
  simp [enter, names, isOpen]

theorem enter_strict_again (names : Field.ofKey? key = some .strict) (filled : d.strict ≠ none) :
    d.enter key v = .error (.duplicateField .strict) := by
  simp [enter, names, Option.isSome_iff_ne_none, filled]

theorem enter_order_again (names : Field.ofKey? key = some .order) (filled : d.order ≠ none) :
    d.enter key v = .error (.duplicateField .order) := by
  simp [enter, names, Option.isSome_iff_ne_none, filled]

end Draft

end MemberOrder.Settings
