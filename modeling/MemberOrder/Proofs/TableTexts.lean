import MemberOrder.Proofs.WeightReports

/-! The texts of a weight table, lines `name = weight` and JSON. Each lists what the look-ups find,
once and in canonical order, and a table is collected again from either; so either text determines
the table. -/
namespace MemberOrder

/-- The lines of a text that ends without a line break. The empty text has none. -/
def Text.lines (text : String) : List (List Char) :=
  if text.toList = [] then [] else cut '\n' text.toList

namespace WeightTable

variable {t u : WeightTable} {c : Category} {w : Weight} {name : String} {layout : Json.Layout}

def listed (t : WeightTable) : List (Category × Weight) :=
  Category.all.filterMap fun c => (t.get c).map fun w => (c, w)

def line (name : String) (w : Weight) : List Char :=
  (name ++ " = " ++ toString w.toNat).toList

def jsonText (t : WeightTable) (layout : Json.Layout) : String :=
  String.ofList (t.toJson.write layout)

section Readers

/-- A weight for a name that is some category's. -/
def pair? (name : String) (weight : Nat) : Option (Category × Weight) :=
  (Category.ofName? name).map fun c => (c, .ofNat weight)

def readLine? (line : List Char) : Option (Category × Weight) :=
  match line.dropWhile (· ≠ ' ') with
  | ' ' :: '=' :: ' ' :: figures =>
    pair? (String.ofList (line.takeWhile (· ≠ ' '))) (Json.ofDigits (Json.digits figures).1)
  | _ => none

def readMember? (m : String × Json) : Option (Category × Weight) :=
  match m.2 with
  | .integer n => pair? m.1 n.toNat
  | _ => none

def ofText? (text : String) : Option WeightTable :=
  ((Text.lines text).mapM readLine?).map ofList

def ofJson? : Json → Option WeightTable
  | .object members => (members.mapM readMember?).map ofList
  | _ => none

end Readers

section Lines

theorem mem_listed_iff : (c, w) ∈ t.listed ↔ t.get c = some w := by
  simp [listed, Category.mem_all]

theorem ascending_listed (t : WeightTable) : t.listed.Pairwise fun a b => a.1 < b.1 := by
  have canonical : Category.all.Pairwise (· < ·) := by decide
  refine List.pairwise_filterMap.mpr (canonical.imp fun before e he f hf => ?_)
  obtain ⟨v, _, rfl⟩ := Option.map_eq_some_iff.mp he
  obtain ⟨w, _, rfl⟩ := Option.map_eq_some_iff.mp hf
  exact before

theorem listed_eq_entries (t : WeightTable) : t.listed = t.entries := by
  have same : (⟨t.listed, t.ascending_listed⟩ : WeightTable) = t := by
    refine eq_of_get_eq fun c => Option.ext fun w => ?_
    rw [← mem_entries_iff, mem_listed_iff]
  exact congrArg entries same

theorem toList_text (t : WeightTable) :
    t.text.toList = Text.glue '\n' (t.entries.map fun e => line e.1.name e.2) := by
  rw [text, String.toList_intercalate, Text.glue_eq_intercalate, List.map_map]
  rfl

theorem mem_line {d : Char} (member : d ∈ line c.name w) :
    d ∈ c.name.toList ∨ d ∈ [' ', '=', ' '] ∨ d.isDigit = true := by
  have figures : (toString w.toNat).toList = Nat.toDigits 10 w.toNat := Nat.toList_repr
  rw [line, String.toList_append, String.toList_append, figures, List.append_assoc] at member
  rcases List.mem_append.mp member with named | member
  · exact .inl named
  · rcases List.mem_append.mp member with between | figure
    · exact .inr (.inl between)
    · exact .inr (.inr (Json.isDigit_of_mem_toDigits figure))

theorem not_mem_line : '\n' ∉ line c.name w := by
  intro member
  rcases mem_line member with named | between | figure
  · exact Report.not_mem_name c named
  · exact absurd between (by decide)
  · contradiction

theorem line_ne_nil : line name w ≠ [] := by
  simp [line]

/-- The text has a line for each entry. -/
theorem lines_text (t : WeightTable) :
    Text.lines t.text = t.listed.map fun e => line e.1.name e.2 := by
  have free : ∀ piece ∈ t.entries.map (fun e => line e.1.name e.2), '\n' ∉ piece := by
    intro piece member
    obtain ⟨e, _, rfl⟩ := List.mem_map.mp member
    exact not_mem_line
  rw [Text.lines, toList_text, listed_eq_entries]
  cases found : t.entries with
  | nil => rfl
  | cons e rest =>
    rw [found, List.map_cons] at free
    rw [List.map_cons, if_neg (Text.glue_ne_nil line_ne_nil _),
      Text.cut_glue (List.cons_ne_nil _ _) free]

/-- A line break at the end would leave an empty line behind it. -/
theorem getLast?_text_ne (t : WeightTable) : t.text.toList.getLast? ≠ some '\n' := by
  intro last
  obtain ⟨front, ends⟩ := List.getLast?_eq_some_iff.mp last
  have cut : Text.lines t.text = Text.cut '\n' front ++ [[]] := by
    rw [Text.lines, ends, if_neg (by simp), Text.cut_append_separator]
    rfl
  have empty : [] ∈ t.listed.map fun e => line e.1.name e.2 := by
    rw [← lines_text, cut]
    simp
  obtain ⟨e, _, isEmpty⟩ := List.mem_map.mp empty
  exact line_ne_nil isEmpty

theorem pair?_name (c : Category) (w : Weight) : pair? c.name w.toNat = some (c, w) := by
  rw [pair?, Category.ofName?_eq_some_iff.mpr rfl, Option.map_some, UInt32.ofNat_toNat]

/-- A line is parted at its first blank. -/
theorem readLine?_line (c : Category) (w : Weight) : readLine? (line c.name w) = some (c, w) := by
  have figures : (toString w.toNat).toList = Nat.toDigits 10 w.toNat := Nat.toList_repr
  have shape : line c.name w = c.name.toList ++ ' ' :: '=' :: ' ' :: Nat.toDigits 10 w.toNat := by
    rw [line, String.toList_append, String.toList_append, figures, List.append_assoc]
    rfl
  have noBlank : ' ' ∉ c.name.toList := by cases c <;> decide
  have solid : ∀ d ∈ c.name.toList, decide (d ≠ ' ') = true := fun d member =>
    decide_eq_true fun same => noBlank (same ▸ member)
  have weight : Json.digits (Nat.toDigits 10 w.toNat) =
      ((Nat.toDigits 10 w.toNat).map Json.digitValue, []) := by
    have ends : Json.EndsNumber [] := by simp [Json.EndsNumber]
    have read := Json.digits_append (fun _ => Json.isDigit_of_mem_toDigits (n := w.toNat)) ends
    rwa [List.append_nil] at read
  rw [shape, readLine?, List.takeWhile_append_of_pos solid, List.dropWhile_append_of_pos solid]
  simp [weight, Json.ofDigits_toDigits, pair?_name]

end Lines

section Json

theorem toJson_eq (t : WeightTable) :
    t.toJson = .object (t.listed.map fun e => (e.1.name, .integer e.2.toNat)) := by
  rw [listed_eq_entries, toJson]

theorem read?_jsonText (t : WeightTable) (layout : Json.Layout) :
    Json.read? (t.jsonText layout) = some t.toJson := by
  have read : Json.read? (String.ofList (t.toJson.write layout ++ [])) = some t.toJson :=
    Json.read?_write (Report.exact_toJson t) layout (by simp)
  rwa [List.append_nil] at read

theorem getLast?_jsonText (t : WeightTable) (layout : Json.Layout) :
    (t.jsonText layout).toList.getLast? = some '\x7d' := by
  rw [jsonText, String.toList_ofList, toJson]
  cases t.entries with
  | nil => rfl
  | cons e rest => rw [List.map_cons, Json.write, List.getLast?_concat]

end Json

theorem ofText?_text (t : WeightTable) : ofText? t.text = some t := by
  rw [ofText?, lines_text, List.mapM_map_eq_some (fun e => readLine?_line e.1 e.2), Option.map_some,
    listed_eq_entries, ofList_entries]

theorem ofJson?_toJson (t : WeightTable) : ofJson? t.toJson = some t := by
  have read : ∀ e : Category × Weight, readMember? (e.1.name, .integer e.2.toNat) = some e :=
    fun e => pair?_name e.1 e.2
  rw [toJson_eq, ofJson?, List.mapM_map_eq_some read, Option.map_some, listed_eq_entries, ofList_entries]

theorem ofJson?_read?_jsonText (t : WeightTable) (layout : Json.Layout) :
    (Json.read? (t.jsonText layout)).bind ofJson? = some t := by
  rw [read?_jsonText, Option.bind_some, ofJson?_toJson]

section LookUps

theorem weightOf_eq_some_iff :
    t.weightOf name = some w ↔ ∃ c : Category, c.name = name ∧ (c, w) ∈ t.listed := by
  simp only [weightOf, Option.bind_eq_some_iff, Category.ofName?_eq_some_iff, mem_listed_iff]

/-- The look-up by name finds what a line says about a category's name. -/
theorem weightOf_eq_some_iff_line :
    t.weightOf name = some w ↔
      name ∈ Category.all.map Category.name ∧ line name w ∈ Text.lines t.text := by
  rw [weightOf_eq_some_iff, lines_text]
  constructor
  · rintro ⟨c, rfl, listed⟩
    exact ⟨List.mem_map_of_mem c.mem_all, List.mem_map.mpr ⟨_, listed, rfl⟩⟩
  · rintro ⟨known, member⟩
    obtain ⟨c, _, rfl⟩ := List.mem_map.mp known
    obtain ⟨e, listed, same⟩ := List.mem_map.mp member
    have read := readLine?_line e.1 e.2
    rw [same, readLine?_line] at read
    exact ⟨c, rfl, Option.some.inj read ▸ listed⟩

theorem nodup_names_listed (t : WeightTable) : (t.listed.map fun e => e.1.name).Nodup := by
  have names : (t.listed.map fun e => e.1.name) = (t.entries.map Prod.fst).map Category.name := by
    rw [listed_eq_entries, List.map_map]
    rfl
  rw [names]
  exact t.distinct_entries.map fun _ _ same => Category.name_injective same

/-- The look-up by name finds what the JSON text holds under the name. -/
theorem weightOf_eq_some_iff_member (layout : Json.Layout) :
    t.weightOf name = some w ↔ ∃ members, Json.read? (t.jsonText layout) = some (.object members) ∧
      members.lookup name = some (.integer w.toNat) := by
  have found : (t.listed.map fun e => (e.1.name, Json.integer e.2.toNat)).lookup name =
      some (.integer w.toNat) ↔ ∃ c : Category, c.name = name ∧ (c, w) ∈ t.listed := by
    have distinct := t.nodup_names_listed
    rw [lookup_eq_some_iff_mem (by rwa [List.map_map])]
    simp only [List.mem_map, Prod.mk.injEq, Json.integer.injEq, Int.natCast_inj, UInt32.toNat_inj,
      Prod.exists]
    simp [and_comm]
  rw [weightOf_eq_some_iff, read?_jsonText, toJson_eq]
  simp [found]

end LookUps

theorem text_eq_iff : t.text = u.text ↔ t = u := by
  refine ⟨fun same => ?_, congrArg text⟩
  have collected := t.ofText?_text
  rw [same, ofText?_text] at collected
  exact (Option.some.inj collected).symm

theorem jsonText_eq_iff : t.jsonText layout = u.jsonText layout ↔ t = u := by
  refine ⟨fun same => ?_, fun same => congrArg (jsonText · layout) same⟩
  have collected := t.ofJson?_read?_jsonText layout
  rw [same, ofJson?_read?_jsonText] at collected
  exact (Option.some.inj collected).symm

/-- Lines and JSON tell the weights of a table, each category once and in canonical order, as the
look-up by name does. The table is collected again from either text, so it is determined by it. -/
theorem texts_determine_table (t : WeightTable) :
    (∀ name w,
      (t.weightOf name = some w ↔
        name ∈ Category.all.map Category.name ∧ line name w ∈ Text.lines t.text) ∧
      ∀ layout, t.weightOf name = some w ↔
        ∃ members, Json.read? (t.jsonText layout) = some (.object members) ∧
          members.lookup name = some (.integer w.toNat)) ∧
      (t.listed.map fun e => e.1.name).Nodup ∧
      (Text.lines t.text = t.listed.map (fun e => line e.1.name e.2) ∧
        t.text.toList.getLast? ≠ some '\n' ∧ ofText? t.text = some t) ∧
      (∀ layout,
        Json.read? (t.jsonText layout) =
          some (.object (t.listed.map fun e => (e.1.name, .integer e.2.toNat))) ∧
        (t.jsonText layout).toList.getLast? ≠ some '\n' ∧
        (Json.read? (t.jsonText layout)).bind ofJson? = some t) ∧
      ∀ u, (t.text = u.text ↔ t = u) ∧ ∀ layout, t.jsonText layout = u.jsonText layout ↔ t = u := by
  refine ⟨fun name w => ⟨weightOf_eq_some_iff_line, weightOf_eq_some_iff_member⟩,
    t.nodup_names_listed, ⟨t.lines_text, t.getLast?_text_ne, t.ofText?_text⟩,
    fun layout => ⟨?_, ?_, t.ofJson?_read?_jsonText layout⟩,
    fun u => ⟨text_eq_iff, fun layout => jsonText_eq_iff⟩⟩
  · rw [read?_jsonText, toJson_eq]
  · rw [getLast?_jsonText]
    decide

end WeightTable

end MemberOrder
