import MemberOrder.Proofs.EntryOrder
import MemberOrder.Proofs.JsonEntries
import MemberOrder.Proofs.TomlTables
import MemberOrder.Settings.Json
import MemberOrder.Settings.Toml

/-! Settings in a TOML document against settings in the JSON object of the same entries. Both
are read by the same rules, but in different orders; so they agree on what is read and on
whether anything is, and only the document's own order tells which fault is reported. -/
namespace MemberOrder

namespace Toml

mutual

/-- The value without its places in a text. Tables and date-times are objects. -/
def Node.toJson : Node → Json
  | .boolean _ b => .boolean b
  | .integer _ n => .integer n
  | .float _ x => .float x
  | .string _ s => .string s
  | .dateTime _ text => .object [("$__toml_private_datetime", .string text)]
  | .array _ items => .array (itemsToJson items)
  | .table _ _ entries => .object (entriesToJson entries)
  | .series _ tables => .array (itemsToJson tables)

def itemsToJson : List Node → List Json
  | [] => []
  | v :: rest => v.toJson :: itemsToJson rest

def entriesToJson : List (String × Node) → List (String × Json)
  | [] => []
  | (name, v) :: rest => (name, v.toJson) :: entriesToJson rest

end

theorem itemsToJson_eq_map (items : List Node) : itemsToJson items = items.map Node.toJson := by
  induction items with
  | nil => rfl
  | cons v rest ih => rw [itemsToJson, List.map_cons, ih]

theorem entriesToJson_eq_map (entries : List (String × Node)) :
    entriesToJson entries = entries.map fun e => (e.1, e.2.toJson) := by
  induction entries with
  | nil => rfl
  | cons e rest ih => rw [entriesToJson, List.map_cons, ih]

def Document.toJson (d : Document) : Json :=
  .object (entriesToJson d.entries)

end Toml

def Form.map {α β : Type} (g : α → β) : Form α → Form β
  | .null => .null
  | .boolean b => .boolean b
  | .integer n => .integer n
  | .float x => .float x
  | .string s => .string s
  | .sequence items => .sequence (items.map g)
  | .mapping => .mapping

namespace Settings

open Toml

section Images

variable {α β : Type} [HasForm α] [HasForm β] {g : α → β} {v : α} {entries : List (String × α)}
  {s : Settings}

/-- Values and their images have corresponding forms. -/
def KeepsForms (g : α → β) : Prop :=
  ∀ v, form (g v) = (form v).map g

theorem decodeFlag_image (keeps : KeepsForms g) {b : Bool} :
    decodeFlag (g v) = .ok b ↔ decodeFlag v = .ok b := by
  rw [decodeFlag, decodeFlag, keeps v]
  cases form v <;> simp [Form.map]

theorem map_form_image (keeps : KeepsForms g) {items : List α} {names : List String} :
    (items.map g).map form = names.map Form.string ↔ items.map form = names.map Form.string := by
  induction items generalizing names with
  | nil => simp
  | cons v items ih =>
    cases names with
    | nil => simp
    | cons name names =>
      simp only [List.map_cons, List.cons.injEq, ih, keeps v]
      cases form v <;> simp [Form.map]

theorem decodeOrder_image (keeps : KeepsForms g) {order : Option (List String)} :
    decodeOrder (g v) = .ok order ↔ decodeOrder v = .ok order := by
  rw [decodeOrder, decodeOrder, keeps v]
  cases form v with
  | null => simp [Form.map]
  | sequence items =>
    have named {γ : Type} [HasForm γ] {read : Except (DecodeError γ) (List String)} :
        read.map some = .ok order ↔ ∃ names, read = .ok names ∧ some names = order := by
      cases read <;> simp [Except.map]
    simp only [Form.map, named, mapM_decodeName_eq_ok_iff, map_form_image keeps]
  | _ => simp [Form.map]

/-- Entries are read alike from values of corresponding forms. -/
theorem ofEntries_image (keeps : KeepsForms g) :
    ofEntries (entries.map fun e => (e.1, g e.2)) = .ok s ↔ ofEntries entries = .ok s := by
  have filled (d : Draft) : Filled (entries.map fun e => (e.1, g e.2)) d ↔ Filled entries d := by
    constructor
    · rintro ⟨strict, order⟩
      rw [valuesOf_map] at strict order
      exact ⟨(fills_map_iff fun _ _ => decodeFlag_image keeps).mp strict,
        (fills_map_iff fun _ _ => decodeOrder_image keeps).mp order⟩
    · rintro ⟨strict, order⟩
      refine ⟨?_, ?_⟩ <;> rw [valuesOf_map]
      · exact (fills_map_iff fun _ _ => decodeFlag_image keeps).mpr strict
      · exact (fills_map_iff fun _ _ => decodeOrder_image keeps).mpr order
  simp only [ofEntries_eq_ok_iff, filled]

end Images

theorem keepsForms_toJson : KeepsForms Node.toJson := by
  intro v
  cases v <;> simp [form, Form.map, Node.toJson, itemsToJson_eq_map]

variable {text : String} {d : Document} {s : Settings}

theorem parse_eq_ok_iff (read : Document.read? text = some d) :
    parse text = .ok s ↔ ofEntries d.entries = .ok s := by
  rw [parse, read]
  dsimp only [ofDocument]
  cases ofEntries d.entries <;> simp [Except.mapError]

theorem parse_eq_error_iff (read : Document.read? text = some d) {e : ParseError} :
    parse text = .error e ↔ ∃ reason, ofEntries d.entries = .error reason ∧ e = locate text d reason := by
  rw [parse, read]
  dsimp only [ofDocument]
  cases ofEntries d.entries <;> simp [Except.mapError, eq_comm]

theorem ofEntries_toJson_iff :
    ofEntries (entriesToJson d.entries) = .ok s ↔ ofEntries d.entries = .ok s := by
  rw [entriesToJson_eq_map, ofEntries_image keepsForms_toJson]

theorem ofJson_toJson_eq_ok_iff (distinct : (d.entries.map Prod.fst).Nodup) :
    ofJson d.toJson = .ok s ↔ ofEntries d.entries = .ok s := by
  have distinct' : ((entriesToJson d.entries).map Prod.fst).Nodup := by
    rw [entriesToJson_eq_map, List.map_map]
    exact distinct
  rw [Document.toJson, ofJson, ofEntries_perm (Json.entries_perm distinct'), ofEntries_toJson_iff]

/-- A document and the object of its entries are read alike, in whichever order the entries
stand; a document that is not read is refused for the first fault in the order in which the reader
put its entries. That is the order in which they appear in the text, unless a table which was
named before gets a header of its own and is put last. -/
theorem parse_agrees_ofJson (read : Document.read? text = some d) :
    (∃ parts : Sections, sections? text.toList = some parts ∧
        d.entries.map Prod.fst = parts.visited ∧
        (¬parts.Reopens → d.entries.map Prod.fst = parts.appearances)) ∧
      (∀ s, parse text = .ok s ↔ ofJson d.toJson = .ok s) ∧
      (∀ text' d', Document.read? text' = some d' →
        (entriesToJson d'.entries).Perm (entriesToJson d.entries) →
        ∀ s, parse text' = .ok s ↔ parse text = .ok s) ∧
      ∀ e, parse text = .error e ↔
        ∃ reason, FirstFault d.entries reason ∧ e = locate text d reason := by
  have distinct := Document.nodup_of_read? read
  obtain ⟨parts, found, names⟩ := Document.names_of_read? read
  refine ⟨⟨parts, found, names, fun fresh => ?_⟩, fun s => ?_, fun text' d' read' same s => ?_,
    fun e => ?_⟩
  · rw [names, Sections.visited_eq_appearances fresh]
  · rw [parse_eq_ok_iff read, ofJson_toJson_eq_ok_iff distinct]
  · rw [parse_eq_ok_iff read, parse_eq_ok_iff read', ← ofEntries_toJson_iff, ofEntries_perm same,
      ofEntries_toJson_iff]
  · simp only [parse_eq_error_iff read, ofEntries_eq_error_iff distinct]

/-- An order and a strict mode that is no boolean. -/
theorem parse_agrees_ofJson_refused :
    let text := "order=[]\nstrict=1\n"
    let d : Document := ⟨⟨18, 1⟩, [("order", .array ⟨12, 10⟩ []), ("strict", .integer ⟨2, 1⟩ 1)]⟩
    Document.read? text = some d ∧
      (∃ parts : Sections, sections? text.toList = some parts ∧
        d.entries.map Prod.fst = parts.visited ∧
        (¬parts.Reopens → d.entries.map Prod.fst = parts.appearances)) ∧
      (∀ s, parse text = .ok s ↔ ofJson d.toJson = .ok s) ∧
      (∀ text' d', Document.read? text' = some d' →
        (entriesToJson d'.entries).Perm (entriesToJson d.entries) →
        ∀ s, parse text' = .ok s ↔ parse text = .ok s) ∧
      ∀ e, parse text = .error e ↔
        ∃ reason, FirstFault d.entries reason ∧ e = locate text d reason := by
  intro text d
  have chars : text.toList = ['o', 'r', 'd', 'e', 'r', '=', '[', ']', '\n', 's', 't', 'r', 'i', 'c',
    't', '=', '1', '\n'] := String.toList_ofList
  have read : Document.read? text = some d := by
    rw [Document.read?, chars]
    rfl
  exact ⟨read, parse_agrees_ofJson read⟩

/-- The first to appear is a table for the order, but it gets its own header last. So the fault
that is reported is that of the table for strict mode, which is the second to appear. -/
theorem parse_reports_later_appearance :
    let text := "[order.x]\n[strict]\n[order]\n"
    let order : Node := .table ⟨8, 1⟩ .header [("x", .table ⟨27, 18⟩ .header [])]
    let strict : Node := .table ⟨17, 9⟩ .header []
    let d : Document := ⟨⟨27, 27⟩, [("strict", strict), ("order", order)]⟩
    let entries := [("order", order), ("strict", strict)]
    Document.read? text = some d ∧ entries.Perm d.entries ∧
      (sections? text.toList).map Sections.appearances = some (entries.map Prod.fst) ∧
      FirstFault entries (.wrongType order .sequence) ∧
      parse text = .error (locate text d (.wrongType strict .boolean)) ∧
      parse text ≠ .error (locate text d (.wrongType order .sequence)) := by
  intro text order strict d entries
  have chars : text.toList = ['[', 'o', 'r', 'd', 'e', 'r', '.', 'x', ']', '\n', '[', 's', 't', 'r',
    'i', 'c', 't', ']', '\n', '[', 'o', 'r', 'd', 'e', 'r', ']', '\n'] :=
    String.toList_ofList
  have read : Document.read? text = some d := by
    rw [Document.read?, chars]
    rfl
  have appearances :
      (sections? text.toList).map Sections.appearances = some (entries.map Prod.fst) := by
    rw [chars]
    rfl
  have refused : Refuses .order order (.wrongType order .sequence) :=
    ReadsOrder.refused (by simp [order, form]) (by simp [order, form])
  have first : FirstFault entries (.wrongType order .sequence) :=
    ⟨[], "order", order, _, rfl, .wrongType rfl (by simp) refused, by simp⟩
  have reported : parse text = .error (locate text d (.wrongType strict .boolean)) :=
    (parse_eq_error_iff read).mpr ⟨_, rfl, rfl⟩
  refine ⟨read, .swap _ _ _, appearances, first, reported, ?_⟩
  rw [reported]
  simp [locate]

end Settings

end MemberOrder
