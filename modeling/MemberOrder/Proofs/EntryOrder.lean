import Mathlib.Data.List.Induction
import Mathlib.Data.List.Perm.Basic
import MemberOrder.Lists
import MemberOrder.Proofs.FieldDecoding

/-! What the order of the entries does to the settings read from them. Whether they are read,
and as what, depends on the values that each field is given, which are at most one; the order
only decides which fault is met first. -/
namespace MemberOrder.Settings

section Values

variable {α β : Type} {decode : α → Except (DecodeError α) β} {field : Field}
  {entries entries' : List (String × α)} {key : String} {v : α} {values values' : List α}
  {filled : Option β}

/-- The values given to a field, under either of its names. -/
def valuesOf (field : Field) (entries : List (String × α)) : List α :=
  entries.filterMap fun e => if Field.ofKey? e.1 = some field then some e.2 else none

theorem valuesOf_concat (names : Field.ofKey? key = some field) :
    valuesOf field (entries ++ [(key, v)]) = valuesOf field entries ++ [v] := by
  simp [valuesOf, names]

theorem valuesOf_concat_other (apart : Field.ofKey? key ≠ some field) :
    valuesOf field (entries ++ [(key, v)]) = valuesOf field entries := by
  simp [valuesOf, apart]

theorem valuesOf_eq_nil_iff :
    valuesOf field entries = [] ↔ ∀ e ∈ entries, Field.ofKey? e.1 ≠ some field := by
  simp [valuesOf]

theorem not_mem_front {front rest : List (String × α)}
    (distinct : ((front ++ (key, v) :: rest).map Prod.fst).Nodup) : key ∉ front.map Prod.fst := by
  rw [List.map_append, List.map_cons] at distinct
  intro member
  exact (List.nodup_append.mp distinct).2.2 key member key List.mem_cons_self rfl

theorem valuesOf_perm (same : entries.Perm entries') :
    (valuesOf field entries).Perm (valuesOf field entries') :=
  same.filterMap _

inductive Fills (decode : α → Except (DecodeError α) β) : List α → Option β → Prop
  | missing : Fills decode [] none
  | given {v x} (decoded : decode v = .ok x) : Fills decode [v] (some x)

theorem fills_concat_iff :
    Fills decode (values ++ [v]) filled ↔ values = [] ∧ ∃ x, decode v = .ok x ∧ filled = some x := by
  constructor
  · intro fills
    cases values with
    | nil =>
      cases fills with
      | given decoded => exact ⟨rfl, _, decoded, rfl⟩
    | cons w values =>
      cases values <;> cases fills
  · rintro ⟨rfl, x, decoded, rfl⟩
    exact .given decoded

theorem Fills.eq_nil_iff (fills : Fills decode values filled) : values = [] ↔ filled = none := by
  cases fills <;> simp

theorem Fills.perm (fills : Fills decode values filled) (same : values.Perm values') :
    Fills decode values' filled := by
  cases fills with
  | missing =>
    rw [List.nil_perm.mp same]
    exact .missing
  | given decoded =>
    rw [← List.singleton_perm.mp same]
    exact .given decoded

theorem valuesOf_map {γ : Type} {g : α → γ} :
    valuesOf field (entries.map fun e => (e.1, g e.2)) = (valuesOf field entries).map g := by
  rw [valuesOf, valuesOf, List.filterMap_map, List.map_filterMap]
  refine List.filterMap_congr fun e _ => ?_
  by_cases named : Field.ofKey? e.1 = some field <;> simp [named]

/-- Other values are decoded alike if each of them is. -/
theorem fills_map_iff {γ : Type} {g : α → γ} {decode' : γ → Except (DecodeError γ) β}
    (same : ∀ v x, decode' (g v) = .ok x ↔ decode v = .ok x) :
    Fills decode' (values.map g) filled ↔ Fills decode values filled := by
  constructor
  · intro fills
    match values with
    | [] =>
      cases fills
      exact .missing
    | [v] =>
      cases fills with
      | given decoded => exact .given ((same v _).mp decoded)
    | v :: w :: values => cases fills
  · intro fills
    cases fills with
    | missing => exact .missing
    | given decoded => exact .given ((same _ _).mpr decoded)

end Values

section Drafts

variable {α : Type} [HasForm α] {entries entries' front : List (String × α)} {key : String} {v : α}
  {d d' : Draft} {s : Settings} {reason : DecodeError α}

theorem Draft.enter_eq_ok_iff :
    d.enter key v = .ok d' ↔
      Field.ofKey? key = none ∧ d' = d ∨
      Field.ofKey? key = some .strict ∧ d.strict = none ∧
        (∃ b, decodeFlag v = .ok b ∧ d' = { d with strict := some b }) ∨
      Field.ofKey? key = some .order ∧ d.order = none ∧
        ∃ order, decodeOrder v = .ok order ∧ d' = { d with order := some order } := by
  cases names : Field.ofKey? key with
  | none => simp [enter_other names, eq_comm]
  | some field =>
    cases field with
    | strict =>
      by_cases isOpen : d.strict = none
      · rw [enter_strict names isOpen]
        cases decodeFlag v <;> simp [isOpen, Except.map, eq_comm]
      · simp [enter_strict_again names isOpen, isOpen]
    | order =>
      by_cases isOpen : d.order = none
      · rw [enter_order names isOpen]
        cases decodeOrder v <;> simp [isOpen, Except.map, eq_comm]
      · simp [enter_order_again names isOpen, isOpen]

theorem Draft.enter_eq_error_iff :
    d.enter key v = .error reason ↔
      Field.ofKey? key = some .strict ∧
        (d.strict = none ∧ decodeFlag v = .error reason ∨
          d.strict ≠ none ∧ reason = .duplicateField .strict) ∨
      Field.ofKey? key = some .order ∧
        (d.order = none ∧ decodeOrder v = .error reason ∨
          d.order ≠ none ∧ reason = .duplicateField .order) := by
  cases names : Field.ofKey? key with
  | none => simp [enter_other names]
  | some field =>
    cases field with
    | strict =>
      by_cases isOpen : d.strict = none
      · rw [enter_strict names isOpen]
        cases decodeFlag v <;> simp [isOpen, Except.map]
      · simp [enter_strict_again names isOpen, isOpen, eq_comm]
    | order =>
      by_cases isOpen : d.order = none
      · rw [enter_order names isOpen]
        cases decodeOrder v <;> simp [isOpen, Except.map]
      · simp [enter_order_again names isOpen, isOpen, eq_comm]

structure Filled (entries : List (String × α)) (d : Draft) : Prop where
  strict : Fills decodeFlag (valuesOf .strict entries) d.strict
  order : Fills decodeOrder (valuesOf .order entries) d.order

theorem filled_nil_iff : Filled ([] : List (String × α)) d ↔ d = {} := by
  constructor
  · rintro ⟨strict, order⟩
    obtain ⟨flag, names⟩ := d
    cases strict
    cases order
    rfl
  · rintro rfl
    exact ⟨.missing, .missing⟩

/-- One more entry keeps the draft that of the entries met. -/
theorem Filled.enter (before : Filled entries d) (entered : d.enter key v = .ok d') :
    Filled (entries ++ [(key, v)]) d' := by
  obtain ⟨names, rfl⟩ | ⟨names, isOpen, b, decoded, rfl⟩ | ⟨names, isOpen, order, decoded, rfl⟩ :=
    Draft.enter_eq_ok_iff.mp entered
  · refine ⟨?_, ?_⟩
    · rw [valuesOf_concat_other (by simp [names])]
      exact before.strict
    · rw [valuesOf_concat_other (by simp [names])]
      exact before.order
  · refine ⟨?_, ?_⟩
    · rw [valuesOf_concat names, fills_concat_iff]
      exact ⟨before.strict.eq_nil_iff.mpr isOpen, b, decoded, rfl⟩
    · rw [valuesOf_concat_other (by simp [names])]
      exact before.order
  · refine ⟨?_, ?_⟩
    · rw [valuesOf_concat_other (by simp [names])]
      exact before.strict
    · rw [valuesOf_concat names, fills_concat_iff]
      exact ⟨before.order.eq_nil_iff.mpr isOpen, order, decoded, rfl⟩

/-- The draft of some entries comes from that of all but the last. -/
theorem Filled.of_concat (after : Filled (entries ++ [(key, v)]) d') :
    ∃ d, Filled entries d ∧ d.enter key v = .ok d' := by
  obtain ⟨flag, names⟩ := d'
  obtain ⟨strict, order⟩ := after
  cases named : Field.ofKey? key with
  | none =>
    rw [valuesOf_concat_other (by simp [named])] at strict order
    exact ⟨_, ⟨strict, order⟩, Draft.enter_other named⟩
  | some field =>
    cases field with
    | strict =>
      rw [valuesOf_concat named, fills_concat_iff] at strict
      rw [valuesOf_concat_other (by simp [named])] at order
      obtain ⟨missing, b, decoded, rfl⟩ := strict
      refine ⟨{ strict := none, order := names }, ⟨missing ▸ .missing, order⟩, ?_⟩
      exact Draft.enter_eq_ok_iff.mpr (.inr (.inl ⟨named, rfl, b, decoded, rfl⟩))
    | order =>
      rw [valuesOf_concat_other (by simp [named])] at strict
      rw [valuesOf_concat named, fills_concat_iff] at order
      obtain ⟨missing, list, decoded, rfl⟩ := order
      refine ⟨{ strict := flag, order := none }, ⟨strict, missing ▸ .missing⟩, ?_⟩
      exact Draft.enter_eq_ok_iff.mpr (.inr (.inr ⟨named, rfl, list, decoded, rfl⟩))

def draftOf (entries : List (String × α)) : Except (DecodeError α) Draft :=
  entries.foldlM (fun (d : Draft) e => d.enter e.1 e.2) {}

theorem draftOf_eq_ok_iff : draftOf entries = .ok d ↔ Filled entries d := by
  induction entries using List.reverseRecOn generalizing d with
  | nil =>
    rw [filled_nil_iff]
    exact ⟨fun run => (Except.ok.inj run).symm, fun same => congrArg Except.ok same.symm⟩
  | append_singleton entries e ih =>
    rw [draftOf, List.foldlM_concat]
    constructor
    · intro run
      cases front : draftOf entries with
      | error reason =>
        rw [← draftOf, front] at run
        cases run
      | ok before =>
        rw [← draftOf, front] at run
        exact (ih.mp front).enter run
    · intro filled
      obtain ⟨before, filled, entered⟩ := filled.of_concat
      rw [← draftOf, ih.mpr filled]
      exact entered

theorem ofEntries_eq_map (entries : List (String × α)) :
    ofEntries entries = (draftOf entries).map Draft.settings := rfl

theorem ofEntries_eq_ok_iff :
    ofEntries entries = .ok s ↔ ∃ d, Filled entries d ∧ d.settings = s := by
  simp only [← draftOf_eq_ok_iff, ofEntries_eq_map]
  cases draftOf entries <;> simp [Except.map]

theorem ofEntries_eq_error_iff_draftOf :
    ofEntries entries = .error reason ↔ draftOf entries = .error reason := by
  rw [ofEntries_eq_map]
  cases draftOf entries <;> simp [Except.map]

theorem Filled.perm (filled : Filled entries d) (same : entries.Perm entries') :
    Filled entries' d :=
  ⟨filled.strict.perm (valuesOf_perm same), filled.order.perm (valuesOf_perm same)⟩

/-- The order of the entries does not matter to what is read. -/
theorem ofEntries_perm (same : entries.Perm entries') :
    ofEntries entries = .ok s ↔ ofEntries entries' = .ok s := by
  rw [ofEntries_eq_ok_iff, ofEntries_eq_ok_iff]
  constructor
  · rintro ⟨d, filled, settings⟩
    exact ⟨d, filled.perm same, settings⟩
  · rintro ⟨d, filled, settings⟩
    exact ⟨d, filled.perm same.symm, settings⟩

def Refuses : Field → α → DecodeError α → Prop
  | .strict, v, reason => ReadsFlag v (.error reason)
  | .order, v, reason => ReadsOrder v (.error reason)

/-- What is wrong with an entry behind others: its field is named before it by another name, or
its value is of the wrong type. -/
inductive Fault (front : List (String × α)) (key : String) (v : α) : DecodeError α → Prop
  | again {field other} (named : Field.ofKey? key = some field) (before : other ∈ front)
      (otherName : other.1 ≠ key) (same : Field.ofKey? other.1 = some field) :
      Fault front key v (.duplicateField field)
  | wrongType {field reason} (named : Field.ofKey? key = some field)
      (first : ∀ other ∈ front, Field.ofKey? other.1 ≠ some field) (refused : Refuses field v reason) :
      Fault front key v reason

/-- The reason of the earliest entry with a fault. -/
def FirstFault (entries : List (String × α)) (reason : DecodeError α) : Prop :=
  ∃ front key v rest, entries = front ++ (key, v) :: rest ∧ Fault front key v reason ∧
    ∀ front' key' v' rest' reason', front = front' ++ (key', v') :: rest' →
      ¬Fault front' key' v' reason'

theorem Filled.strict_eq_none_iff (before : Filled front d) :
    d.strict = none ↔ ∀ e ∈ front, Field.ofKey? e.1 ≠ some .strict := by
  rw [← before.strict.eq_nil_iff, valuesOf_eq_nil_iff]

theorem Filled.order_eq_none_iff (before : Filled front d) :
    d.order = none ↔ ∀ e ∈ front, Field.ofKey? e.1 ≠ some .order := by
  rw [← before.order.eq_nil_iff, valuesOf_eq_nil_iff]

/-- Among distinct names a field that was named before was named by another name. -/
theorem fault_again {field : Field} (new : key ∉ front.map Prod.fst)
    (named : Field.ofKey? key = some field)
    (again : ¬∀ other ∈ front, Field.ofKey? other.1 ≠ some field) :
    Fault front key v (.duplicateField field) := by
  simp only [not_forall, not_not] at again
  obtain ⟨other, before, same⟩ := again
  exact .again named before (fun equal => new (List.mem_map.mpr ⟨other, before, equal⟩)) same

/-- Among distinct names an entry fails exactly for its fault. -/
theorem Filled.enter_eq_error_iff (before : Filled front d) (new : key ∉ front.map Prod.fst) :
    d.enter key v = .error reason ↔ Fault front key v reason := by
  rw [Draft.enter_eq_error_iff, Ne, Ne, before.strict_eq_none_iff, before.order_eq_none_iff,
    decodeFlag_eq_iff, decodeOrder_eq_iff]
  constructor
  · rintro (⟨named, ⟨first, refused⟩ | ⟨again, rfl⟩⟩ | ⟨named, ⟨first, refused⟩ | ⟨again, rfl⟩⟩)
    · exact .wrongType named first refused
    · exact fault_again new named again
    · exact .wrongType named first refused
    · exact fault_again new named again
  · intro fault
    cases fault with
    | @again field other named member _ same =>
      have again : ¬∀ other ∈ front, Field.ofKey? other.1 ≠ some field :=
        fun first => first other member same
      cases field with
      | strict => exact .inl ⟨named, .inr ⟨again, rfl⟩⟩
      | order => exact .inr ⟨named, .inr ⟨again, rfl⟩⟩
    | @wrongType field _ named first refused =>
      cases field with
      | strict => exact .inl ⟨named, .inl ⟨first, refused⟩⟩
      | order => exact .inr ⟨named, .inl ⟨first, refused⟩⟩

theorem fails_iff_fault {rest : List (String × α)} (run : draftOf front = .ok d)
    (distinct : ((front ++ (key, v) :: rest).map Prod.fst).Nodup) :
    d.enter key v = .error reason ↔ Fault front key v reason :=
  (draftOf_eq_ok_iff.mp run).enter_eq_error_iff (not_mem_front distinct)

/-- Among distinct names entries fail exactly for their first fault. -/
theorem ofEntries_eq_error_iff (distinct : (entries.map Prod.fst).Nodup) :
    ofEntries entries = .error reason ↔ FirstFault entries reason := by
  rw [ofEntries_eq_error_iff_draftOf]
  constructor
  · intro failed
    obtain ⟨front, ⟨key, v⟩, rest, d, rfl, run, failed⟩ := List.exists_of_foldlM_eq_error failed
    refine ⟨front, key, v, rest, rfl, (fails_iff_fault run distinct).mp failed, ?_⟩
    -- an earlier fault would have ended the run in front of this entry
    rintro front' key' v' rest' reason' rfl earlier
    rw [List.append_assoc] at distinct
    obtain ⟨d', run'⟩ := List.exists_of_foldlM_append_eq_ok run
    have failed' := (fails_iff_fault run' distinct).mpr earlier
    rw [List.foldlM_eq_error run' failed' rest'] at run
    contradiction
  · rintro ⟨front, key, v, rest, rfl, fault, earliest⟩
    cases run : draftOf front with
    | error reason' =>
      obtain ⟨front', ⟨key', v'⟩, rest', d', rfl, run', failed'⟩ := List.exists_of_foldlM_eq_error run
      rw [List.append_assoc] at distinct
      have earlier := (fails_iff_fault run' distinct).mp failed'
      exact absurd earlier (earliest front' key' v' rest' reason' rfl)
    | ok d => exact List.foldlM_eq_error run ((fails_iff_fault run distinct).mpr fault) rest

end Drafts

end MemberOrder.Settings
