import Mathlib.Algebra.Group.Nat.Defs
import MemberOrder.Proofs.FallbackPath
import MemberOrder.Proofs.TableLookup
import MemberOrder.Resolution

/-! Where an order places a category, said of the order alone. A name counts where it
stands last, and a category takes the place of the first category on its path that the
order lists. Resolution assigns exactly the weights that follow from this. -/
namespace MemberOrder

namespace Resolution

structure LastAt (order : List String) (name : String) (position : Nat) : Prop where
  here : order[position]? = some name
  last : ∀ later, position < later → order[later]? ≠ some name

/-- `a` is the first category on the path of `c` that the order lists. -/
def NearestListed (order : List String) (c a : Category) : Prop :=
  ∃ before after, c.path = before ++ a :: after ∧ a.name ∈ order ∧
    ∀ b ∈ before, b.name ∉ order

def PlacedBy (order : List String) (c a : Category) (position : Nat) : Prop :=
  NearestListed order c a ∧ LastAt order a.name position

variable {order : List String} {name other : String} {c : Category} {w : Weight} {i j : Nat}

theorem LastAt.mem (stands : LastAt order name i) : name ∈ order :=
  List.mem_of_getElem? stands.here

theorem LastAt.lt_length (stands : LastAt order name i) : i < order.length :=
  (List.getElem?_eq_some_iff.mp stands.here).1

/-- A position holds one name. -/
theorem LastAt.name_eq (first : LastAt order name i) (second : LastAt order other i) :
    name = other :=
  Option.some.inj (first.here.symm.trans second.here)

theorem LastAt.position_eq (first : LastAt order name i) (second : LastAt order name j) :
    i = j := by
  rcases Nat.lt_trichotomy i j with before | same | behind
  · exact absurd second.here (first.last j before)
  · exact same
  · exact absurd first.here (second.last i behind)

/-- A name put at the end stands last there, and moves no other name. -/
theorem lastAt_concat {added : String} :
    LastAt (order ++ [added]) name i ↔
      (name = added ∧ i = order.length) ∨ (name ≠ added ∧ LastAt order name i) := by
  have atEnd : LastAt (order ++ [added]) added order.length := by
    refine ⟨List.getElem?_concat_length, fun later behind => ?_⟩
    rw [List.getElem?_eq_none (by simp; omega)]
    simp
  by_cases same : name = added
  · subst same
    constructor
    · intro found
      exact .inl ⟨rfl, found.position_eq atEnd⟩
    · rintro (⟨_, rfl⟩ | ⟨differ, _⟩)
      · exact atEnd
      · exact absurd rfl differ
  · have unmoved : ∀ k : Nat, (order ++ [added])[k]? = some name ↔ order[k]? = some name := by
      intro k
      rw [List.getElem?_append]
      split
      · rfl
      · next beyond =>
        rw [List.getElem?_eq_none (Nat.le_of_not_lt beyond), List.getElem?_singleton]
        split <;> simp [Ne.symm same]
    simp only [same, false_and, ne_eq, not_false_eq_true, true_and, false_or]
    constructor
    · intro found
      refine ⟨(unmoved i).mp found.here, fun k behind => ?_⟩
      exact mt (unmoved k).mpr (found.last k behind)
    · intro found
      refine ⟨(unmoved i).mpr found.here, fun k behind => ?_⟩
      exact mt (unmoved k).mp (found.last k behind)

theorem not_lastAt_nil : ¬LastAt [] name i :=
  fun found => by simpa using found.here

/-- A name put at the end takes a slot in front of all others. -/
theorem lookup_slots_concat {added : String} :
    (slots (order ++ [added])).lookup name =
      if name = added then some (weightAt order.length) else (slots order).lookup name := by
  have front : slots (order ++ [added]) = (added, weightAt order.length) :: slots order := by
    simp [slots, List.zipIdx_append]
  rw [front]
  by_cases same : name = added
  · simp [same]
  · have differ : (name == added) = false := beq_false_of_ne same
    simp [List.lookup_cons, same, differ]

/-- Looking up a name finds the weight of its last position. -/
theorem lookup_slots_eq_some_iff :
    (slots order).lookup name = some w ↔ ∃ i, LastAt order name i ∧ w = weightAt i := by
  induction order using List.reverseRec with
  | nil => simp [slots, not_lastAt_nil]
  | append_singleton order added ih =>
    rw [lookup_slots_concat]
    by_cases same : name = added
    · subst same
      simp [lastAt_concat, eq_comm]
    · simp [lastAt_concat, same, ih]

theorem lookup_slots_eq_none_iff : (slots order).lookup name = none ↔ name ∉ order := by
  induction order using List.reverseRec with
  | nil => simp [slots]
  | append_singleton order added ih =>
    rw [lookup_slots_concat]
    by_cases same : name = added <;> simp [same, ih]

theorem weightIn?_eq_some_iff :
    weightIn? order c = some w ↔
      ∃ a i, PlacedBy order c a i ∧ w = weightAt i := by
  unfold weightIn?
  rw [List.findSome?_eq_some_iff]
  constructor
  · rintro ⟨before, a, after, path, found, skipped⟩
    obtain ⟨i, stands, weight⟩ := lookup_slots_eq_some_iff.mp found
    have unlisted : ∀ b ∈ before, b.name ∉ order := fun b member =>
      lookup_slots_eq_none_iff.mp (skipped b member)
    exact ⟨a, i, ⟨⟨before, after, path, stands.mem, unlisted⟩, stands⟩, weight⟩
  · rintro ⟨a, i, ⟨⟨before, after, path, _, unlisted⟩, stands⟩, weight⟩
    refine ⟨before, a, after, path, lookup_slots_eq_some_iff.mpr ⟨i, stands, weight⟩, ?_⟩
    exact fun b member => lookup_slots_eq_none_iff.mpr (unlisted b member)

theorem PlacedBy.weightIn? {a : Category} (placed : PlacedBy order c a i) :
    weightIn? order c = some (weightAt i) :=
  weightIn?_eq_some_iff.mpr ⟨a, i, placed, rfl⟩

theorem PlacedBy.isConfigurable {a : Category} (placed : PlacedBy order c a i) :
    c.isConfigurable = true := by
  obtain ⟨⟨before, after, path, _, _⟩, _⟩ := placed
  simp [Category.isConfigurable, path]

theorem weightIn?_eq_none_iff :
    weightIn? order c = none ↔ ∀ a ∈ c.path, a.name ∉ order := by
  simp only [weightIn?, List.findSome?_eq_none_iff, lookup_slots_eq_none_iff]

theorem toNat_weightAt (position : Nat) :
    (weightAt position).toNat = min (4 + position) (2 ^ 32 - 1) := by
  have bounded : min (4 + position) (2 ^ 32 - 1) < 2 ^ 32 := by omega
  exact UInt32.toNat_ofNat_of_lt' bounded

/-- Placing a category changes its own look-up alone. -/
theorem get_place (order : List String) (r : Resolution) (c d : Category) :
    (place order r c).table.get d =
      if d = c then (weightIn? order d).or (r.table.get d) else r.table.get d := by
  unfold place
  by_cases same : d = c
  · subst same
    cases weightIn? order d <;> simp
  · cases weightIn? order c <;> simp [same]

/-- Placing a list of categories gives each of them its weight in the order, if it has one. -/
theorem get_foldl_place (order : List String) (cs : List Category) (r : Resolution)
    (d : Category) :
    (cs.foldl (place order) r).table.get d =
      if d ∈ cs then (weightIn? order d).or (r.table.get d) else r.table.get d := by
  induction cs generalizing r with
  | nil => simp
  | cons c cs ih =>
    rw [List.foldl_cons, ih, get_place]
    by_cases same : d = c
    · by_cases later : d ∈ cs <;> simp [same] <;> cases weightIn? order c <;> simp
    · simp [same]

theorem get_ofOrder_of_configurable (order : List String) {c : Category}
    (configurable : c.isConfigurable = true) :
    (ofOrder order).table.get c = weightIn? order c := by
  have unfixed : WeightTable.fixed.get c = none := by
    revert configurable
    cases c <;> decide
  have member := (Category.mem_configurable_iff c).mpr configurable
  simp [ofOrder, get_foldl_place, member, unfixed]

theorem get_ofOrder_of_not_configurable (order : List String) {c : Category}
    (configurable : c.isConfigurable = false) :
    (ofOrder order).table.get c = WeightTable.fixed.get c := by
  have member : c ∉ Category.configurable := by
    simp [Category.mem_configurable_iff, configurable]
  simp [ofOrder, get_foldl_place, member]

def fixedHead : List (Category × Weight) :=
  [(.docstring, 0), (.pass, 1), (.expression, 2), (.ifBlock, 3)]

theorem exists_mem_fixedHead_iff : (∃ w, (c, w) ∈ fixedHead) ↔ c.isConfigurable = false := by
  cases c <;> simp [fixedHead, Category.isConfigurable, Category.path]

theorem isConfigurable_of_not_mem_fixedHead (notFixed : ∀ w, (c, w) ∉ fixedHead) :
    c.isConfigurable = true := by
  cases configurable : c.isConfigurable with
  | true => rfl
  | false =>
    obtain ⟨w, member⟩ := exists_mem_fixedHead_iff.mpr configurable
    exact absurd member (notFixed w)

end Resolution

namespace Settings

open Resolution

variable {s : Settings} {order : List String} {c : Category} {w : Weight}

theorem resolve_table_of_order (given : s.customOrder = some order) :
    s.resolve.table = (ofOrder order).table := by
  simp [resolve, given]

theorem resolve_table_of_none (unset : s.customOrder = none) :
    s.resolve.table = if s.strict then WeightTable.strict else WeightTable.default := by
  simp [resolve, unset]

theorem get_resolve_of_configurable (given : s.customOrder = some order)
    (configurable : c.isConfigurable = true) : s.resolve.table.get c = weightIn? order c := by
  rw [resolve_table_of_order given, get_ofOrder_of_configurable order configurable]

theorem get_resolve_of_mem_fixedHead (given : s.customOrder = some order)
    (member : (c, w) ∈ fixedHead) : s.resolve.table.get c = some w := by
  have fixed : ∀ e ∈ fixedHead, WeightTable.fixed.get e.1 = some e.2 := by decide
  rw [resolve_table_of_order given,
    get_ofOrder_of_not_configurable order (exists_mem_fixedHead_iff.mp ⟨w, member⟩)]
  exact fixed (c, w) member

/-- The weight that settings give a category, read off the order with no table or slots in
between. `none` means that the category is left out. -/
inductive Assigns (s : Settings) : Category → Option Weight → Prop
  | strict {c : Category} : s.order = none ∨ s.order = some [] → s.strict = true →
      Assigns s c (WeightTable.strict.get c)
  | default {c : Category} : s.order = none ∨ s.order = some [] → s.strict = false →
      Assigns s c (WeightTable.default.get c)
  | fixed {order : List String} {c : Category} {w : Weight} :
      s.order = some order → order ≠ [] → (c, w) ∈ fixedHead → Assigns s c (some w)
  -- positions that no weight reaches share the greatest one
  | listed {order : List String} {c a : Category} {i : Nat} {w : Weight} :
      s.order = some order → order ≠ [] → (∀ v, (c, v) ∉ fixedHead) → PlacedBy order c a i →
      w.toNat = min (4 + i) (2 ^ 32 - 1) → Assigns s c (some w)
  | unlisted {order : List String} {c : Category} :
      s.order = some order → order ≠ [] → (∀ v, (c, v) ∉ fixedHead) →
      (∀ a ∈ c.path, a.name ∉ order) → Assigns s c none

/-- Every category is covered by a rule. -/
theorem assigns_get_resolve (s : Settings) (c : Category) :
    s.Assigns c (s.resolve.table.get c) := by
  cases given : s.customOrder with
  | none =>
    rw [resolve_table_of_none given]
    have unset := customOrder_eq_none_iff.mp given
    cases mode : s.strict with
    | true => exact .strict unset mode
    | false => exact .default unset mode
  | some order =>
    obtain ⟨stated, nonempty⟩ := customOrder_eq_some_iff.mp given
    by_cases isFixed : ∃ w, (c, w) ∈ fixedHead
    · obtain ⟨w, member⟩ := isFixed
      rw [get_resolve_of_mem_fixedHead given member]
      exact .fixed stated nonempty member
    · have notFixed := not_exists.mp isFixed
      rw [get_resolve_of_configurable given (isConfigurable_of_not_mem_fixedHead notFixed)]
      cases found : weightIn? order c with
      | some w =>
        obtain ⟨a, i, placed, rfl⟩ := weightIn?_eq_some_iff.mp found
        exact .listed stated nonempty notFixed placed (toNat_weightAt i)
      | none => exact .unlisted stated nonempty notFixed (weightIn?_eq_none_iff.mp found)

/-- No two rules disagree with resolution. -/
theorem get_resolve_of_assigns {assigned : Option Weight} (rule : s.Assigns c assigned) :
    s.resolve.table.get c = assigned := by
  cases rule with
  | strict unset mode | default unset mode =>
    simp [resolve_table_of_none (customOrder_eq_none_iff.mpr unset), mode]
  | fixed stated nonempty member =>
    exact get_resolve_of_mem_fixedHead (customOrder_eq_some_iff.mpr ⟨stated, nonempty⟩) member
  | listed stated nonempty notFixed placed weight =>
    rw [get_resolve_of_configurable (customOrder_eq_some_iff.mpr ⟨stated, nonempty⟩)
      (isConfigurable_of_not_mem_fixedHead notFixed), weightIn?_eq_some_iff]
    refine ⟨_, _, placed, ?_⟩
    rw [← UInt32.toNat_inj, weight, toNat_weightAt]
  | unlisted stated nonempty notFixed absent =>
    rw [get_resolve_of_configurable (customOrder_eq_some_iff.mpr ⟨stated, nonempty⟩)
      (isConfigurable_of_not_mem_fixedHead notFixed)]
    exact weightIn?_eq_none_iff.mpr absent

/-- Resolution gives every category exactly the weight that the settings assign to it. -/
theorem get_resolve_eq_iff_assigns (s : Settings) (c : Category) (assigned : Option Weight) :
    s.resolve.table.get c = assigned ↔ s.Assigns c assigned := by
  constructor
  · rintro rfl
    exact assigns_get_resolve s c
  · exact get_resolve_of_assigns

end Settings

end MemberOrder
