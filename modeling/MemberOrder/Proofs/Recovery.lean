import MemberOrder.Proofs.Comparison

/-! What a resolved table tells about its settings. Inheritance hides which name gave a
weight, yet the last position of every configurable name can be read back from the table:
on a path the categories further up are recovered first, and then a position holds one
name. So tables agree exactly when all these positions do. -/
namespace MemberOrder

namespace Resolution

variable {order other : List String} {c : Category} {i : Nat}

theorem weightAt_injective {i j : Nat} (hi : i < 2 ^ 32 - 4) (hj : j < 2 ^ 32 - 4)
    (same : weightAt i = weightAt j) : i = j := by
  have values := congrArg UInt32.toNat same
  rw [toNat_weightAt, toNat_weightAt] at values
  omega

/-- A listed category is placed by itself. -/
theorem placedBy_self (configurable : c.isConfigurable = true) (stands : LastAt order c.name i) :
    PlacedBy order c c i := by
  refine ⟨⟨[], c.path.tail, Category.path_eq_cons configurable, stands.mem, ?_⟩, stands⟩
  simp

/-- One step of the recovery: the positions further up the path are known to agree. -/
theorem lastAt_of_weightIn?_eq (short : order.length ≤ 2 ^ 32 - 4)
    (short' : other.length ≤ 2 ^ 32 - 4) (configurable : c.isConfigurable = true)
    (same : weightIn? order c = weightIn? other c)
    (above : ∀ a ∈ c.path.tail, ∀ i, LastAt other a.name i → LastAt order a.name i)
    (stands : LastAt order c.name i) : LastAt other c.name i := by
  have weight := (placedBy_self configurable stands).weightIn?
  obtain ⟨a, j, ⟨nearest, elsewhere⟩, eq⟩ := weightIn?_eq_some_iff.mp (same ▸ weight)
  have hi := stands.lt_length
  have hj := elsewhere.lt_length
  obtain rfl : i = j := weightAt_injective (by omega) (by omega) eq
  obtain ⟨before, after, path, _, _⟩ := nearest
  have onPath : a ∈ c :: c.path.tail := by
    rw [← Category.path_eq_cons configurable, path]
    simp
  rcases List.mem_cons.mp onPath with rfl | further
  · exact elsewhere
  · -- `a` stands at this position in both orders, and so it is `c`
    have here := above a further i elsewhere
    rw [stands.name_eq here]
    exact elsewhere

/-- The weights of all categories determine the last position of every configurable name. -/
theorem lastAt_iff_of_weightIn?_eq (short : order.length ≤ 2 ^ 32 - 4)
    (short' : other.length ≤ 2 ^ 32 - 4)
    (same : ∀ c, c.isConfigurable = true → weightIn? order c = weightIn? other c) (c : Category) :
    c.isConfigurable = true → ∀ i, LastAt order c.name i ↔ LastAt other c.name i := by
  induction c using Category.path_induction with
  | step c ih =>
    intro configurable i
    have above : ∀ a ∈ c.path.tail, ∀ i, LastAt order a.name i ↔ LastAt other a.name i := by
      intro a further
      exact ih a further (Category.isConfigurable_of_mem_path (List.mem_of_mem_tail further))
    constructor
    · exact lastAt_of_weightIn?_eq short short' configurable (same c configurable)
        fun a further i => (above a further i).mpr
    · exact lastAt_of_weightIn?_eq short' short configurable (same c configurable).symm
        fun a further i => (above a further i).mp

/-- Names with the same last positions have the same weights. -/
theorem lookup_slots_congr {name : String}
    (same : ∀ i, LastAt order name i ↔ LastAt other name i) :
    (slots order).lookup name = (slots other).lookup name := by
  ext w
  simp only [lookup_slots_eq_some_iff, same]

theorem weightIn?_congr
    (same : ∀ a ∈ c.path, ∀ i, LastAt order a.name i ↔ LastAt other a.name i) :
    weightIn? order c = weightIn? other c := by
  unfold weightIn?
  generalize c.path = path at same
  induction path with
  | nil => rfl
  | cons a path ih =>
    rw [List.findSome?_cons, List.findSome?_cons, lookup_slots_congr (same a (by simp)),
      ih fun b member => same b (List.mem_cons_of_mem _ member)]

/-- Orders differ in nothing but the weights of the configurable categories. -/
theorem table_ofOrder_eq_iff_weightIn? :
    (ofOrder order).table = (ofOrder other).table ↔
      ∀ c, c.isConfigurable = true → weightIn? order c = weightIn? other c := by
  constructor
  · intro same c configurable
    rw [← get_ofOrder_of_configurable order configurable, same,
      get_ofOrder_of_configurable other configurable]
  · intro same
    apply WeightTable.eq_of_get_eq
    intro c
    cases configurable : c.isConfigurable with
    | true =>
      rw [get_ofOrder_of_configurable order configurable,
        get_ofOrder_of_configurable other configurable, same c configurable]
    | false =>
      rw [get_ofOrder_of_not_configurable order configurable,
        get_ofOrder_of_not_configurable other configurable]

theorem table_ofOrder_eq_iff (short : order.length ≤ 2 ^ 32 - 4)
    (short' : other.length ≤ 2 ^ 32 - 4) :
    (ofOrder order).table = (ofOrder other).table ↔
      ∀ c ∈ Category.configurable, ∀ i, LastAt order c.name i ↔ LastAt other c.name i := by
  rw [table_ofOrder_eq_iff_weightIn?]
  simp only [Category.mem_configurable_iff]
  constructor
  · exact lastAt_iff_of_weightIn?_eq short short'
  · intro same c _
    apply weightIn?_congr
    intro a onPath
    exact same a (Category.isConfigurable_of_mem_path onPath)

end Resolution

namespace Settings

open Resolution

variable {s t : Settings}

/-- An `if` block stands in the head behind an order, and further down in both built-in tables. -/
theorem resolve_table_ne {order : List String} (given : s.customOrder = some order)
    (unset : t.customOrder = none) : s.resolve.table ≠ t.resolve.table := by
  intro same
  have ordered : s.resolve.table.get .ifBlock = some 3 :=
    get_resolve_of_mem_fixedHead given (by decide)
  have builtIn : t.resolve.table.get .ifBlock = some 7 := by
    rw [resolve_table_of_none unset]
    cases t.strict <;> rfl
  rw [same, builtIn] at ordered
  exact absurd ordered (by decide)

theorem resolve_table_eq_iff_of_none (unset : s.customOrder = none)
    (unset' : t.customOrder = none) :
    s.resolve.table = t.resolve.table ↔ s.strict = t.strict := by
  rw [resolve_table_of_none unset, resolve_table_of_none unset']
  cases s.strict <;> cases t.strict <;> decide

/-- Two settings resolve to the same table exactly when neither has an order and they agree
on strict mode, or both have one and every configurable name stands last at the same place. -/
theorem resolve_table_eq_iff
    (short : ∀ order, s.order = some order → order.length ≤ 2 ^ 32 - 4)
    (short' : ∀ order, t.order = some order → order.length ≤ 2 ^ 32 - 4) :
    s.resolve.table = t.resolve.table ↔
      (s.customOrder = none ∧ t.customOrder = none ∧ s.strict = t.strict) ∨
      ∃ order other, s.customOrder = some order ∧ t.customOrder = some other ∧
        ∀ c ∈ Category.configurable, ∀ i, LastAt order c.name i ↔ LastAt other c.name i := by
  cases given : s.customOrder with
  | none =>
    cases given' : t.customOrder with
    | none => simp [resolve_table_eq_iff_of_none given given']
    | some other => simp [(resolve_table_ne given' given).symm]
  | some order =>
    cases given' : t.customOrder with
    | none => simp [resolve_table_ne given given']
    | some other =>
      have bound := short order (customOrder_eq_some_iff.mp given).1
      have bound' := short' other (customOrder_eq_some_iff.mp given').1
      rw [resolve_table_of_order given, resolve_table_of_order given',
        table_ofOrder_eq_iff bound bound']
      simp

/-- Strict mode, the first of two equal names and the filling of the other slots are hidden. -/
theorem resolve_table_eq_iff_hidden :
    let order := ["field", "method", "field"]
    let other := ["docstring", "method", "field"]
    let s : Settings := { order := some order }
    let t : Settings := { strict := true, order := some other }
    order.length ≤ 2 ^ 32 - 4 ∧ other.length ≤ 2 ^ 32 - 4 ∧
      s.resolve.table = t.resolve.table ∧
      (s.resolve.table = t.resolve.table ↔
        (s.customOrder = none ∧ t.customOrder = none ∧ s.strict = t.strict) ∨
        ∃ order other, s.customOrder = some order ∧ t.customOrder = some other ∧
          ∀ c ∈ Category.configurable, ∀ i, LastAt order c.name i ↔ LastAt other c.name i) := by
  refine ⟨by decide, by decide, by decide, resolve_table_eq_iff ?_ ?_⟩
  · rintro _ ⟨⟩
    decide
  · rintro _ ⟨⟩
    decide

end Settings

end MemberOrder
