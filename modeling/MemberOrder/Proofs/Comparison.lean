import MemberOrder.Proofs.Placement

/-! Comparing weights amounts to comparing positions. The head of the class comes before
everything that an order places, an earlier position never sorts behind a later one, and
as long as no position reaches the greatest weight, categories tie only by a common source. -/
namespace MemberOrder

namespace Resolution

theorem compare_eq_compare_toNat (v w : Weight) : compare v w = compare v.toNat w.toNat := by
  simp only [compare, compareOfLessAndEq, UInt32.lt_iff_toNat_lt, ← UInt32.toNat_inj]

theorem compare_weightAt_ne_gt {i j : Nat} (before : i ≤ j) :
    compare (weightAt i) (weightAt j) ≠ .gt := by
  rw [compare_eq_compare_toNat, Nat.compare_ne_gt, toNat_weightAt, toNat_weightAt]
  omega

/-- Below the limit every position has a weight of its own. -/
theorem compare_weightAt {i j : Nat} (hi : i < 2 ^ 32 - 4) (hj : j < 2 ^ 32 - 4) :
    compare (weightAt i) (weightAt j) = compare i j := by
  have exact_i : min (4 + i) (2 ^ 32 - 1) = 4 + i := by omega
  have exact_j : min (4 + j) (2 ^ 32 - 1) = 4 + j := by omega
  rw [compare_eq_compare_toNat, toNat_weightAt, toNat_weightAt, exact_i, exact_j]
  simp only [Nat.compare_eq_ite_lt, Nat.add_lt_add_iff_left]

/-- What an order says about the comparison `o` of two categories: `p` and `q` are the listed
categories that place them, `i` and `j` the last positions of the names of these two. -/
structure Follows (order : List String) (a b : Category) (o : Ordering) : Prop where
  head_first : a.isConfigurable = false → b.isConfigurable = true → o = .lt
  left_placed : a.isConfigurable = true → ∃ p i, PlacedBy order a p i
  right_placed : b.isConfigurable = true → ∃ q j, PlacedBy order b q j
  not_reversed : ∀ p q i j, PlacedBy order a p i → PlacedBy order b q j → i < j → o ≠ .gt
  exact_order : order.length ≤ 2 ^ 32 - 4 →
    ∀ p q i j, PlacedBy order a p i → PlacedBy order b q j → o = compare i j ∧ (o = .eq ↔ p = q)

end Resolution

namespace WeightTable

theorem compare_eq_some {t : WeightTable} {a b : Category} {v w : Weight}
    (left : t.get a = some v) (right : t.get b = some w) :
    t.compare a b = some (Ord.compare v w) := by
  simp [WeightTable.compare, left, right]

end WeightTable

namespace Settings

open Resolution

variable {s : Settings} {order : List String} {a b c : Category} {v w : Weight}

theorem exists_placedBy (given : s.customOrder = some order)
    (found : s.resolve.table.get c = some w) (configurable : c.isConfigurable = true) :
    ∃ p i, PlacedBy order c p i ∧ w = weightAt i := by
  rw [get_resolve_of_configurable given configurable] at found
  exact weightIn?_eq_some_iff.mp found

theorem eq_weightAt_of_placedBy (given : s.customOrder = some order)
    (found : s.resolve.table.get c = some w) {p : Category} {i : Nat}
    (placed : PlacedBy order c p i) : w = weightAt i := by
  rw [get_resolve_of_configurable given placed.isConfigurable, placed.weightIn?] at found
  exact (Option.some.inj found).symm

theorem toNat_lt_of_fixed (given : s.customOrder = some order)
    (found : s.resolve.table.get c = some w) (fixed : c.isConfigurable = false) :
    w.toNat < 4 := by
  have small : ∀ e ∈ fixedHead, e.2.toNat < 4 := by decide
  obtain ⟨v, member⟩ := exists_mem_fixedHead_iff.mpr fixed
  rw [get_resolve_of_mem_fixedHead given member] at found
  obtain rfl := Option.some.inj found
  exact small (c, v) member

theorem follows_of_get (given : s.customOrder = some order) (left : s.resolve.table.get a = some v)
    (right : s.resolve.table.get b = some w) : Follows order a b (compare v w) where
  head_first fixed configurable := by
    obtain ⟨q, j, _, rfl⟩ := exists_placedBy given right configurable
    have low := toNat_lt_of_fixed given left fixed
    rw [compare_eq_compare_toNat, Nat.compare_eq_lt, toNat_weightAt]
    omega
  left_placed configurable := by
    obtain ⟨p, i, placed, _⟩ := exists_placedBy given left configurable
    exact ⟨p, i, placed⟩
  right_placed configurable := by
    obtain ⟨q, j, placed, _⟩ := exists_placedBy given right configurable
    exact ⟨q, j, placed⟩
  not_reversed p q i j atLeft atRight before := by
    rw [eq_weightAt_of_placedBy given left atLeft, eq_weightAt_of_placedBy given right atRight]
    exact compare_weightAt_ne_gt (Nat.le_of_lt before)
  exact_order short p q i j atLeft atRight := by
    have hi := atLeft.2.lt_length
    have hj := atRight.2.lt_length
    rw [eq_weightAt_of_placedBy given left atLeft, eq_weightAt_of_placedBy given right atRight,
      compare_weightAt (by omega) (by omega)]
    refine ⟨rfl, ?_⟩
    rw [Nat.compare_eq_eq]
    constructor
    · rintro rfl
      exact Category.name_injective (atLeft.2.name_eq atRight.2)
    · rintro rfl
      exact atLeft.2.position_eq atRight.2

/-- Categories that a non-empty order leaves in the table are compared as the order has them. -/
theorem compare_resolve_follows (given : s.order = some order) (nonempty : order ≠ [])
    (left : s.resolve.table.contains a = true) (right : s.resolve.table.contains b = true) :
    ∃ o, s.resolve.table.compare a b = some o ∧ Follows order a b o := by
  obtain ⟨v, left⟩ := Option.isSome_iff_exists.mp left
  obtain ⟨w, right⟩ := Option.isSome_iff_exists.mp right
  have given := customOrder_eq_some_iff.mpr ⟨given, nonempty⟩
  exact ⟨compare v w, WeightTable.compare_eq_some left right, follows_of_get given left right⟩

/-- A repeated name counts at its last place, so `__init__` comes behind `constant` here. -/
theorem compare_resolve_follows_repeated :
    let order := ["magic_method", "bogus", "field", "magic_method"]
    let s : Settings := { strict := true, order := some order }
    s.resolve.table.contains .init = true ∧ s.resolve.table.contains .constant = true ∧
      ∃ o, s.resolve.table.compare .init .constant = some o ∧ Follows order .init .constant o :=
  ⟨by decide, by decide, compare_resolve_follows rfl (by decide) (by decide) (by decide)⟩

end Settings

end MemberOrder
