import MemberOrder.Proofs.Recovery

/-! Resolution as inheritance. Resolution searches each path by itself; as a path goes on behind
its category like the path of the next one, this comes to the same as taking the place of the
order's own entry or else that of the parent, from parent to parent. -/
namespace MemberOrder

namespace Resolution

variable {order : List String} {name : String} {c p a : Category} {i : Nat} {w : Weight}

theorem exists_lastAt (listed : name ∈ order) : ∃ i, LastAt order name i := by
  cases found : (slots order).lookup name with
  | none => exact absurd listed (lookup_slots_eq_none_iff.mp found)
  | some w =>
    obtain ⟨i, stands, _⟩ := lookup_slots_eq_some_iff.mp found
    exact ⟨i, stands⟩

/-- A category has the weight of its own last position, or else what the next category on its
path has. -/
inductive Inherits (order : List String) : Category → Option Weight → Prop
  | own {c : Category} {i : Nat} {w : Weight} : LastAt order c.name i →
      w.toNat = min (4 + i) (2 ^ 32 - 1) → Inherits order c (some w)
  | parent {c p : Category} {assigned : Option Weight} : c.name ∉ order → c.path[1]? = some p →
      Inherits order p assigned → Inherits order c assigned
  | unplaced {c : Category} : c.name ∉ order → c.path[1]? = none → Inherits order c none

theorem weightIn?_of_lastAt (configurable : c.isConfigurable = true)
    (stands : LastAt order c.name i) : weightIn? order c = some (weightAt i) :=
  (placedBy_self configurable stands).weightIn?

theorem weightIn?_of_not_mem (unlisted : c.name ∉ order) :
    weightIn? order c = c.path[1]?.bind (weightIn? order) := by
  cases configurable : c.isConfigurable with
  | false =>
    have empty : c.path = [] := by simpa [Category.isConfigurable] using configurable
    simp [weightIn?, empty]
  | true =>
    have skipped := lookup_slots_eq_none_iff.mpr unlisted
    have here : weightIn? order c =
        c.path.tail.findSome? fun a => (slots order).lookup a.name := by
      rw [weightIn?, Category.path_eq_cons configurable, List.findSome?_cons, skipped]
      rfl
    rw [here]
    cases next : c.path[1]? with
    | some p => rw [Category.tail_path_eq next, Option.bind_some, weightIn?]
    | none =>
      have ended : c.path.tail = [] := by
        have short := List.getElem?_eq_none_iff.mp next
        refine List.eq_nil_of_length_eq_zero ?_
        rw [List.length_tail]
        omega
      rw [ended]
      rfl

theorem mem_tail_of_parent (next : c.path[1]? = some p) : p ∈ c.path.tail :=
  List.mem_of_getElem? (i := 0) (by simpa using next)

/-- From parent to parent the inheritance ends, with the weight that resolution finds. -/
theorem inherits_weightIn? (order : List String) (c : Category) :
    c.isConfigurable = true → Inherits order c (weightIn? order c) := by
  induction c using Category.path_induction with
  | step c ih =>
    intro configurable
    by_cases listed : c.name ∈ order
    · obtain ⟨i, stands⟩ := exists_lastAt listed
      rw [weightIn?_of_lastAt configurable stands]
      exact .own stands (toNat_weightAt i)
    · rw [weightIn?_of_not_mem listed]
      cases next : c.path[1]? with
      | none => exact .unplaced listed next
      | some p =>
        have further := mem_tail_of_parent next
        have above := Category.isConfigurable_of_mem_path (List.mem_of_mem_tail further)
        exact .parent listed next (ih p further above)

/-- No other weight is inherited. -/
theorem weightIn?_eq_of_inherits {assigned : Option Weight} (inherits : Inherits order c assigned)
    (configurable : c.isConfigurable = true) : weightIn? order c = assigned := by
  induction inherits with
  | @own c i w stands weight =>
    rw [weightIn?_of_lastAt configurable stands, Option.some.injEq]
    exact UInt32.toNat_inj.mp ((toNat_weightAt i).trans weight.symm)
  | parent unlisted next _ ih =>
    have onPath := List.mem_of_mem_tail (mem_tail_of_parent next)
    rw [weightIn?_of_not_mem unlisted, next]
    exact ih (Category.isConfigurable_of_mem_path onPath)
  | unplaced unlisted next =>
    rw [weightIn?_of_not_mem unlisted, next]
    rfl

theorem weightIn?_eq_iff_inherits {assigned : Option Weight}
    (configurable : c.isConfigurable = true) :
    weightIn? order c = assigned ↔ Inherits order c assigned := by
  refine ⟨?_, fun inherits => weightIn?_eq_of_inherits inherits configurable⟩
  rintro rfl
  exact inherits_weightIn? order c configurable

/-- What places a category places all that fall back to it. -/
theorem isSome_weightIn?_of_mem_path (onPath : a ∈ c.path)
    (placed : (weightIn? order a).isSome = true) : (weightIn? order c).isSome = true := by
  rw [Option.isSome_iff_ne_none] at placed ⊢
  refine mt (fun unplaced => ?_) placed
  rw [weightIn?_eq_none_iff] at unplaced ⊢
  exact fun b further => unplaced b (Category.mem_path_of_mem_path onPath further)

end Resolution

namespace Settings

open Resolution

variable {s : Settings} {order : List String} {c : Category}

/-- Behind an order a category that can be placed has the last position of its own name, or else
what its parent has, which may be nothing; and a category with a parent in the table is in the
table. -/
theorem get_resolve_inherits (given : s.customOrder = some order)
    (configurable : c.isConfigurable = true) :
    (c.name ∈ order → ∃ i, LastAt order c.name i ∧
        (s.resolve.table.get c).map UInt32.toNat = some (min (4 + i) (2 ^ 32 - 1))) ∧
      (c.name ∉ order → s.resolve.table.get c = c.path[1]?.bind s.resolve.table.get) ∧
      (∀ assigned, s.resolve.table.get c = assigned ↔ Inherits order c assigned) ∧
      ∀ a ∈ c.path, s.resolve.table.contains a = true → s.resolve.table.contains c = true := by
  have look : ∀ a ∈ c.path, s.resolve.table.get a = weightIn? order a := fun a onPath =>
    get_resolve_of_configurable given (Category.isConfigurable_of_mem_path onPath)
  have here := get_resolve_of_configurable given configurable
  refine ⟨fun listed => ?_, fun unlisted => ?_, fun assigned => ?_, fun a onPath present => ?_⟩
  · obtain ⟨i, stands⟩ := exists_lastAt listed
    refine ⟨i, stands, ?_⟩
    rw [here, weightIn?_of_lastAt configurable stands, Option.map_some, toNat_weightAt]
  · rw [here, weightIn?_of_not_mem unlisted]
    cases next : c.path[1]? with
    | none => rfl
    | some p =>
      have onPath := List.mem_of_mem_tail (mem_tail_of_parent next)
      rw [Option.bind_some, Option.bind_some, look p onPath]
  · rw [here]
    exact weightIn?_eq_iff_inherits configurable
  · rw [WeightTable.contains, look a onPath] at present
    rw [WeightTable.contains, here]
    exact isSome_weightIn?_of_mem_path onPath present

/-- A private property goes with the properties, however late the methods are listed. -/
theorem get_resolve_inherits_nearest :
    let order := ["property_method", "field", "method"]
    let s : Settings := { order := some order }
    let c := Category.privatePropertyMethod
    s.customOrder = some order ∧ c.isConfigurable = true ∧ c.path[1]? = some .propertyMethod ∧
      s.resolve.table.get c = c.path[1]?.bind s.resolve.table.get ∧ Inherits order c (some 4) := by
  intro order s c
  have given : s.customOrder = some order := rfl
  have unlisted : c.name ∉ order := by decide
  have found : s.resolve.table.get c = some 4 := by decide
  obtain ⟨_, parent, inherits, _⟩ := get_resolve_inherits (c := c) given rfl
  exact ⟨given, rfl, rfl, parent unlisted, (inherits (some 4)).mp found⟩

end Settings

end MemberOrder
