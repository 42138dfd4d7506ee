import MemberOrder.Proofs.ResolutionLog

/-! One more name at the end of an order. The name places the categories whose paths reach it
before any name that was already listed, and puts them behind everything else; all other
categories stay where they are. -/
namespace MemberOrder

namespace Resolution

variable {order : List String} {name : String} {c a : Category} {i : Nat}

/-- The name is that of a category on the path of `c`, and the order lists none before it. -/
def TakesOver (order : List String) (name : String) (c : Category) : Prop :=
  ∃ before a after, c.path = before ++ a :: after ∧ a.name = name ∧
    ∀ b ∈ before, b.name ∉ order

/-- Only the names of configurable categories stand on a path. -/
theorem TakesOver.exists_configurable (takes : TakesOver order name c) :
    ∃ a : Category, a.isConfigurable = true ∧ a.name = name := by
  obtain ⟨before, a, after, path, named, _⟩ := takes
  exact ⟨a, Category.isConfigurable_of_mem_path (c := c) (by simp [path]), named⟩

theorem placedBy_concat_of_takesOver (takes : TakesOver order name c) :
    ∃ a, PlacedBy (order ++ [name]) c a order.length := by
  obtain ⟨before, a, after, path, rfl, unlisted⟩ := takes
  have distinct : (before ++ a :: after).Nodup := path ▸ c.nodup_path
  refine ⟨a, ⟨before, after, path, by simp, fun b member listed => ?_⟩,
    lastAt_concat.mpr (.inl ⟨rfl, rfl⟩)⟩
  rcases List.mem_append.mp listed with listed | added
  · exact unlisted b member listed
  · obtain rfl := Category.name_injective (List.mem_singleton.mp added)
    exact (List.nodup_append.mp distinct).2.2 b member b List.mem_cons_self rfl

/-- Where the name does not take over, the category is placed as before. -/
theorem placedBy_concat_iff (stays : ¬TakesOver order name c) :
    PlacedBy (order ++ [name]) c a i ↔ PlacedBy order c a i := by
  constructor
  · rintro ⟨⟨before, after, path, listed, unlisted⟩, stands⟩
    have unlisted : ∀ b ∈ before, b.name ∉ order := fun b member listed =>
      unlisted b member (List.mem_append_left _ listed)
    have differ : a.name ≠ name := fun same => stays ⟨before, a, after, path, same, unlisted⟩
    rcases lastAt_concat.mp stands with ⟨same, _⟩ | ⟨_, stands⟩
    · exact absurd same differ
    · exact ⟨⟨before, after, path, stands.mem, unlisted⟩, stands⟩
  · rintro ⟨⟨before, after, path, listed, unlisted⟩, stands⟩
    have differ : a.name ≠ name := fun same => stays ⟨before, a, after, path, same, unlisted⟩
    refine ⟨⟨before, after, path, List.mem_append_left _ listed, fun b member listed => ?_⟩,
      lastAt_concat.mpr (.inr ⟨differ, stands⟩)⟩
    rcases List.mem_append.mp listed with listed | added
    · exact unlisted b member listed
    · -- a category in front that bears the name would let it take over
      obtain ⟨front, behind, rfl⟩ := List.append_of_mem member
      refine stays ⟨front, b, behind ++ a :: after, by simp [path], List.mem_singleton.mp added, ?_⟩
      exact fun d member => unlisted d (List.mem_append_left _ member)

theorem weightIn?_concat_of_takesOver (takes : TakesOver order name c) :
    weightIn? (order ++ [name]) c = some (weightAt order.length) := by
  obtain ⟨a, placed⟩ := placedBy_concat_of_takesOver takes
  exact placed.weightIn?

theorem weightIn?_concat_of_not_takesOver (stays : ¬TakesOver order name c) :
    weightIn? (order ++ [name]) c = weightIn? order c := by
  ext w
  simp only [weightIn?_eq_some_iff, placedBy_concat_iff stays]

end Resolution

namespace Settings

open Resolution

variable {s t : Settings} {order : List String} {name : String} {c : Category}

theorem get_resolve_of_takesOver (given : s.customOrder = some (order ++ [name]))
    (takes : TakesOver order name c) :
    (s.resolve.table.get c).map UInt32.toNat = some (min (4 + order.length) (2 ^ 32 - 1)) := by
  have placed := weightIn?_concat_of_takesOver takes
  obtain ⟨a, i, placedBy, _⟩ := weightIn?_eq_some_iff.mp placed
  rw [get_resolve_of_configurable given placedBy.isConfigurable, placed, Option.map_some,
    toNat_weightAt]

theorem get_resolve_of_not_takesOver (given : s.customOrder = some order)
    (longer : t.customOrder = some (order ++ [name])) (stays : ¬TakesOver order name c) :
    t.resolve.table.get c = s.resolve.table.get c := by
  cases configurable : c.isConfigurable with
  | true =>
    rw [get_resolve_of_configurable given configurable,
      get_resolve_of_configurable longer configurable, weightIn?_concat_of_not_takesOver stays]
  | false =>
    rw [resolve_table_of_order given, resolve_table_of_order longer,
      get_ofOrder_of_not_configurable _ configurable, get_ofOrder_of_not_configurable _ configurable]

/-- A name at the end of an order gives the categories it takes over the weight of its own
position, and changes nothing else. So no category is dropped, the head of the class stays, and
a name that places no category leaves the whole table as it is. -/
theorem get_resolve_of_appended (given : s.customOrder = some order)
    (appended : t.order = some (order ++ [name])) :
    (∀ c, TakesOver order name c →
        (t.resolve.table.get c).map UInt32.toNat = some (min (4 + order.length) (2 ^ 32 - 1))) ∧
      (∀ c, ¬TakesOver order name c → t.resolve.table.get c = s.resolve.table.get c) ∧
      (∀ c, s.resolve.table.contains c = true → t.resolve.table.contains c = true) ∧
      (∀ e ∈ fixedHead,
        s.resolve.table.get e.1 = some e.2 ∧ t.resolve.table.get e.1 = some e.2) ∧
      (Category.ofName? name = none ∨ (∃ e ∈ fixedHead, e.1.name = name) →
        t.resolve.table = s.resolve.table) := by
  have longer : t.customOrder = some (order ++ [name]) :=
    customOrder_eq_some_iff.mpr ⟨appended, by simp⟩
  have moved : ∀ c, TakesOver order name c →
      (t.resolve.table.get c).map UInt32.toNat = some (min (4 + order.length) (2 ^ 32 - 1)) :=
    fun c => get_resolve_of_takesOver longer
  have kept : ∀ c, ¬TakesOver order name c → t.resolve.table.get c = s.resolve.table.get c :=
    fun c => get_resolve_of_not_takesOver given longer
  refine ⟨moved, kept, fun c present => ?_, fun e member => ?_, fun idle => ?_⟩
  · by_cases takes : TakesOver order name c
    · have placed := moved c takes
      cases found : t.resolve.table.get c with
      | none => simp [found] at placed
      | some w => simp [WeightTable.contains, found]
    · rwa [WeightTable.contains, kept c takes]
  · exact ⟨get_resolve_of_mem_fixedHead given member, get_resolve_of_mem_fixedHead longer member⟩
  · apply WeightTable.eq_of_get_eq
    intro c
    refine kept c fun takes => ?_
    obtain ⟨a, configurable, rfl⟩ := takes.exists_configurable
    rcases idle with unknown | ⟨e, member, same⟩
    · exact Category.ofName?_eq_none_iff.mp unknown (List.mem_map_of_mem a.mem_all)
    · obtain rfl := Category.name_injective same
      have fixed := exists_mem_fixedHead_iff.mp ⟨e.2, member⟩
      rw [configurable] at fixed
      contradiction

/-- A method name that is listed later leaves the private methods where they were. -/
theorem get_resolve_of_appended_shielded :
    let order := ["private_method", "field"]
    let s : Settings := { strict := true, order := some order }
    let t := s.push "method"
    s.customOrder = some order ∧ t.order = some (order ++ ["method"]) ∧
      TakesOver order "method" .save ∧ ¬TakesOver order "method" .privateMethod ∧
      (t.resolve.table.get .save).map UInt32.toNat = some (min (4 + order.length) (2 ^ 32 - 1)) ∧
      t.resolve.table.get .privateMethod = s.resolve.table.get .privateMethod := by
  intro order s t
  have given : s.customOrder = some order := rfl
  have appended : t.order = some (order ++ ["method"]) := rfl
  have takes : TakesOver order "method" .save := ⟨[.save], .method, [], rfl, rfl, by decide⟩
  have stays : ¬TakesOver order "method" .privateMethod := by
    rintro ⟨before, a, after, path, named, unlisted⟩
    cases before with
    | nil =>
      obtain ⟨rfl, _⟩ := List.cons.inj path
      exact absurd named (by decide)
    | cons b before =>
      obtain ⟨rfl, _⟩ := List.cons.inj path
      exact unlisted .privateMethod List.mem_cons_self (by decide)
  obtain ⟨moved, kept, _⟩ := get_resolve_of_appended given appended
  exact ⟨given, appended, takes, stays, moved .save takes, kept .privateMethod stays⟩

end Settings

end MemberOrder
