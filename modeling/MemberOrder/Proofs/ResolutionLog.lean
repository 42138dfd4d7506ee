import MemberOrder.Proofs.Placement

/-! What resolution reports, told by the settings and the resolved table alone. The names that
are passed over come first, then the categories that the table leaves out; nothing is reported
that has a place, and nothing without one is kept silent. -/
namespace MemberOrder

variable {s : Settings} {order : List String} {c : Category}

def Event.told (e : Event) : Level × String :=
  (e.level, e.message)

/-- Only the event about a category itself says that the category has no weight. -/
theorem Event.told_eq_iff {e : Event} :
    e.told = (.trace, "No configured weight for " ++ c.name) ↔ e = .unplaced c := by
  constructor
  · intro same
    cases e with
    | unplaced d =>
      have wording := congrArg Prod.snd same
      rw [Category.name_injective ((String.append_right_inj _).mp wording)]
    | _ => simp [told, level] at same
  · rintro rfl
    rfl

namespace Resolution

theorem log_place (order : List String) (r : Resolution) (c : Category) :
    (place order r c).log =
      r.log ++ if (weightIn? order c).isNone then [.unplaced c] else [] := by
  unfold place
  cases weightIn? order c <;> simp

/-- Placing a list of categories notes those without a weight, in the order of the list. -/
theorem log_foldl_place (order : List String) (cs : List Category) (r : Resolution) :
    (cs.foldl (place order) r).log =
      r.log ++ (cs.filter fun c => (weightIn? order c).isNone).map .unplaced := by
  induction cs generalizing r with
  | nil => simp
  | cons c cs ih =>
    rw [List.foldl_cons, ih, log_place, List.append_assoc, List.filter_cons]
    cases weightIn? order c <;> rfl

/-- What is noted in placing is what the finished table lacks. -/
theorem log_ofOrder (order : List String) :
    (ofOrder order).log =
      (Category.configurable.filter fun c => !(ofOrder order).table.contains c).map .unplaced := by
  have same : ∀ c ∈ Category.configurable,
      (weightIn? order c).isNone = !(ofOrder order).table.contains c := by
    intro c member
    have configurable := (Category.mem_configurable_iff c).mp member
    rw [WeightTable.contains, get_ofOrder_of_configurable order configurable]
    cases weightIn? order c <;> rfl
  rw [← List.filter_congr same]
  exact log_foldl_place order _ _

end Resolution

namespace Settings

open Resolution

/-- What there is to tell of settings that resolve to this table. -/
def account (s : Settings) (table : WeightTable) : List (Level × String) :=
  let names := s.order.getD []
  (if s.strict ∧ names ≠ [] then [(.warn, Warning.exclusiveOptions.message)] else []) ++
    ((names.filter (· ∉ Category.all.map Category.name)).map fun name =>
      (.debug, "Ignoring unknown category in custom order: " ++ name)) ++
    if names = [] then []
    else (Category.configurable.filter fun c => !table.contains c).map fun c =>
      (.trace, "No configured weight for " ++ c.name)

theorem log_resolve_of_order (given : s.customOrder = some order) :
    s.resolve.log = s.warnings.map .warning ++
      (order.filter (· ∉ Category.all.map Category.name)).map .ignoredName ++
      (Category.configurable.filter fun c => !s.resolve.table.contains c).map .unplaced := by
  have unknown : ∀ name ∈ order,
      (Category.ofName? name).isNone = decide (name ∉ Category.all.map Category.name) := by
    intro name _
    rw [Bool.eq_iff_iff, Option.isNone_iff_eq_none, decide_eq_true_iff]
    exact Category.ofName?_eq_none_iff
  rw [resolve_table_of_order given, ← log_ofOrder, ← List.filter_congr unknown]
  simp [resolve, given, unknownNames]

theorem log_resolve_of_none (unset : s.customOrder = none) : s.resolve.log = [] := by
  simp [resolve, warnings, unset]

theorem getD_order_of_none (unset : s.customOrder = none) : s.order.getD [] = [] := by
  rcases customOrder_eq_none_iff.mp unset with missing | empty
  · simp [missing]
  · simp [empty]

theorem told_log_resolve (s : Settings) :
    s.resolve.log.map Event.told = s.account s.resolve.table := by
  cases given : s.customOrder with
  | none =>
    rw [log_resolve_of_none given, account, getD_order_of_none given]
    simp
  | some order =>
    obtain ⟨stated, nonempty⟩ := customOrder_eq_some_iff.mp given
    have warned : (s.warnings.map Event.warning).map Event.told =
        if s.strict ∧ order ≠ [] then [(.warn, Warning.exclusiveOptions.message)] else [] := by
      cases strict : s.strict <;> simp [warnings, given, strict, nonempty]
      rfl
    rw [log_resolve_of_order given, List.map_append, List.map_append, warned, List.map_map,
      List.map_map, account, stated, Option.getD_some, if_neg nonempty]
    rfl

theorem count_map_told (events : List Event) (c : Category) :
    (events.map Event.told).count (.trace, "No configured weight for " ++ c.name) =
      events.count (.unplaced c) := by
  rw [List.count_eq_countP, List.countP_map, List.count_eq_countP]
  refine List.countP_congr fun e _ => ?_
  simp only [Function.comp_apply, beq_iff_eq]
  exact Event.told_eq_iff

/-- A category is reported once if the order gives it no weight, and never otherwise. -/
theorem count_unplaced_log_resolve (s : Settings) (c : Category) :
    s.resolve.log.count (.unplaced c) =
      if s.order.getD [] ≠ [] ∧ c ∈ Category.configurable ∧ s.resolve.table.get c = none then 1
      else 0 := by
  cases given : s.customOrder with
  | none => simp [log_resolve_of_none given, getD_order_of_none given]
  | some order =>
    obtain ⟨stated, nonempty⟩ := customOrder_eq_some_iff.mp given
    have others : Event.unplaced c ∉ s.warnings.map Event.warning ++
        (order.filter (· ∉ Category.all.map Category.name)).map Event.ignoredName := by
      simp
    have distinct : ((Category.configurable.filter fun c => !s.resolve.table.contains c).map
        Event.unplaced).Nodup := by
      refine List.Nodup.map (fun a b same => Event.unplaced.inj same) (List.Nodup.filter _ ?_)
      decide
    rw [log_resolve_of_order given, List.count_append, List.count_eq_zero.mpr others,
      distinct.count, Nat.zero_add]
    simp [stated, nonempty, WeightTable.contains]

/-- Resolution reports exactly what the account lists: every unknown name where it stands, and
every category that can be placed and is not, once. An empty order counts as none. -/
theorem told_log_resolve_eq_account (s : Settings) :
    s.resolve.log.map Event.told = s.account s.resolve.table ∧
      (∀ c, (s.resolve.log.map Event.told).count (.trace, "No configured weight for " ++ c.name) =
        if s.order.getD [] ≠ [] ∧ c ∈ Category.configurable ∧ s.resolve.table.get c = none then 1
        else 0) ∧
      ({ s with order := some [] } : Settings).resolve = { s with order := none }.resolve ∧
      ({ s with order := some [] } : Settings).warnings = { s with order := none }.warnings := by
  refine ⟨told_log_resolve s, fun c => ?_, rfl, rfl⟩
  rw [count_map_told, count_unplaced_log_resolve]

end Settings

end MemberOrder
