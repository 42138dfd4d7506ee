import Mathlib.Data.List.Induction
import Mathlib.Data.List.Sort
import MemberOrder.WeightTable

/-! A weight table is determined by its look-ups: the ascending order of the entries
leaves one list for every assignment of weights. A table that is collected from pairs
has the last weight given to each category, so a table is collected again from its own
entries. -/
namespace MemberOrder.WeightTable

theorem distinct_entries (t : WeightTable) : (t.entries.map Prod.fst).Nodup := by
  refine List.pairwise_map.mpr (t.ascending.imp fun {a b} before same => ?_)
  exact Nat.lt_irrefl b.1.index (same ▸ before)

theorem mem_entries_iff (t : WeightTable) (c : Category) (w : Weight) :
    (c, w) ∈ t.entries ↔ t.get c = some w :=
  (lookup_eq_some_iff_mem t.distinct_entries).symm

/-- Two tables with the same look-ups have the same entries in the same order. -/
theorem eq_of_get_eq {t u : WeightTable} (same : ∀ c, t.get c = u.get c) : t = u := by
  have members : ∀ e, e ∈ t.entries ↔ e ∈ u.entries := by
    rintro ⟨c, w⟩
    rw [mem_entries_iff, mem_entries_iff, same]
  have asymmetric : ∀ a b : Category × Weight, a.1 < b.1 → b.1 < a.1 → a = b :=
    fun _ _ ab ba => absurd ab (Nat.lt_asymm ba)
  have entries : t.entries = u.entries := by
    have : Std.Antisymm (fun a b : Category × Weight => a.1 < b.1) := ⟨asymmetric⟩
    have : Std.Irrefl (fun a b : Category × Weight => a.1 < b.1) := ⟨fun _ => Nat.lt_irrefl _⟩
    exact t.ascending.eq_of_mem_iff u.ascending members
  cases t
  cases u
  cases entries
  rfl

theorem ofList_concat (pairs : List (Category × Weight)) (e : Category × Weight) :
    ofList (pairs ++ [e]) = (ofList pairs).insert e.1 e.2 :=
  List.foldl_concat ..

/-- Of the pairs for one category the last counts. -/
theorem get_ofList (pairs : List (Category × Weight)) (c : Category) :
    (ofList pairs).get c = pairs.reverse.lookup c := by
  induction pairs using List.reverseRecOn with
  | nil => rfl
  | append_singleton pairs e ih =>
    rw [ofList_concat, get_insert, ih, List.reverse_concat, lookup_entry]

/-- The entries may come in any order. -/
theorem ofList_of_perm {t : WeightTable} {pairs : List (Category × Weight)}
    (rearranged : pairs.Perm t.entries) : ofList pairs = t := by
  have distinct : (pairs.reverse.map Prod.fst).Nodup := by
    rw [List.map_reverse, List.nodup_reverse]
    exact (rearranged.map Prod.fst).nodup_iff.mpr t.distinct_entries
  refine eq_of_get_eq fun c => Option.ext fun w => ?_
  rw [get_ofList, lookup_eq_some_iff_mem distinct, List.mem_reverse, rearranged.mem_iff,
    mem_entries_iff]

theorem ofList_entries (t : WeightTable) : ofList t.entries = t :=
  ofList_of_perm (List.Perm.refl t.entries)

end MemberOrder.WeightTable
