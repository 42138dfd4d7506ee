import Mathlib.Data.List.Induction
import Mathlib.Data.List.Sort
import MemberOrder.Json
import MemberOrder.Lookup

/-! The entries of an object ascend by name and hold, for each name, the last of its members.
The order leaves one list for these look-ups, and so one list for what an object holds under
any names that are given in ascending order. -/
namespace MemberOrder.Json

variable {α : Type} {key name : String} {value : α} {e : String × α}
  {found members l : List (String × α)} {keys : List String}

def Ascending (l : List (String × α)) : Prop :=
  l.Pairwise fun a b => a.1 < b.1

theorem Ascending.distinct (ascending : Ascending l) : (l.map Prod.fst).Nodup := by
  refine List.pairwise_map.mpr (ascending.imp fun {a b} before same => ?_)
  exact String.lt_irrefl b.1 (same ▸ before)

theorem mem_of_mem_enter (member : e ∈ enter name value found) :
    e = (name, value) ∨ e ∈ found := by
  induction found with
  | nil => exact .inl (List.mem_singleton.mp member)
  | cons first rest ih =>
    obtain ⟨other, old⟩ := first
    rw [enter] at member
    split at member
    · exact List.mem_cons.mp member
    · split at member
      · exact (List.mem_cons.mp member).imp_right (List.mem_cons_of_mem _)
      · rcases List.mem_cons.mp member with rfl | member
        · exact .inr List.mem_cons_self
        · exact (ih member).imp_right (List.mem_cons_of_mem _)

theorem ascending_enter (ascending : Ascending found) : Ascending (enter name value found) := by
  induction found with
  | nil => exact List.pairwise_singleton _ _
  | cons first rest ih =>
    obtain ⟨other, old⟩ := first
    obtain ⟨least, below⟩ := List.pairwise_cons.mp ascending
    rw [enter]
    split
    · next before =>
      refine List.pairwise_cons.mpr ⟨fun e member => ?_, ascending⟩
      rcases List.mem_cons.mp member with rfl | member
      · exact before
      · exact String.lt_trans before (least e member)
    · next notBefore =>
      split
      · next same =>
        subst same
        exact List.pairwise_cons.mpr ⟨least, below⟩
      · next other_ne =>
        have behind : other < name := Std.lt_of_le_of_ne notBefore (Ne.symm other_ne)
        refine List.pairwise_cons.mpr ⟨fun e member => ?_, ih below⟩
        rcases mem_of_mem_enter member with rfl | member
        · exact behind
        · exact least e member

theorem lookup_enter :
    (enter name value found).lookup key = if key = name then some value else found.lookup key := by
  induction found with
  | nil => exact lookup_entry
  | cons first rest ih =>
    obtain ⟨other, old⟩ := first
    rw [enter]
    split
    · exact lookup_entry
    · split
      · next same =>
        subst same
        rw [lookup_entry, lookup_entry]
        split <;> rfl
      · next other_ne =>
        rw [lookup_entry, lookup_entry, ih]
        by_cases same : key = other
        · simp [same, Ne.symm other_ne]
        · simp [same]

theorem entries_concat (members : List (String × α)) (m : String × α) :
    entries (members ++ [m]) = enter m.1 m.2 (entries members) :=
  List.foldl_concat ..

theorem ascending_entries (members : List (String × α)) : Ascending (entries members) := by
  induction members using List.reverseRecOn with
  | nil => exact List.Pairwise.nil
  | append_singleton members m ih =>
    rw [entries_concat]
    exact ascending_enter ih

/-- Of the members of one name the last counts. -/
theorem lookup_entries : (entries members).lookup key = members.reverse.lookup key := by
  induction members using List.reverseRecOn with
  | nil => rfl
  | append_singleton members m ih =>
    rw [entries_concat, lookup_enter, ih, List.reverse_concat]
    exact lookup_entry.symm

theorem mem_entries_iff : (key, value) ∈ entries members ↔ members.reverse.lookup key = some value := by
  rw [← lookup_entries, lookup_eq_some_iff_mem (ascending_entries members).distinct]

theorem entries_perm (distinct : (members.map Prod.fst).Nodup) :
    (entries members).Perm members := by
  have distinct' : (members.reverse.map Prod.fst).Nodup := by
    rwa [List.map_reverse, List.nodup_reverse]
  refine (List.perm_ext_iff_of_nodup (ascending_entries members).distinct.of_map
    distinct.of_map).mpr fun ⟨key, value⟩ => ?_
  rw [mem_entries_iff, lookup_eq_some_iff_mem distinct', List.mem_reverse]

/-- The entries under some names, given in ascending order. -/
theorem filter_entries (ascending : keys.Pairwise (· < ·)) :
    (entries members).filter (fun e => keys.contains e.1) =
      keys.filterMap fun key => (members.reverse.lookup key).map (key, ·) := by
  have : Std.Antisymm (fun a b : String × α => a.1 < b.1) :=
    ⟨fun _ _ before after => absurd after (String.lt_asymm before)⟩
  have : Std.Irrefl (fun a b : String × α => a.1 < b.1) := ⟨fun e => String.lt_irrefl e.1⟩
  have listed : Ascending (keys.filterMap fun key => (members.reverse.lookup key).map (key, ·)) := by
    refine ascending.filterMap _ fun a b before e he e' he' => ?_
    obtain ⟨v, -, rfl⟩ := Option.map_eq_some_iff.mp he
    obtain ⟨v', -, rfl⟩ := Option.map_eq_some_iff.mp he'
    exact before
  refine ((ascending_entries members).filter _).eq_of_mem_iff listed fun ⟨key, value⟩ => ?_
  rw [List.mem_filter, mem_entries_iff, List.mem_filterMap]
  simp [and_comm]

end MemberOrder.Json
