/-!
# Look-ups

Lists of entries are looked up by key, and the first entry of a key counts. Where no
key stands twice, the entries are exactly what the look-ups find. An entry is replaced
where it stands, and a new one put behind the others.
-/

namespace MemberOrder

def setEntry {κ ν : Type} [DecidableEq κ] (key : κ) (value : ν) : List (κ × ν) → List (κ × ν)
  | [] => [(key, value)]
  | (other, old) :: rest =>
    if other = key then (key, value) :: rest else (other, old) :: setEntry key value rest

variable {κ ν : Type} [DecidableEq κ] {key other : κ} {value v : ν} {entries rest : List (κ × ν)}

theorem lookup_entry :
    ((other, v) :: rest).lookup key = if key = other then some v else rest.lookup key := by
  by_cases same : key = other
  · simp [same]
  · have differ : (key == other) = false := beq_false_of_ne same
    simp [List.lookup_cons, same, differ]

theorem lookup_eq_some_iff_mem (distinct : (entries.map Prod.fst).Nodup) :
    entries.lookup key = some value ↔ (key, value) ∈ entries := by
  induction entries with
  | nil => simp
  | cons e rest ih =>
    obtain ⟨other, v⟩ := e
    obtain ⟨absent, distinct⟩ := List.nodup_cons.mp distinct
    rw [lookup_entry, List.mem_cons, Prod.mk.injEq]
    by_cases same : key = other
    · subst same
      -- the key of the head stands nowhere behind it
      have apart : (key, value) ∉ rest := fun member =>
        absent (List.mem_map.mpr ⟨_, member, rfl⟩)
      simp [apart, eq_comm]
    · simp [same, ih distinct]

theorem not_mem_of_lookup_eq_none (missing : entries.lookup key = none) :
    key ∉ entries.map Prod.fst := by
  intro known
  obtain ⟨e, member, rfl⟩ := List.mem_map.mp known
  have apart := List.lookup_eq_none_iff.mp missing e member
  simp at apart

theorem lookup_setEntry :
    (setEntry other v entries).lookup key = if key = other then some v else entries.lookup key := by
  induction entries with
  | nil => exact lookup_entry
  | cons e rest ih =>
    obtain ⟨first, old⟩ := e
    rw [setEntry]
    split
    · next same =>
      subst same
      rw [lookup_entry, lookup_entry]
      split <;> rfl
    · next apart =>
      rw [lookup_entry, lookup_entry, ih]
      by_cases found : key = first
      · simp [found, apart]
      · simp [found]

/-- The keys stay, with a new one behind them. -/
theorem map_fst_setEntry :
    (setEntry key v entries).map Prod.fst =
      if key ∈ entries.map Prod.fst then entries.map Prod.fst
      else entries.map Prod.fst ++ [key] := by
  induction entries with
  | nil => rfl
  | cons e rest ih =>
    obtain ⟨first, old⟩ := e
    rw [setEntry]
    split
    · next same => simp [same]
    · next apart =>
      rw [List.map_cons, List.map_cons, ih]
      by_cases known : key ∈ rest.map Prod.fst
      · rw [if_pos known, if_pos (List.mem_cons_of_mem _ known)]
      · have absent : key ∉ first :: rest.map Prod.fst := by simp [Ne.symm apart, known]
        rw [if_neg known, if_neg absent, List.cons_append]

end MemberOrder
