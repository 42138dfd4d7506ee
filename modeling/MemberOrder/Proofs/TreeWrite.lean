import MemberOrder.Proofs.TreeWalk

/-! Writing a file into a directory of a tree. The file stands there afterwards, and at every
other location the tree shows what it showed before: the directories on the way are the same
directories, and nothing stood or stands below the file. -/
namespace MemberOrder.FileTree

variable {tree node : FileTree} {entries : List (String × FileTree)} {here place : Location}
  {name key : String} {content : ByteArray} {seen : Sight}

def sightAt? (tree : FileTree) (place : Location) : Option Sight :=
  (tree.at? place).map sight

theorem sightAt?_cons :
    (directory entries).sightAt? (key :: place) = (entries.lookup key).bind (·.sightAt? place) := by
  rw [sightAt?, at?, child?, Option.map_bind]
  rfl

theorem sightAt?_file_cons : (file content).sightAt? (key :: place) = none := rfl

theorem exists_of_sightAt?_directory (stands : tree.sightAt? here = some .directory) :
    ∃ entries, tree.at? here = some (directory entries) := by
  obtain ⟨node, found, shown⟩ := Option.map_eq_some_iff.mp stands
  cases node with
  | file content => contradiction
  | directory entries => exact ⟨entries, found⟩

/-- A directory below another one is below one of its entries. -/
theorem exists_below (stands : tree.sightAt? (key :: here) = some .directory) :
    ∃ entries below, tree = directory entries ∧ entries.lookup key = some below ∧
      below.sightAt? here = some .directory := by
  cases tree with
  | file content => contradiction
  | directory entries =>
    rw [sightAt?_cons] at stands
    obtain ⟨below, found, stands⟩ := Option.bind_eq_some_iff.mp stands
    exact ⟨entries, below, rfl, found, stands⟩

/-- Nothing stands below what is no directory. -/
theorem sightAt?_below (free : tree.sightAt? here ≠ some .directory) :
    tree.sightAt? (here ++ key :: place) = none := by
  induction here generalizing tree with
  | nil =>
    cases tree with
    | file content => rfl
    | directory entries => exact absurd rfl free
  | cons step here ih =>
    cases tree with
    | file content => rfl
    | directory entries =>
      rw [sightAt?_cons] at free
      rw [List.cons_append, sightAt?_cons]
      cases found : entries.lookup step with
      | none => rfl
      | some below =>
        rw [found] at free
        exact ih free

/-- Writing a file into the top directory. -/
theorem sightAt?_setEntry (free : (directory entries).sightAt? [name] ≠ some .directory)
    (place : Location) :
    (directory (setEntry name (file content) entries)).sightAt? place =
      if place = [name] then some (.file content) else (directory entries).sightAt? place := by
  cases place with
  | nil => rfl
  | cons key place =>
    rw [sightAt?_cons, lookup_setEntry]
    by_cases same : key = name
    · subst same
      cases place with
      | nil => simp [sightAt?, at?, sight]
      | cons next place =>
        have below : (directory entries).sightAt? (key :: next :: place) = none :=
          sightAt?_below free
        simp [below, sightAt?_file_cons]
    · simp [same, sightAt?_cons]

/-- A file that is written where no directory stands changes what stands there, and nothing
else. -/
theorem sightAt?_put (stands : tree.sightAt? here = some .directory)
    (free : tree.sightAt? (here ++ [name]) ≠ some .directory) (place : Location) :
    (tree.put (here ++ [name]) (file content)).sightAt? place =
      if place = here ++ [name] then some (.file content) else tree.sightAt? place := by
  induction here generalizing tree place with
  | nil =>
    obtain ⟨entries, top⟩ := exists_of_sightAt?_directory stands
    obtain rfl : tree = directory entries := Option.some.inj top
    exact sightAt?_setEntry free place
  | cons step here ih =>
    obtain ⟨entries, below, rfl, found, stands⟩ := exists_below stands
    rw [List.cons_append, sightAt?_cons, found] at free
    -- below the entry on the way the induction applies; all other entries are untouched
    have ih := ih stands free
    simp only [List.cons_append, put, found, Option.getD_some]
    cases place with
    | nil => rfl
    | cons key place =>
      rw [sightAt?_cons, sightAt?_cons, lookup_setEntry]
      by_cases same : key = step
      · subst same
        simp [found, ih]
      · simp [same]

end MemberOrder.FileTree
