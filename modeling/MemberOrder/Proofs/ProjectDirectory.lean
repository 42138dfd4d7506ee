import MemberOrder.Lists
import MemberOrder.Proofs.FilePriority
import MemberOrder.Proofs.TreeWalk

/-! What the text of a project path does to the search for its settings. The search follows
the names of the path and nothing else: it asks for settings where the whole path leads, then
where the path leads without its last name, and so on. The directories that it asks are
therefore those above the project only as far as the text spells them out. -/
namespace MemberOrder.Discovery

open FileTree MemberOrder.Path

variable {tree : FileTree} {cwd other here there : Location} {globalDirectory : Option Path}
  {project w p d name : Path}

/-- The file of the tree that is selected for a project, if the project has one. -/
def selected? (tree : FileTree) (cwd : Location) (globalDirectory : Option Path)
    (project : Path) : Option Location :=
  match (find (fun p => (tree.view cwd p).isFile) globalDirectory project none).source with
  | .project found => (tree.locate cwd found).toOption
  | _ => none

theorem isName_of_mem_fileNames (member : name ∈ fileNames) : name.IsName := by
  simp only [fileNames, List.mem_cons, List.not_mem_nil, or_false] at member
  rcases member with rfl | rfl <;> exact ⟨by decide, by decide, by decide⟩

def settingsAt? (tree : FileTree) (start : Location) (names : List (List Char)) : Option Location :=
  fileNames.findSome? fun name =>
    (tree.walk start (names ++ [name.chars])).toOption.filter tree.holdsFile

theorem find_source_eq_project_iff {isFile : Path → Bool} {found : Path} :
    (find isFile globalDirectory project none).source = .project found ↔
      inAncestors? isFile project = some found := by
  unfold find
  cases inAncestors? isFile project with
  | some nearest => simp
  | none =>
    dsimp only
    split <;> simp

theorem selected?_eq_bind :
    selected? tree cwd globalDirectory project =
      (inAncestors? (fun p => (tree.view cwd p).isFile) project).bind
        fun found => (tree.locate cwd found).toOption := by
  unfold selected?
  split
  · next found selected => rw [find_source_eq_project_iff.mp selected, Option.bind_some]
  · next other =>
    cases nearest : inAncestors? (fun p => (tree.view cwd p).isFile) project with
    | none => rfl
    | some found => exact absurd (find_source_eq_project_iff.mpr nearest) (other found)

theorem projectFiles_eq (project : Path) :
    projectFiles project = project.ancestors.flatMap fun d => fileNames.map d.join := rfl

theorem findSome?_files (sameStart : d.start cwd = here) :
    ((fileNames.map d.join).findSome?
      fun file => (tree.locate cwd file).toOption.filter tree.holdsFile) =
      settingsAt? tree here d.names := by
  rw [List.findSome?_map]
  refine List.findSome?_congr fun name member => ?_
  simp only [Function.comp_apply, locate_join (isName_of_mem_fileNames member), sameStart]

/-- The search asks for settings at the names of the project, the longest prefix first. -/
theorem selected?_eq_findSome? :
    selected? tree cwd globalDirectory project =
      project.names.inits.reverse.findSome? (settingsAt? tree (project.start cwd)) := by
  rw [selected?_eq_bind, inAncestors?_eq_find?]
  simp only [isFile_view]
  rw [List.find?_bind_eq_findSome?, projectFiles_eq, List.findSome?_flatMap, ← findSome?_ancestors]
  refine List.findSome?_congr fun d member => findSome?_files ?_
  simp only [Path.start, (exists_of_mem_ancestors member).1]

/-- Where a walk has led, settings are found as if the walk had begun there. -/
theorem settingsAt?_append {names rest : List (List Char)} (led : tree.walk here names = .ok there) :
    settingsAt? tree here (names ++ rest) = settingsAt? tree there rest := by
  simp only [settingsAt?, List.append_assoc, walk_append tree here names, led, Except.bind]

/-- The search at the parent of an absolute path asks at all shorter prefixes of its names. -/
theorem findSome?_dropLast_inits (absolute : w.isAbsolute = true) :
    w.names.inits.dropLast.reverse.findSome? (settingsAt? tree (w.start other)) =
      w.parent?.bind (selected? tree other globalDirectory) := by
  cases above : w.parent? with
  | none => simp [names_of_parent?_eq_none above]
  | some q =>
    have sameStart : q.start other = w.start other := by
      simp only [Path.start, isAbsolute_of_parent?_eq_some above]
    rcases names_of_parent?_eq_some above with ⟨last, named⟩ | ⟨relative, _⟩
    · simp [named, List.inits_append, selected?_eq_findSome?, sameStart]
    · rw [absolute] at relative
      contradiction

/-- From the absolute path of a project the search goes as from the relative one, and then on
through the directories above the one that the relative path starts from. -/
theorem selected?_join (absolute : w.isAbsolute = true) (relative : p.isAbsolute = false)
    (named : tree.locate other w = .ok cwd) :
    selected? tree other globalDirectory (w.join p) =
      (selected? tree cwd globalDirectory p).or
        (w.parent?.bind (selected? tree other globalDirectory)) := by
  have led := walk_names_of_locate named
  have start : (w.join p).start other = w.start other := by
    simp only [Path.start, isAbsolute_join w relative]
  have here : p.start cwd = cwd := by simp [Path.start, relative]
  have below : (settingsAt? tree (w.start other) ∘ fun rest => w.names ++ rest) =
      settingsAt? tree cwd := funext fun rest => settingsAt?_append led
  rw [selected?_eq_findSome?, selected?_eq_findSome?, ← findSome?_dropLast_inits absolute, start,
    here, names_join w relative, List.inits_append_eq, List.reverse_append, List.findSome?_append,
    ← List.map_reverse, List.findSome?_map, below]

/-- A project is found from its relative and from its absolute path alike exactly when the
relative one has a settings file, or no directory that the absolute one spells out further up. -/
theorem selected?_eq_join_iff (absolute : w.isAbsolute = true) (relative : p.isAbsolute = false)
    (named : tree.locate other w = .ok cwd) :
    (∀ file, selected? tree cwd globalDirectory p = some file →
        selected? tree other globalDirectory (w.join p) = some file) ∧
      (selected? tree cwd globalDirectory p = selected? tree other globalDirectory (w.join p) ↔
        selected? tree cwd globalDirectory p ≠ none ∨
          ∀ above, w.parent? = some above → selected? tree other globalDirectory above = none) := by
  rw [selected?_join absolute relative named]
  constructor
  · intro file found
    rw [found]
    rfl
  · rw [Option.eq_or_iff, Option.bind_eq_none_iff]

/-- A project below the working directory is found by its own file, whatever stands above. -/
theorem selected?_eq_join_below :
    let tree : FileTree := .directory [("class-order.toml", .file .empty),
      ("w", .directory [("p", .directory [(".class-order.toml", .file .empty)])])]
    let w := Path.ofString "/w/"
    let p := Path.ofString "./p/"
    w.isAbsolute = true ∧ p.isAbsolute = false ∧ tree.locate [] w = .ok ["w"] ∧
      (∀ file, selected? tree ["w"] none p = some file →
        selected? tree [] none (w.join p) = some file) ∧
      (selected? tree ["w"] none p = selected? tree [] none (w.join p) ↔
        selected? tree ["w"] none p ≠ none ∨
          ∀ above, w.parent? = some above → selected? tree [] none above = none) :=
  ⟨rfl, rfl, rfl, selected?_eq_join_iff rfl rfl rfl⟩

/-- From `.` nothing above the working directory is found, though it is from `/a/w/.`. -/
theorem selected?_dot_ne :
    let tree : FileTree := .directory
      [("a", .directory [("class-order.toml", .file .empty), ("w", .directory [])])]
    let w := Path.ofString "/a/w"
    let p := Path.ofString "."
    w.isAbsolute = true ∧ p.isAbsolute = false ∧ ['.', '.'] ∉ p.names ∧
      tree.locate ["a", "w"] w = .ok ["a", "w"] ∧
      tree.view ["a", "w"] (w.join p) = .directory ∧
      selected? tree ["a", "w"] none p = none ∧
      selected? tree ["a", "w"] none (w.join p) = some ["a", "class-order.toml"] := by
  refine ⟨rfl, rfl, by decide, rfl, rfl, ?_, ?_⟩ <;> rw [selected?_eq_findSome?] <;> decide

end MemberOrder.Discovery
