import MemberOrder.Proofs.ProjectDirectory

/-! Whether the settings file that is found belongs to the project. The search drops the last
pieces of the path's text, `..` like any other, and what is left leads to the directory of the
file. Dropping names leads up from the project; dropping a `..` may lead elsewhere. -/
namespace MemberOrder.Discovery

open FileTree MemberOrder.Path

variable {tree : FileTree} {cwd there place : Location} {globalDirectory : Option Path}
  {project file d : Path}

def AtOrAbove (there place : Location) : Prop :=
  ∃ here name, place = here ++ [name] ∧ here <+: there

/-- Where a path leads as far as its text tells. -/
def spelledOut (cwd : Location) (p : Path) : Location :=
  p.names.foldl stepTo (p.start cwd)

theorem eq_spelledOut_of_locate {p : Path} (named : tree.locate cwd p = .ok there) :
    there = spelledOut cwd p :=
  eq_foldl_of_walk (walk_names_of_locate named)

theorem atOrAbove_concat_iff {here : Location} {name : String} :
    AtOrAbove there (here ++ [name]) ↔ here <+: there := by
  constructor
  · rintro ⟨other, last, same, above⟩
    rwa [(List.append_inj' same rfl).1]
  · exact fun above => ⟨here, name, rfl, above⟩

/-- A file that is found has one of the known names in a directory that an ancestor of the
project path spells out. -/
theorem exists_ancestor_of_find
    (found : (find (fun p => (tree.view cwd p).isFile) globalDirectory project none).source =
      .project file) :
    ∃ d ∈ project.ancestors, ∃ name ∈ fileNames, file = d.join name ∧
      tree.locate cwd file = .ok (spelledOut cwd d ++ [name.toString]) := by
  have nearest := find_source_eq_project_iff.mp found
  rw [inAncestors?_eq_find?, projectFiles_eq] at nearest
  obtain ⟨d, member, candidate⟩ := List.mem_flatMap.mp (List.mem_of_find?_eq_some nearest)
  obtain ⟨name, known, rfl⟩ := List.mem_map.mp candidate
  refine ⟨d, member, name, known, rfl, ?_⟩
  have there := List.find?_some nearest
  rw [isFile_view] at there
  have isName := isName_of_mem_fileNames known
  cases located : tree.locate cwd (d.join name) with
  | error absence => simp [located, Except.toOption] at there
  | ok place =>
    rw [locate_join isName] at located
    rw [eq_foldl_of_walk located, List.foldl_concat, stepTo_name _ isName, spelledOut]

/-- Where an ancestor leads, the pieces that it lacks lead to the project. -/
theorem spelledOut_ancestor (cwd : Location) (member : d ∈ project.ancestors) :
    ∃ dropped, project.names = d.names ++ dropped ∧
      spelledOut cwd project = dropped.foldl stepTo (spelledOut cwd d) := by
  obtain ⟨sameStart, dropped, split⟩ := exists_of_mem_ancestors member
  refine ⟨dropped, split, ?_⟩
  simp only [spelledOut, split, List.foldl_append, Path.start, sameStart]

/-- The settings file of a project stands in its directory or in one above it exactly when the
ancestor that it was found through leads there, and so always unless a `..` was dropped. -/
theorem project_file_atOrAbove_iff (named : tree.locate cwd project = .ok there)
    (found : (find (fun p => (tree.view cwd p).isFile) globalDirectory project none).source =
      .project file) :
    ∃ place, tree.locate cwd file = .ok place ∧
      ∃ d ∈ project.ancestors, ∃ name ∈ fileNames, ∃ dropped,
        file = d.join name ∧ project.names = d.names ++ dropped ∧
        place = spelledOut cwd d ++ [name.toString] ∧
        there = dropped.foldl stepTo (spelledOut cwd d) ∧
        (AtOrAbove there place ↔ spelledOut cwd d <+: there) ∧
        (['.', '.'] ∉ dropped → AtOrAbove there place) := by
  obtain ⟨d, member, name, known, rfl, located⟩ := exists_ancestor_of_find found
  obtain ⟨dropped, split, leads⟩ := spelledOut_ancestor cwd member
  have there_eq := (eq_spelledOut_of_locate named).trans leads
  refine ⟨_, located, d, member, name, known, dropped, rfl, split, rfl, there_eq,
    atOrAbove_concat_iff, fun noneUp => ?_⟩
  rw [atOrAbove_concat_iff, there_eq]
  exact isPrefix_foldl_stepTo noneUp

theorem ancestors_up : (Path.ofString "w/..").ancestors =
    [.ofString "w/..", .ofString "w", .ofString ""] := by
  rw [ancestors_of_parent?_eq_some (q := .ofString "w") (by decide),
    ancestors_of_parent?_eq_some (q := .ofString "") (by decide),
    ancestors_of_parent?_eq_none (by decide)]

theorem find_source_of_ancestors {isFile : Path → Bool} {up : List Path}
    (above : project.ancestors = up)
    (first : (up.flatMap fun d => fileNames.map d.join).find? isFile = some file) :
    (find isFile globalDirectory project none).source = .project file := by
  rw [find_source_eq_project_iff, inAncestors?_eq_find?, projectFiles_eq, above, first]

/-- Through `w/..` the file beside the project is found, which stands in the project itself. -/
theorem project_file_atOrAbove_up :
    let tree : FileTree := .directory [("w", .directory [("w", .directory []),
      ("class-order.toml", .file .empty)])]
    let project := Path.ofString "w/.."
    let file := Path.ofString "w/../class-order.toml"
    tree.locate ["w"] project = .ok ["w"] ∧
      (find (fun p => (tree.view ["w"] p).isFile) none project none).source = .project file ∧
      ∃ place, tree.locate ["w"] file = .ok place ∧
        ∃ d ∈ project.ancestors, ∃ name ∈ fileNames, ∃ dropped,
          file = d.join name ∧ project.names = d.names ++ dropped ∧
          place = spelledOut ["w"] d ++ [name.toString] ∧
          ["w"] = dropped.foldl stepTo (spelledOut ["w"] d) ∧
          (AtOrAbove ["w"] place ↔ spelledOut ["w"] d <+: ["w"]) ∧
          (['.', '.'] ∉ dropped → AtOrAbove ["w"] place) := by
  intro tree project file
  have found : (find (fun p => (tree.view ["w"] p).isFile) none project none).source =
      .project file := find_source_of_ancestors ancestors_up (by decide)
  exact ⟨rfl, found, project_file_atOrAbove_iff rfl found⟩

/-- In `/a` the path `w/..` names `/a`, and a file of `/a/w` is found. -/
theorem project_file_beside :
    let tree : FileTree := .directory
      [("a", .directory [("w", .directory [("class-order.toml", .file .empty)])])]
    let project := Path.ofString "w/.."
    let file := Path.ofString "w/class-order.toml"
    tree.locate ["a"] project = .ok ["a"] ∧ tree.view ["a"] project = .directory ∧
      (find (fun p => (tree.view ["a"] p).isFile) none project none).source = .project file ∧
      tree.locate ["a"] file = .ok ["a", "w", "class-order.toml"] ∧
      ¬AtOrAbove ["a"] ["a", "w", "class-order.toml"] := by
  refine ⟨rfl, rfl, find_source_of_ancestors ancestors_up (by decide), rfl, fun above => ?_⟩
  have inside : ["a", "w"] <+: ["a"] := atOrAbove_concat_iff.mp above
  exact absurd inside (by decide)

end MemberOrder.Discovery
