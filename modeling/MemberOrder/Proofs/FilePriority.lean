import MemberOrder.Discovery

/-! Which settings file a run uses. All files that could hold the settings of a project
form one list, the nearest directory first; the first regular file of it is selected, the
global file comes after them, and a file that the user names goes before everything and
is not looked at. -/
namespace MemberOrder.Discovery

variable {isFile : Path → Bool} {env : Environment} {project file : Path} {explicit : Option Path}

def projectFiles (project : Path) : List Path :=
  project.ancestors.flatMap fun directory =>
    [directory.join (.ofString "class-order.toml"), directory.join (.ofString ".class-order.toml")]

def FirstFile (isFile : Path → Bool) (files : List Path) (file : Path) : Prop :=
  ∃ before after, files = before ++ file :: after ∧ isFile file = true ∧
    ∀ other ∈ before, isFile other = false

/-- The file of the directory that the environment sets, or else of the one in the user's home. -/
inductive GlobalFile (env : Environment) : Path → Prop
  | configured {directory : Path} : env.configDirectory = some directory →
      GlobalFile env (directory.join (.ofString "config.toml"))
  | home {home : Path} : env.configDirectory = none → env.home = some home →
      GlobalFile env ((home.join (.ofString ".class-order")).join (.ofString "config.toml"))

/-- The source that has priority, for any answers of the file system. -/
inductive Selects (isFile : Path → Bool) (env : Environment) (project : Path)
    (explicit : Option Path) : Source → Prop
  | explicit {path : Path} : explicit = some path →
      Selects isFile env project explicit (.explicit path)
  | project {file : Path} : explicit = none → FirstFile isFile (projectFiles project) file →
      Selects isFile env project explicit (.project file)
  | global {file : Path} : explicit = none →
      (∀ other ∈ projectFiles project, isFile other = false) → GlobalFile env file →
      isFile file = true → Selects isFile env project explicit (.global file)
  | builtIn : explicit = none → (∀ other ∈ projectFiles project, isFile other = false) →
      (∀ file, GlobalFile env file → isFile file = false) →
      Selects isFile env project explicit .builtIn

def reported : Source → List (Level × String)
  | .explicit _ | .builtIn => []
  | .project file => [(.debug, "Found project config: " ++ file.toString)]
  | .global file => [(.debug, "Found global config: " ++ file.toString)]

/-- The search directory by directory is a search of one list. -/
theorem inAncestors?_eq_find? (isFile : Path → Bool) (project : Path) :
    inAncestors? isFile project = (projectFiles project).find? isFile :=
  List.find?_flatMap.symm

theorem inAncestors?_eq_some_iff :
    inAncestors? isFile project = some file ↔ FirstFile isFile (projectFiles project) file := by
  rw [inAncestors?_eq_find?, List.find?_eq_some_iff_append]
  constructor
  · rintro ⟨found, before, after, split, skipped⟩
    exact ⟨before, after, split, found, fun other member => by simpa using skipped other member⟩
  · rintro ⟨before, after, split, found, skipped⟩
    exact ⟨found, before, after, split, fun other member => by simpa using skipped other member⟩

theorem inAncestors?_eq_none_iff :
    inAncestors? isFile project = none ↔ ∀ other ∈ projectFiles project, isFile other = false := by
  rw [inAncestors?_eq_find?, List.find?_eq_none]
  simp only [Bool.not_eq_true]

/-- The global file of an environment, whether or not it is there. -/
theorem globalFile_iff :
    (env.globalDirectory.map fun directory => directory.join globalFileName) = some file ↔
      GlobalFile env file := by
  rw [Option.map_eq_some_iff]
  constructor
  · rintro ⟨directory, given, rfl⟩
    cases configured : env.configDirectory with
    | some set =>
      obtain rfl : set = directory := by simpa [Environment.globalDirectory, configured] using given
      exact .configured configured
    | none =>
      obtain ⟨home, atHome, rfl⟩ : ∃ home, env.home = some home ∧
          home.join (.ofString ".class-order") = directory := by
        simpa [Environment.globalDirectory, configured] using given
      exact .home configured atHome
  · rintro (configured | ⟨configured, atHome⟩)
    · exact ⟨_, by simp [Environment.globalDirectory, configured], rfl⟩
    · exact ⟨_, by simp [Environment.globalDirectory, configured, atHome], rfl⟩

/-- Some source is always selected. -/
theorem selects_find (isFile : Path → Bool) (env : Environment) (project : Path)
    (explicit : Option Path) :
    Selects isFile env project explicit
      (find isFile env.globalDirectory project explicit).source := by
  unfold find
  cases explicit with
  | some path => exact .explicit rfl
  | none =>
    dsimp only
    cases nearest : inAncestors? isFile project with
    | some file => exact .project rfl (inAncestors?_eq_some_iff.mp nearest)
    | none =>
      have absent := inAncestors?_eq_none_iff.mp nearest
      dsimp only
      split
      · next file found =>
        obtain ⟨candidate, there⟩ := Option.filter_eq_some_iff.mp found
        exact .global rfl absent (globalFile_iff.mp candidate) there
      · next missing =>
        refine .builtIn rfl absent fun file candidate => ?_
        simpa [globalFile_iff.mpr candidate] using missing

theorem find_source_of_selects {source : Source}
    (selected : Selects isFile env project explicit source) :
    (find isFile env.globalDirectory project explicit).source = source := by
  unfold find
  cases selected with
  | explicit given => simp [given]
  | project given first => simp [given, inAncestors?_eq_some_iff.mpr first]
  | global given absent candidate there =>
    have passes := Option.filter_eq_some_iff.mpr ⟨globalFile_iff.mpr candidate, there⟩
    simp only [given, inAncestors?_eq_none_iff.mpr absent, passes]
  | builtIn given absent missing =>
    simp only [given, inAncestors?_eq_none_iff.mpr absent]
    split
    · next file found =>
      obtain ⟨candidate, there⟩ := Option.filter_eq_some_iff.mp found
      rw [missing file (globalFile_iff.mp candidate)] at there
      contradiction
    · rfl

theorem log_find (isFile : Path → Bool) (globalDirectory : Option Path) (project : Path)
    (explicit : Option Path) :
    let found := find isFile globalDirectory project explicit
    found.log.map (fun e => (e.level, e.message)) = reported found.source := by
  unfold find
  split
  · rfl
  · split
    · rfl
    · split <;> rfl

/-- Discovery selects the source that has priority, and reports the file that it found. -/
theorem find_iff_selects (isFile : Path → Bool) (env : Environment) (project : Path)
    (explicit : Option Path) :
    let found := find isFile env.globalDirectory project explicit
    (∀ source, found.source = source ↔ Selects isFile env project explicit source) ∧
      found.log.map (fun e => (e.level, e.message)) = reported found.source := by
  refine ⟨fun source => ?_, log_find isFile env.globalDirectory project explicit⟩
  constructor
  · rintro rfl
    exact selects_find isFile env project explicit
  · exact find_source_of_selects

end MemberOrder.Discovery
