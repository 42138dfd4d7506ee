import MemberOrder.Outcome
import MemberOrder.Proofs.ProjectDirectory
import MemberOrder.Proofs.TreeWrite

/-! What runs of the program may change in a tree. One run changes at most the settings file of
its working directory, and that only to set it up; so over any number of runs all other places
stay as they are, and so does a settings file that was never to be replaced. -/
namespace MemberOrder

open FileTree

def CommandLine.Requests (args : List String) (c : CommandLine.Command) : Prop :=
  ∃ i, CommandLine.Invocation.read args = .ok i ∧ i.command = c

structure Launch where
  cwd : Location
  env : Environment
  args : List String

namespace Launch

def outcome (l : Launch) (tree : FileTree) : Outcome :=
  (tree.run l.cwd l.env l.args).1

def leaves (l : Launch) (tree : FileTree) : FileTree :=
  (tree.run l.cwd l.env l.args).2

def settingsFile (l : Launch) : Location :=
  l.cwd ++ ["class-order.toml"]

end Launch

def FileTree.runAll (tree : FileTree) (launches : List Launch) : FileTree :=
  launches.foldl (fun tree l => l.leaves tree) tree

open CommandLine (Requests template)

/-- All that one run may do to a tree. Only setting up, and only if it succeeds, changes
anything; without `--force` it needs a free place, and with it one where no directory stands. -/
structure Frames (tree : FileTree) (l : Launch) : Prop where
  other : (∀ force, ¬Requests l.args (.init force)) → l.leaves tree = tree
  failed : (l.outcome tree).code ≠ 0 → l.leaves tree = tree
  written : ∀ force, Requests l.args (.init force) → (l.outcome tree).code = 0 →
    (l.leaves tree).sightAt? l.settingsFile = some (.file template.toUTF8) ∧
      ∀ place, place ≠ l.settingsFile → (l.leaves tree).sightAt? place = tree.sightAt? place
  fresh : Requests l.args (.init false) →
    ((l.outcome tree).code = 0 ↔ tree.sightAt? l.settingsFile = none) ∧
      ((l.outcome tree).code = 1 ↔ tree.sightAt? l.settingsFile ≠ none)
  forced : Requests l.args (.init true) →
    ((l.outcome tree).code = 0 ↔ tree.sightAt? l.settingsFile ≠ some .directory) ∧
      ((l.outcome tree).code = 1 ↔ tree.sightAt? l.settingsFile = some .directory)

section OneRun

variable {tree : FileTree} {cwd : Location} {env : Environment} {view : View} {args : List String}
  {command : CommandLine.Command} {name : Path} {l : Launch} {force : Bool}

/-- A name is looked up in the working directory. -/
theorem view_of_isName (isName : name.IsName) (stands : tree.sightAt? cwd = some .directory) :
    tree.view cwd name = (tree.sightAt? (cwd ++ [name.toString])).getD .missing := by
  obtain ⟨entries, found⟩ := exists_of_sightAt?_directory stands
  have step : tree.locate cwd name =
      if (tree.at? (cwd ++ [name.toString])).isSome then .ok (cwd ++ [name.toString])
      else .error .missing := by
    simp [locate, isName.chars_ne_nil, isName.isAbsolute, Text.cut_of_not_mem isName.noSlash, walk,
      found, isName.notBlank, isName.notUp, Path.toString]
    rfl
  rw [view, step, sightAt?]
  cases there : tree.at? (cwd ++ [name.toString]) <;> simp [there]

theorem fileName_toString : Discovery.fileName.toString = "class-order.toml" :=
  String.ofList_toList

/-- A command that is asked for is run, and part of its log is shown. -/
theorem run_of_requests (env : Environment) (view : View) (asked : Requests args command) :
    ∃ config log, CommandLine.run env view args = { command.run env view config with log } := by
  obtain ⟨i, read, rfl⟩ := asked
  exact ⟨i.config, _, by rw [CommandLine.run, read]; rfl⟩

/-- Only setting up has anything to write. -/
theorem write_run_of_other (other : ∀ force, ¬Requests args (.init force)) :
    (CommandLine.run env view args).write = none := by
  cases read : CommandLine.Invocation.read args with
  | error halt =>
    rw [CommandLine.run, read]
    cases halt <;> rfl
  | ok i =>
    obtain ⟨config, log, ran⟩ := run_of_requests env view ⟨i, read, rfl⟩
    rw [ran]
    cases command : i.command with
    | weights project strict order format =>
      show (CommandLine.runWeights env view config project strict order format).write = none
      unfold CommandLine.runWeights
      dsimp only
      split <;> rfl
    | categories format => rfl
    | init force => exact absurd ⟨i, read, command⟩ (other force)

/-- What setting up comes to depends on what has the name of the settings file. -/
inductive SetsUp (force : Bool) : Option Sight → Outcome → Prop
  | new {o : Outcome} : o.code = 0 → o.write = some template → SetsUp force none o
  | replaced {content : ByteArray} {o : Outcome} : force = true → o.code = 0 →
      o.write = some template → SetsUp force (some (.file content)) o
  | kept {content : ByteArray} {o : Outcome} : force = false → o.code = 1 → o.write = none →
      SetsUp force (some (.file content)) o
  | directory {o : Outcome} : o.code = 1 → o.write = none → SetsUp force (some .directory) o

theorem SetsUp.wrote_or_kept {seen : Option Sight} {o : Outcome} (setsUp : SetsUp force seen o) :
    (o.code = 0 ∧ o.write = some template ∧ seen ≠ some .directory) ∨
      (o.code = 1 ∧ o.write = none) := by
  cases setsUp with
  | new done wrote => exact .inl ⟨done, wrote, by simp⟩
  | replaced _ done wrote => exact .inl ⟨done, wrote, by simp⟩
  | kept _ failed quiet | directory failed quiet => exact .inr ⟨failed, quiet⟩

theorem SetsUp.code_of_fresh {seen : Option Sight} {o : Outcome} (setsUp : SetsUp false seen o) :
    (o.code = 0 ↔ seen = none) ∧ (o.code = 1 ↔ seen ≠ none) := by
  cases setsUp with
  | new done => simp [done]
  | replaced => contradiction
  | kept _ failed => simp [failed]
  | directory failed => simp [failed]

theorem SetsUp.code_of_forced {seen : Option Sight} {o : Outcome} (setsUp : SetsUp true seen o) :
    (o.code = 0 ↔ seen ≠ some .directory) ∧ (o.code = 1 ↔ seen = some .directory) := by
  cases setsUp with
  | new done => simp [done]
  | replaced _ done => simp [done]
  | kept => contradiction
  | directory failed => simp [failed]

theorem setsUp_of_requests (asked : Requests l.args (.init force))
    (stands : tree.sightAt? l.cwd = some .directory) :
    SetsUp force (tree.sightAt? l.settingsFile)
      (CommandLine.run l.env (tree.view l.cwd) l.args) := by
  obtain ⟨config, log, ran⟩ := run_of_requests l.env (tree.view l.cwd) asked
  have isName : Discovery.fileName.IsName :=
    Discovery.isName_of_mem_fileNames List.mem_cons_self
  have looked := view_of_isName isName stands
  rw [fileName_toString] at looked
  rw [ran, Launch.settingsFile]
  simp only [CommandLine.Command.run, CommandLine.runInit, looked]
  rw [sightAt?]
  cases tree.at? (l.cwd ++ ["class-order.toml"]) with
  | none => exact .new rfl rfl
  | some node =>
    cases node with
    | file content =>
      cases force with
      | false => exact .kept rfl rfl rfl
      | true => exact .replaced rfl rfl rfl
    | directory entries => cases force <;> exact .directory rfl rfl

/-- A run leaves the tree that it found unless it writes, and then it writes one file. -/
theorem leaves_eq : l.leaves tree =
    match (CommandLine.run l.env (tree.view l.cwd) l.args).write with
    | none => tree
    | some content => tree.put l.settingsFile (.file content.toUTF8) := by
  rw [Launch.leaves, FileTree.run, Launch.settingsFile, ← fileName_toString]
  cases (CommandLine.run l.env (tree.view l.cwd) l.args).write <;> rfl

theorem outcome_eq : l.outcome tree = CommandLine.run l.env (tree.view l.cwd) l.args := by
  rw [Launch.outcome, FileTree.run]
  cases (CommandLine.run l.env (tree.view l.cwd) l.args).write <;> rfl

theorem leaves_of_write_eq_none (quiet : (l.outcome tree).write = none) : l.leaves tree = tree := by
  rw [outcome_eq] at quiet
  rw [leaves_eq, quiet]

theorem leaves_of_write_eq_some {text : String} (wrote : (l.outcome tree).write = some text) :
    l.leaves tree = tree.put l.settingsFile (.file text.toUTF8) := by
  rw [outcome_eq] at wrote
  rw [leaves_eq, wrote]

theorem frames_of_directory (stands : tree.sightAt? l.cwd = some .directory) : Frames tree l := by
  have setsUp : ∀ force, Requests l.args (.init force) →
      SetsUp force (tree.sightAt? l.settingsFile) (l.outcome tree) := by
    intro force asked
    rw [outcome_eq]
    exact setsUp_of_requests asked stands
  have quiet : (∀ force, ¬Requests l.args (.init force)) → (l.outcome tree).write = none := by
    intro other
    rw [outcome_eq]
    exact write_run_of_other other
  constructor
  case other => exact fun other => leaves_of_write_eq_none (quiet other)
  case failed =>
    intro failed
    by_cases asked : ∃ force, Requests l.args (.init force)
    · obtain ⟨force, asked⟩ := asked
      rcases (setsUp force asked).wrote_or_kept with ⟨done, _⟩ | ⟨_, kept⟩
      · exact absurd done failed
      · exact leaves_of_write_eq_none kept
    · exact leaves_of_write_eq_none (quiet (not_exists.mp asked))
  case written =>
    intro force asked done
    rcases (setsUp force asked).wrote_or_kept with ⟨_, wrote, free⟩ | ⟨failed, _⟩
    · have shown : ∀ place, (tree.put l.settingsFile (.file template.toUTF8)).sightAt? place =
          if place = l.settingsFile then some (.file template.toUTF8) else tree.sightAt? place :=
        sightAt?_put stands free
      rw [leaves_of_write_eq_some wrote]
      exact ⟨(shown _).trans (if_pos rfl), fun place apart => (shown place).trans (if_neg apart)⟩
    · rw [failed] at done
      contradiction
  case fresh => exact fun asked => (setsUp false asked).code_of_fresh
  case forced => exact fun asked => (setsUp true asked).code_of_forced

/-- A place shows what it showed, unless a run has just set up the settings file there. -/
theorem Frames.kept_or_setUp (frames : Frames tree l) (place : Location) :
    (l.leaves tree).sightAt? place = tree.sightAt? place ∨
      place = l.settingsFile ∧
        ∃ force, Requests l.args (.init force) ∧ (l.outcome tree).code = 0 := by
  by_cases done : (l.outcome tree).code = 0
  · by_cases asked : ∃ force, Requests l.args (.init force)
    · obtain ⟨force, asked⟩ := asked
      by_cases here : place = l.settingsFile
      · exact .inr ⟨here, force, asked, done⟩
      · exact .inl ((frames.written force asked done).2 place here)
    · rw [frames.other (not_exists.mp asked)]
      exact .inl rfl
  · rw [frames.failed done]
    exact .inl rfl

/-- A directory stays one. -/
theorem Frames.directory {place : Location} (frames : Frames tree l)
    (stands : tree.sightAt? place = some .directory) :
    (l.leaves tree).sightAt? place = some .directory := by
  rcases frames.kept_or_setUp place with kept | ⟨rfl, force, asked, done⟩
  · rw [kept, stands]
  · cases force with
    | false =>
      rw [(frames.fresh asked).1, stands] at done
      contradiction
    | true => exact absurd stands ((frames.forced asked).1.mp done)

/-- A settings file stays as it is while it is not to be replaced. -/
theorem Frames.settings {directory : Location} {content : ByteArray} (frames : Frames tree l)
    (stands : tree.sightAt? (directory ++ ["class-order.toml"]) = some (.file content))
    (never : l.cwd = directory → ¬Requests l.args (.init true)) :
    (l.leaves tree).sightAt? (directory ++ ["class-order.toml"]) = some (.file content) := by
  rcases frames.kept_or_setUp (directory ++ ["class-order.toml"]) with
    kept | ⟨here, force, asked, done⟩
  · rw [kept, stands]
  · obtain ⟨rfl, _⟩ := List.append_inj' here rfl
    cases force with
    | false =>
      rw [(frames.fresh asked).1, Launch.settingsFile, stands] at done
      contradiction
    | true => exact absurd asked (never rfl)

theorem Frames.otherName {place : Location} (frames : Frames tree l)
    (apart : place.getLast? ≠ some "class-order.toml") :
    (l.leaves tree).sightAt? place = tree.sightAt? place := by
  rcases frames.kept_or_setUp place with kept | ⟨rfl, _⟩
  · exact kept
  · exact absurd List.getLast?_concat apart

end OneRun

section ManyRuns

variable {tree : FileTree} {launches : List Launch}

def Standing (tree : FileTree) (launches : List Launch) : Prop :=
  ∀ l ∈ launches, tree.sightAt? l.cwd = some .directory

theorem Standing.next {l : Launch} (standing : Standing tree (l :: launches)) :
    Frames tree l ∧ Standing (l.leaves tree) launches := by
  have frames := frames_of_directory (standing l List.mem_cons_self)
  exact ⟨frames, fun m member => frames.directory (standing m (List.mem_cons_of_mem l member))⟩

theorem runAll_cons (tree : FileTree) (l : Launch) (launches : List Launch) :
    tree.runAll (l :: launches) = (l.leaves tree).runAll launches := rfl

/-- What every run keeps is kept by all of them. -/
theorem sightAt?_runAll {place : Location} {seen : Option Sight} (standing : Standing tree launches)
    (start : tree.sightAt? place = seen)
    (step : ∀ l ∈ launches, ∀ tree, Frames tree l → tree.sightAt? place = seen →
      (l.leaves tree).sightAt? place = seen) :
    (tree.runAll launches).sightAt? place = seen := by
  induction launches generalizing tree with
  | nil => exact start
  | cons l launches ih =>
    obtain ⟨frames, standing⟩ := standing.next
    rw [runAll_cons]
    exact ih standing (step l List.mem_cons_self tree frames start)
      fun m member => step m (List.mem_cons_of_mem l member)

theorem sightAt?_runAll_directory {place : Location} (standing : Standing tree launches)
    (stands : tree.sightAt? place = some .directory) :
    (tree.runAll launches).sightAt? place = some .directory :=
  sightAt?_runAll standing stands fun _ _ _ frames => frames.directory

/-- Any number of runs changes settings files alone, each run its own, and none that was there
from the start unless it was to be replaced. -/
theorem runAll_frames (standing : Standing tree launches) :
    (∀ before l after, launches = before ++ l :: after → Frames (tree.runAll before) l) ∧
      (∀ directory content,
        tree.sightAt? (directory ++ ["class-order.toml"]) = some (.file content) →
        (∀ l ∈ launches, l.cwd = directory → ¬Requests l.args (.init true)) →
        (tree.runAll launches).sightAt? (directory ++ ["class-order.toml"]) =
          some (.file content)) ∧
      ∀ place, place.getLast? ≠ some "class-order.toml" →
        (tree.runAll launches).sightAt? place = tree.sightAt? place := by
  refine ⟨?_, ?_, ?_⟩
  · -- the runs before leave the working directory standing
    rintro before l after rfl
    apply frames_of_directory
    refine sightAt?_runAll_directory (fun m member => ?_) (standing l (by simp))
    exact standing m (List.mem_append_left _ member)
  · intro directory content stands never
    exact sightAt?_runAll standing stands fun l member _ frames stands =>
      frames.settings stands (never l member)
  · intro place apart
    exact sightAt?_runAll standing rfl fun _ _ _ frames same =>
      (frames.otherName apart).trans same

/-- One directory is set up, and beside it a file of the name refuses to be replaced. -/
theorem runAll_frames_refused :
    let tree : FileTree := .directory
      [("a", .directory []), ("b", .directory [("class-order.toml", .file .empty)])]
    let first : Launch := ⟨["a"], {}, ["init", "--force"]⟩
    let second : Launch := ⟨["b"], {}, ["init"]⟩
    Standing tree [first, second] ∧ Frames (first.leaves tree) second ∧
      (∀ l ∈ [first, second], l.cwd = ["b"] → ¬Requests l.args (.init true)) ∧
      (tree.runAll [first, second]).sightAt? ["b", "class-order.toml"] = some (.file .empty) ∧
      ∀ place, place.getLast? ≠ some "class-order.toml" →
        (tree.runAll [first, second]).sightAt? place = tree.sightAt? place := by
  intro tree first second
  have standing : Standing tree [first, second] := by
    simp only [Standing, List.forall_mem_cons, List.not_mem_nil, false_imp_iff, implies_true,
      and_true]
    exact ⟨rfl, rfl⟩
  have never : ∀ l ∈ [first, second], l.cwd = ["b"] → ¬Requests l.args (.init true) := by
    simp only [List.forall_mem_cons, List.not_mem_nil, false_imp_iff, implies_true, and_true]
    refine ⟨fun same => ?_, fun _ ⟨i, read, command⟩ => ?_⟩
    · simp [first] at same
    · have plain : CommandLine.Invocation.read second.args = .ok ⟨false, none, .init false⟩ := by
        rfl
      rw [plain] at read
      obtain rfl := Except.ok.inj read
      contradiction
  obtain ⟨each, kept, others⟩ := runAll_frames standing
  exact ⟨standing, each [first] second [] rfl, never, kept ["b"] .empty rfl never, others⟩

end ManyRuns

end MemberOrder
