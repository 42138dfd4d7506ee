import MemberOrder.Lists
import MemberOrder.Proofs.GivenSwitches
import MemberOrder.Proofs.RunFrame
import MemberOrder.Proofs.WeightsRun

/-! Saying the same in flags and in a settings file. A run shows the settings in force and nothing
else of where they come from, except in a verbose run; and a settings file that is added to the
working directory is the first that is looked for. -/
namespace MemberOrder

open CommandLine (Invocation flagArguments showWeights)

variable {tree : FileTree} {cwd : Location} {env : Environment} {view : View} {args : List String}
  {s : Settings} {strict verbose : Bool} {order : Option (List String)} {format : Format}
  {config : Option Path} {project name : Path} {text : String}

section SettingsFile

open Discovery FileTree

theorem ancestors_dot : (Path.ofString ".").ancestors = [.ofString ".", .ofString ""] := by
  rw [Path.ancestors_of_parent?_eq_some (q := .ofString "") (by decide),
    Path.ancestors_of_parent?_eq_none (by decide)]

theorem view_dot_join (tree : FileTree) (cwd : Location) (isName : name.IsName) :
    tree.view cwd ((Path.ofString ".").join name) = tree.view cwd name := by
  -- from the empty path a name stands for itself
  have plain : (Path.ofString "").join name = name := by
    rw [Path.join, isName.isAbsolute]
    rfl
  have dot : tree.locate cwd ((Path.ofString ".").join name) = tree.walk cwd [name.chars] :=
    locate_join isName
  have here : tree.locate cwd ((Path.ofString "").join name) = tree.walk cwd [name.chars] :=
    locate_join isName
  rw [plain] at here
  rw [view, view, dot, here]

/-- A settings file that is added to the working directory is seen from there. -/
theorem view_put (stands : tree.sightAt? cwd = some .directory)
    (free : tree.sightAt? (cwd ++ ["class-order.toml"]) ≠ some .directory) (content : ByteArray) :
    (tree.put (cwd ++ ["class-order.toml"]) (.file content)).view cwd
      (.ofString "./class-order.toml") = .file content := by
  have isName : fileName.IsName := isName_of_mem_fileNames List.mem_cons_self
  have shown : ∀ place, (tree.put (cwd ++ ["class-order.toml"]) (.file content)).sightAt? place =
      if place = cwd ++ ["class-order.toml"] then some (.file content) else tree.sightAt? place :=
    sightAt?_put stands free
  have stillStands : (tree.put (cwd ++ ["class-order.toml"]) (.file content)).sightAt? cwd =
      some .directory := by
    rw [shown, if_neg (by simp), stands]
  have looked := view_of_isName isName stillStands
  rw [fileName_toString, shown, if_pos rfl] at looked
  exact (view_dot_join _ cwd isName).trans looked

theorem settings_of_builtIn {explicit : Option Path}
    (builtIn : (load view env project explicit).source = .builtIn) :
    (load view env project explicit).settings = .ok {} := by
  have loads : (load view env project explicit).settings =
      (load view env project explicit).source.load view := rfl
  rw [loads, builtIn]
  rfl

theorem load_put (env : Environment) (stands : tree.sightAt? cwd = some .directory)
    (free : tree.sightAt? (cwd ++ ["class-order.toml"]) ≠ some .directory)
    (parsed : Settings.parse text = .ok s) :
    let loaded := load ((tree.put (cwd ++ ["class-order.toml"]) (.file text.toUTF8)).view cwd) env
      (.ofString ".") none
    loaded.source = .project (.ofString "./class-order.toml") ∧ loaded.settings = .ok s := by
  intro loaded
  have there := view_put stands free text.toUTF8
  have found : loaded.source = .project (.ofString "./class-order.toml") :=
    find_source_of_ancestors ancestors_dot (List.find?_cons_of_pos (congrArg Sight.isFile there))
  refine ⟨found, ?_⟩
  have loads : loaded.settings = loaded.source.load _ := rfl
  rw [loads, found]
  exact load_of_yields rfl there (.settings rfl parsed)

end SettingsFile

section Runs

/-- Only a settings file of the global directory is told of in a run that is not verbose. -/
theorem filter_shows_log {source : Source} (notGlobal : ∀ path, source ≠ .global path) :
    (Discovery.foundLog source ++ source.loadLog).filter (Outcome.shows false) = [] := by
  cases source with
  | global path => exact absurd rfl (notGlobal path)
  | explicit path | project path | builtIn => rfl

/-- What is shown of a run by the settings in force. -/
theorem run_of_override
    (read : Invocation.read args = .ok ⟨verbose, config, .weights project strict order format⟩)
    {loaded : Settings} (loads : (Discovery.load view env project config).settings = .ok loaded)
    {source : Source} (found : (Discovery.load view env project config).source = source)
    (notGlobal : ∀ path, source ≠ .global path) (inForce : loaded.override strict order = s) :
    let o := CommandLine.run env view args
    o.code = 0 ∧ o.stdout = Report.weights s.resolve.table format ∧
      (verbose = false →
        o.stderr = Report.lines (((showWeights s format).log.filter (Outcome.shows false)).map
          Outcome.eventLine)) := by
  subst inForce
  rw [run_of_read read loads]
  refine ⟨rfl, rfl, ?_⟩
  rintro rfl
  rw [List.filter_append, log_load, found, filter_shows_log notGlobal]
  exact String.append_empty

theorem Settings.override_nothing (s : Settings) : s.override false none = s := by
  simp [Settings.override]

/-- Flags say what a settings file of the working directory would say where there is none, and
beside any settings what these would say with the flags taken up. -/
theorem flags_say_what_settings_say :
    (∀ (tree : FileTree) (cwd : Location) (env : Environment) (names : List String)
        (strict verbose : Bool) (format : Format) (options : List String) (text : String),
      tree.sightAt? cwd = some .directory →
      (Discovery.find (fun p => (tree.view cwd p).isFile) env.globalDirectory (.ofString ".")
        none).source = .builtIn →
      tree.sightAt? (cwd ++ ["class-order.toml"]) ≠ some .directory →
      names ≠ [] → (∀ name ∈ names, ',' ∉ name.toList) →
      Settings.parse text = .ok ⟨strict, some names⟩ →
      Invocation.read ("weights" :: options) =
        .ok ⟨verbose, none, .weights (.ofString ".") false none format⟩ →
      let flagged := (tree.run cwd env ("weights" :: (flagArguments names strict ++ options))).1
      let added := tree.put (cwd ++ ["class-order.toml"]) (.file text.toUTF8)
      let plain := (added.run cwd env ("weights" :: options)).1
      flagged.code = plain.code ∧ flagged.stdout = plain.stdout ∧
        (verbose = false → flagged.stderr = plain.stderr)) ∧
      ∀ env view args env' view' args' (loaded : Settings) strict order format,
        Weighs env view args loaded strict order format →
        Weighs env' view' args' ⟨loaded.strict || strict, order.or loaded.order⟩ false none
          format →
        let flagged := CommandLine.run env view args
        let plain := CommandLine.run env' view' args'
        flagged.code = plain.code ∧ flagged.stdout = plain.stdout ∧
          flagged.log.filter (·.level = .warn) = plain.log.filter (·.level = .warn) := by
  refine ⟨?_, ?_⟩
  · intro tree cwd env names strict verbose format options text stands builtIn free someName parted
      parsed read flagged added plain
    have ranFlagged : flagged = CommandLine.run env (tree.view cwd) _ :=
      outcome_eq (l := ⟨cwd, env, _⟩)
    have ranPlain : plain = CommandLine.run env (added.view cwd) _ :=
      outcome_eq (l := ⟨cwd, env, _⟩)
    have readFlagged := CommandLine.read_of_read_weights strict someName parted read
    obtain ⟨found, loads⟩ := load_put env stands free parsed
    obtain ⟨code, stdout, stderr⟩ := run_of_override (s := ⟨strict, some names⟩) readFlagged
      (settings_of_builtIn builtIn) builtIn nofun rfl
    obtain ⟨code', stdout', stderr'⟩ := run_of_override read loads found nofun
      (Settings.override_nothing _)
    rw [ranFlagged, ranPlain]
    exact ⟨code.trans code'.symm, stdout.trans stdout'.symm,
      fun quiet => (stderr quiet).trans (stderr' quiet).symm⟩
  · intro env view args env' view' args' loaded strict order format byFlags bySettings
    obtain ⟨code, stdout, log⟩ := run_of_weighs byFlags
    obtain ⟨code', stdout', log'⟩ := run_of_weighs bySettings
    rw [Settings.override_nothing] at stdout' log'
    exact ⟨code.trans code'.symm, stdout.trans stdout'.symm, log.trans log'.symm⟩

/-- Flags in an empty tree, and flags beside a file that the user names. -/
theorem flags_say_what_settings_say_named :
    let tree : FileTree := .directory []
    let text := "order=['x','field']\nstrict=true"
    let flagged := (tree.run [] {} ["weights", "--order=x,field", "--strict", "-fjson"]).1
    let plain := ((tree.put ["class-order.toml"] (.file text.toUTF8)).run [] {}
      ["weights", "-fjson"]).1
    let view : View := fun _ => .file "order=['field']".toUTF8
    let view' : View := fun _ => .file text.toUTF8
    let byFlags := CommandLine.run {} view ["weights", "-cf", "--strict", "--order=x,field"]
    let bySettings := CommandLine.run {} view' ["weights", "-cf"]
    (flagged.code = plain.code ∧ flagged.stdout = plain.stdout ∧ flagged.stderr = plain.stderr) ∧
      byFlags.code = bySettings.code ∧ byFlags.stdout = bySettings.stdout ∧
        byFlags.log.filter (·.level = .warn) = bySettings.log.filter (·.level = .warn) := by
  intro tree text flagged plain view view' byFlags bySettings
  have builtIn : (Discovery.find (fun p => (tree.view [] p).isFile)
      (Environment.globalDirectory {}) (.ofString ".") none).source = .builtIn := by
    refine Discovery.find_source_of_selects (.builtIn rfl ?_ ?_)
    · rw [Discovery.projectFiles, ancestors_dot]
      decide
    · rintro file (configured | home) <;> contradiction
  have parsed : Settings.parse "order=['x','field']\nstrict=true" =
      .ok ⟨true, some ["x", "field"]⟩ := Except.toOption_eq_some_iff.mp (by decide +kernel)
  have parsed' : Settings.parse "order=['field']" = .ok ⟨false, some ["field"]⟩ :=
    Except.toOption_eq_some_iff.mp (by decide +kernel)
  have spelled : "weights" :: (flagArguments ["x", "field"] true ++ ["-fjson"]) =
      ["weights", "--order=x,field", "--strict", "-fjson"] := by decide
  have free : tree.sightAt? ["class-order.toml"] = none := rfl
  have runs := flags_say_what_settings_say.1 tree [] {} ["x", "field"] true false .json ["-fjson"]
    text rfl builtIn (by simp [free]) (by decide) (by decide) parsed rfl
  rw [spelled] at runs
  have weighs : Weighs {} view ["weights", "-cf", "--strict", "--order=x,field"]
      ⟨false, some ["field"]⟩ true (some ["x", "field"]) .text :=
    weighs_of_named rfl rfl parsed'
  have weighs' : Weighs {} view' ["weights", "-cf"] ⟨true, some ["x", "field"]⟩ false none .text :=
    weighs_of_named rfl rfl parsed
  exact ⟨⟨runs.1, runs.2.1, runs.2.2 rfl⟩,
    flags_say_what_settings_say.2 _ _ _ _ _ _ _ _ _ _ weighs weighs'⟩

end Runs

end MemberOrder
