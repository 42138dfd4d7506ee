import MemberOrder.Proofs.FlagsAndFile
import MemberOrder.Proofs.ResolutionLog

/-! All that a run says in printing weights. First comes what is said of the source of the settings,
then what there is to say of the settings in force; a run that is not verbose leaves the notes
out and is otherwise the same. -/
namespace MemberOrder

open CommandLine (Invocation showWeights)

def Source.introduced : Source → List (Level × String)
  | .explicit _ => []
  | .project file => [(.debug, "Found project config: " ++ file.toString)]
  | .global file =>
    [(.debug, "Found global config: " ++ file.toString),
      (.info, "Using global config: " ++ file.toString)]
  | .builtIn => [(.debug, "No config file found, using defaults")]

namespace Settings

def unknownListed (s : Settings) : List String :=
  (s.order.getD []).filter (· ∉ Category.all.map Category.name)

/-- What there is to say of settings in force: a warning of each unknown name, a warning of strict
mode beside an order, and a note of each unknown name. -/
def remarks (s : Settings) : List (Level × String) :=
  (s.unknownListed.map fun name => (.warn, "Unknown category in order: " ++ name)) ++
    (if s.strict ∧ s.order.getD [] ≠ [] then [(.warn, Warning.exclusiveOptions.message)] else []) ++
    s.unknownListed.map fun name =>
      (.debug, "Ignoring unknown category in custom order: " ++ name)

end Settings

/-- What is shown of all that is said; notes are for verbose runs. -/
def shownOf (verbose : Bool) (said : List (Level × String)) : List (Level × String) :=
  said.filter fun t => verbose || t.1 != .debug

section Said

open Settings

variable {s : Settings} {source : Source}

theorem told_introduced (source : Source) :
    (Discovery.foundLog source ++ source.loadLog).map Event.told = source.introduced := by
  cases source <;> rfl

theorem getD_customOrder (s : Settings) : s.customOrder.getD [] = s.order.getD [] := by
  cases given : s.customOrder with
  | none => rw [getD_order_of_none given, Option.getD_none]
  | some order => rw [(customOrder_eq_some_iff.mp given).1]

theorem unknownNames_eq (s : Settings) : s.unknownNames = s.unknownListed := by
  rw [unknownNames, unknownListed, getD_customOrder]
  refine List.filter_congr fun name _ => ?_
  rw [Bool.eq_iff_iff, Option.isNone_iff_eq_none, decide_eq_true_iff]
  exact Category.ofName?_eq_none_iff

/-- Behind the remarks only what is never shown is said. -/
theorem told_showWeights (s : Settings) (format : Format) :
    ∃ traces, (showWeights s format).log.map Event.told = s.remarks ++ traces ∧
      ∀ t ∈ traces, t.1 = Level.trace := by
  refine ⟨if s.order.getD [] = [] then [] else
    (Category.configurable.filter fun c => !s.resolve.table.contains c).map fun c =>
      (.trace, "No configured weight for " ++ c.name), ?_, ?_⟩
  · have log : (showWeights s format).log =
        s.unknownNames.map .unknownName ++ s.resolve.log := rfl
    rw [log, List.map_append, told_log_resolve, unknownNames_eq, account, remarks, List.map_map]
    simp only [List.append_assoc]
    rfl
  · intro t said
    split at said
    · contradiction
    · obtain ⟨c, -, rfl⟩ := List.mem_map.mp said
      rfl

theorem told_filter_shows (verbose : Bool) (log : List Event) :
    (log.filter (Outcome.shows verbose)).map Event.told =
      shownOf verbose ((log.map Event.told).filter (·.1 ≠ Level.trace)) := by
  have visible : ∀ e : Event, Outcome.shows verbose e =
      ((verbose || e.told.1 != .debug) && decide (e.told.1 ≠ .trace)) := by
    intro e
    have levels : e.told.1 = e.level := rfl
    rw [Outcome.shows, levels]
    cases e.level <;> simp
  rw [shownOf, List.filter_filter, List.filter_map, List.filter_congr fun e _ => visible e]
  rfl

theorem level_introduced {t : Level × String} (said : t ∈ source.introduced) : t.1 ≠ .trace := by
  cases source with
  | explicit file => contradiction
  | project file | builtIn =>
    rw [List.mem_singleton.mp said]
    simp
  | global file =>
    simp only [Source.introduced, List.mem_cons, List.not_mem_nil, or_false] at said
    rcases said with rfl | rfl <;> simp

theorem level_remarks {t : Level × String} (said : t ∈ s.remarks) : t.1 ≠ .trace := by
  simp only [remarks, List.mem_append, List.mem_map] at said
  rcases said with (⟨name, -, rfl⟩ | exclusive) | ⟨name, -, rfl⟩
  · simp
  · split at exclusive
    · rw [List.mem_singleton.mp exclusive]
      simp
    · contradiction
  · simp

/-- What a run shows, of a log that says these things and then traces. -/
theorem told_shown {log : List Event} {said : List (Level × String)}
    (traces : List (Level × String)) (told : log.map Event.told = said ++ traces)
    (silent : ∀ t ∈ traces, t.1 = Level.trace) (spoken : ∀ t ∈ said, t.1 ≠ Level.trace) (verbose : Bool) :
    (log.filter (Outcome.shows verbose)).map Event.told = shownOf verbose said := by
  have kept : said.filter (·.1 ≠ Level.trace) = said :=
    List.filter_eq_self.mpr fun t member => decide_eq_true (spoken t member)
  have dropped : traces.filter (·.1 ≠ Level.trace) = [] :=
    List.filter_eq_nil_iff.mpr fun t member => by simp [silent t member]
  rw [told_filter_shows, told, List.filter_append, kept, dropped, List.append_nil]

end Said

section Runs

variable {env : Environment} {view : View} {args : List String}
  {verbose strict : Bool} {config : Option Path} {project : Path} {order : Option (List String)}
  {format : Format} {loaded : Settings} {e : LoadError}

/-- Of a run whose settings load, what is said of their source and of the settings in force. -/
theorem told_of_loads
    (read : Invocation.read args = .ok ⟨verbose, config, .weights project strict order format⟩)
    (loads : (Discovery.load view env project config).settings = .ok loaded) :
    (CommandLine.run env view args).log.map Event.told =
      shownOf verbose ((Discovery.load view env project config).source.introduced ++
        (loaded.override strict order).remarks) := by
  obtain ⟨traces, said, silent⟩ := told_showWeights (loaded.override strict order) format
  rw [run_of_read read loads]
  refine told_shown traces ?_ silent ?_ verbose
  · rw [List.map_append, log_load, told_introduced, said, List.append_assoc]
  · intro t member
    rcases List.mem_append.mp member with introduced | remark
    · exact level_introduced introduced
    · exact level_remarks remark

/-- Of a run whose settings do not load, what is said of their source, which is no warning. -/
theorem run_of_fails
    (read : Invocation.read args = .ok ⟨verbose, config, .weights project strict order format⟩)
    (fails : (Discovery.load view env project config).settings = .error e) :
    let o := CommandLine.run env view args
    o.code = 1 ∧ o.stdout = "" ∧ o.log.map Event.told =
      shownOf verbose (Discovery.load view env project config).source.introduced ∧
        ∀ event ∈ o.log, event.level ≠ .warn := by
  have ran : CommandLine.run env view args =
      { log := (Discovery.load view env project config).log.filter (Outcome.shows verbose),
        ending := .failed (.unloadable e) } := by
    simp only [CommandLine.run, read, Invocation.run, CommandLine.Command.run,
      Discovery.runWeights_eq_load, fails]
  rw [ran]
  refine ⟨rfl, rfl, told_shown [] ?_ (by simp) (fun _ => level_introduced) verbose,
    fun event member => ?_⟩
  · rw [log_load, told_introduced, List.append_nil]
  · have said := (List.mem_filter.mp member).1
    rw [log_load] at said
    exact level_ne_warn_of_mem said

/-- Whether a run is verbose changes neither how it ends nor what it prints. -/
theorem same_of_verbose {args' : List String} {verbose' : Bool} {command : CommandLine.Command}
    (read : Invocation.read args = .ok ⟨verbose, config, command⟩)
    (read' : Invocation.read args' = .ok ⟨verbose', config, command⟩) :
    let o := CommandLine.run env view args
    let o' := CommandLine.run env view args'
    o'.code = o.code ∧ o'.stdout = o.stdout := by
  simp only [CommandLine.run, read, read', Invocation.run]
  exact ⟨rfl, trivial⟩

theorem shows_of_mem_log {command : CommandLine.Command} {event : Event}
    (read : Invocation.read args = .ok ⟨verbose, config, command⟩)
    (told : event ∈ (CommandLine.run env view args).log) :
    event.level ≠ .trace ∧ (event.level = .debug → verbose = true) := by
  simp only [CommandLine.run, read, Invocation.run, List.mem_filter] at told
  have shown := told.2
  rw [Outcome.shows] at shown
  cases level : event.level <;> simp_all

theorem eventLine_eq (log : List Event) :
    log.map Outcome.eventLine = (log.map Event.told).map fun t => t.1.name ++ " " ++ t.2 := by
  rw [List.map_map]
  rfl

/-- A run that prints weights shows what there is to say of the source of its settings and then of
the settings in force, with the notes only if it is verbose. If the settings do not load it fails,
and warns of nothing. How it ends and what it prints does not depend on whether it is verbose,
and a switch in front can ask for that. -/
theorem weights_tells_remarks (tree : FileTree) (cwd : Location) (env : Environment)
    (args : List String) (verbose : Bool) (config : Option Path) (project : Path) (strict : Bool)
    (order : Option (List String)) (format : Format)
    (read : Invocation.read args = .ok ⟨verbose, config, .weights project strict order format⟩) :
    let loaded := Discovery.load (tree.view cwd) env project config
    let o := (tree.run cwd env args).1
    (∀ s, loaded.settings = .ok s →
      let inForce : Settings := { strict := s.strict || strict, order := order.or s.order }
      let told := shownOf verbose (loaded.source.introduced ++ inForce.remarks)
      o.code = 0 ∧ o.log.map Event.told = told ∧
        o.stderr = Report.lines (told.map fun t => t.1.name ++ " " ++ t.2)) ∧
    (∀ e, loaded.settings = .error e →
      o.code = 1 ∧ o.stdout = "" ∧ o.log.map Event.told = shownOf verbose loaded.source.introduced ∧
        ∀ event ∈ o.log, event.level ≠ .warn) ∧
    (∀ event ∈ o.log, event.level ≠ .trace ∧ (event.level = .debug → verbose = true)) ∧
    (∀ args' verbose',
      Invocation.read args' = .ok ⟨verbose', config, .weights project strict order format⟩ →
        let o' := (tree.run cwd env args').1
        o'.code = o.code ∧ o'.stdout = o.stdout) ∧
    (verbose = false →
      Invocation.read ("-v" :: args) = .ok ⟨true, config, .weights project strict order format⟩) := by
  intro loaded o
  have ran (args : List String) :
      (tree.run cwd env args).1 = CommandLine.run env (tree.view cwd) args :=
    outcome_eq (l := ⟨cwd, env, args⟩)
  have here : o = CommandLine.run env (tree.view cwd) args := ran args
  refine ⟨fun s loads => ?_, fun e fails => ?_, fun event told => ?_, ?_, ?_⟩
  · have told := told_of_loads read loads
    have done : o.ending = .done := by
      rw [here, run_of_read read loads]
      rfl
    rw [← here] at told
    refine ⟨by rw [Outcome.code, done], told, ?_⟩
    rw [Outcome.stderr, done, eventLine_eq, told]
    exact String.append_empty
  · have failed := run_of_fails read fails
    rwa [← here] at failed
  · rw [here] at told
    exact shows_of_mem_log read told
  · intro args' verbose' read'
    rw [here, ran args']
    exact same_of_verbose read read'
  · rintro rfl
    exact CommandLine.read_of_read_verbose read

/-- A verbose run by a settings file with an unknown name in two places, and a run by a file that
is not there. -/
theorem weights_tells_remarks_twice :
    let tree : FileTree := (FileTree.directory []).put ["class-order.toml"]
      (.file "strict=true\norder=['x','field','x']".toUTF8)
    let o := (tree.run [] {} ["weights", "-v"]).1
    let failed := (tree.run [] {} ["weights", "-cf"]).1
    (o.code = 0 ∧ o.log.map Event.told =
      [(.debug, "Found project config: ./class-order.toml"), (.warn, "Unknown category in order: x"),
        (.warn, "Unknown category in order: x"), (.warn, Warning.exclusiveOptions.message),
        (.debug, "Ignoring unknown category in custom order: x"),
        (.debug, "Ignoring unknown category in custom order: x")]) ∧
      failed.code = 1 ∧ failed.stdout = "" ∧ failed.log.map Event.told = [] := by
  intro tree o failed
  have parsed : Settings.parse "strict=true\norder=['x','field','x']" =
      .ok ⟨true, some ["x", "field", "x"]⟩ := Except.toOption_eq_some_iff.mp (by decide +kernel)
  have free : (FileTree.directory []).sightAt? ["class-order.toml"] = none := rfl
  have stands : (FileTree.directory []).sightAt? [] = some .directory := rfl
  obtain ⟨found, loads⟩ := load_put {} stands (by simp [free]) parsed
  have fails : (Discovery.load (tree.view []) {} (.ofString ".") (some (.ofString "f"))).settings =
      .error ⟨.ofString "f", .unreadable (.ofString "f") .missing⟩ := rfl
  have runs := (weights_tells_remarks tree [] {} ["weights", "-v"] true none (.ofString ".") false none
    .text rfl).1 _ loads
  have runs' := (weights_tells_remarks tree [] {} ["weights", "-cf"] false (some (.ofString "f"))
    (.ofString ".") false none .text rfl).2.1 _ fails
  refine ⟨⟨runs.1, runs.2.1.trans ?_⟩, runs'.1, runs'.2.1, runs'.2.2.1⟩
  rw [List.nil_append] at found
  rw [found]
  decide +kernel

end Runs

end MemberOrder
