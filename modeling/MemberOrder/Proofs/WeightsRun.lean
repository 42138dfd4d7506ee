import MemberOrder.Proofs.SettingsLoading

/-! Runs that print weights. Once the settings load, such a run prints the table of the settings
in force, and warns of nothing before. -/
namespace MemberOrder

open CommandLine (Invocation showWeights)

variable {env : Environment} {view : View} {args : List String} {loaded : Settings}
  {strict verbose : Bool} {order : Option (List String)} {format : Format} {config : Option Path}
  {project : Path}

def Weighs (env : Environment) (view : View) (args : List String) (loaded : Settings)
    (strict : Bool) (order : Option (List String)) (format : Format) : Prop :=
  ∃ verbose config project,
    Invocation.read args = .ok ⟨verbose, config, .weights project strict order format⟩ ∧
      (Discovery.load view env project config).settings = .ok loaded

/-- The settings of a file that the user names are loaded. -/
theorem weighs_of_named {path : Path} {text : String}
    (read : Invocation.read args =
      .ok ⟨verbose, some path, .weights project strict order format⟩)
    (there : view path = .file text.toUTF8) (parsed : Settings.parse text = .ok loaded) :
    Weighs env view args loaded strict order format := by
  have loads : (Source.explicit path).load view = .ok loaded :=
    Discovery.load_of_yields rfl there (.settings rfl parsed)
  exact ⟨verbose, some path, project, read, loads⟩

theorem run_of_read
    (read : Invocation.read args = .ok ⟨verbose, config, .weights project strict order format⟩)
    (loads : (Discovery.load view env project config).settings = .ok loaded) :
    let shown := showWeights (loaded.override strict order) format
    let before := (Discovery.load view env project config).log
    CommandLine.run env view args =
      { shown with log := (before ++ shown.log).filter (Outcome.shows verbose) } := by
  simp only [CommandLine.run, read, Invocation.run, CommandLine.Command.run,
    Discovery.runWeights_eq_load, loads]

/-- Nothing that is said in finding and loading settings is a warning. -/
theorem level_ne_warn_of_mem {source : Source} {e : Event}
    (said : e ∈ Discovery.foundLog source ++ source.loadLog) : e.level ≠ .warn := by
  cases source with
  | explicit path => simp [Discovery.foundLog, Source.loadLog] at said
  | project path =>
    obtain rfl : e = .foundProject path := by
      simpa [Discovery.foundLog, Source.loadLog] using said
    simp [Event.level]
  | global path =>
    obtain rfl | rfl : e = .foundGlobal path ∨ e = .usingGlobal path := by
      simpa [Discovery.foundLog, Source.loadLog] using said
    all_goals simp [Event.level]
  | builtIn =>
    obtain rfl : e = .usingDefaults := by
      simpa [Discovery.foundLog, Source.loadLog] using said
    simp [Event.level]

/-- The source tells all that is said before the weights are looked at. -/
theorem log_load (view : View) (env : Environment) (project : Path) (config : Option Path) :
    (Discovery.load view env project config).log =
      Discovery.foundLog (Discovery.load view env project config).source ++
        (Discovery.load view env project config).source.loadLog := by
  have found := Discovery.find_eq_source_log (fun p => (view p).isFile) env.globalDirectory
    project config
  exact congrArg (· ++ _) (congrArg Discovery.log found)

/-- Warnings are shown whether or not the run is verbose. -/
theorem filter_warn_filter_shows (verbose : Bool) (log : List Event) :
    (log.filter (Outcome.shows verbose)).filter (·.level = .warn) =
      log.filter (·.level = .warn) := by
  rw [List.filter_filter]
  refine List.filter_congr fun e _ => ?_
  by_cases warns : e.level = .warn <;> simp [Outcome.shows, warns]

/-- A run that weighs succeeds, prints the table of the settings in force, and warns of what
these are warned of. -/
theorem run_of_weighs (weighs : Weighs env view args loaded strict order format) :
    let shown := showWeights (loaded.override strict order) format
    let o := CommandLine.run env view args
    o.code = 0 ∧ o.stdout = shown.stdout ∧
      o.log.filter (·.level = .warn) = shown.log.filter (·.level = .warn) := by
  obtain ⟨verbose, config, project, read, loads⟩ := weighs
  have before : (Discovery.load view env project config).log.filter (·.level = .warn) = [] :=
    List.filter_eq_nil_iff.mpr fun e said => by
      rw [log_load] at said
      simpa using level_ne_warn_of_mem said
  rw [run_of_read read loads]
  refine ⟨rfl, rfl, ?_⟩
  simp only [filter_warn_filter_shows, List.filter_append, before, List.nil_append]

end MemberOrder
