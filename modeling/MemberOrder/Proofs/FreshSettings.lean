import MemberOrder.Proofs.FlagsAndFile
import MemberOrder.Proofs.SettingsLines
import MemberOrder.Proofs.WeightReports

/-! A working directory that has just been set up. The settings file written there is the first that
is looked for, and what it says is what holds without any settings; so weights are those of the
default table, whatever else is found in the tree. -/
namespace MemberOrder

open CommandLine (Invocation Requests template showWeights)

section Template

open Settings Toml

variable {front lines : List (List Char)} {flag : Option Bool} {order : Option (List String)}
  {b : Bool}

theorem Settings.Lists.behind (empty : front.all isFiller = true) (below : Lists lines flag order) :
    Lists (front ++ lines) flag order := by
  induction front with
  | nil => exact below
  | cons line front ih =>
    rw [List.all_cons, Bool.and_eq_true] at empty
    exact .filler empty.1 (ih empty.2)

/-- All lines but one hold nothing, and that one gives strict mode its value. -/
theorem Settings.lists_of_getElem? (key : String) (position : Nat)
    (named : key ∈ ["use_class_attributes_order_strict_mode", "strict"])
    (there : lines[position]? = some (assignment key (toString b).toList))
    (empty : (lines.eraseIdx position).all isFiller = true) : Lists lines (some b) none := by
  obtain ⟨inside, there⟩ := List.getElem?_eq_some_iff.mp there
  rw [List.eraseIdx_eq_take_drop_succ, List.all_append, Bool.and_eq_true] at empty
  have below : Lists (lines.drop (position + 1)) none none := by
    have nothing := Lists.nil.behind empty.2
    rwa [List.append_nil] at nothing
  rw [← List.take_append_drop position lines, List.drop_eq_getElem_cons inside, there]
  exact Lists.behind empty.1 (.strict b named below)

theorem Report.linesOf_lines (texts : List String) :
    LinesOf (texts.map String.toList) (Report.lines texts).toList := by
  induction texts with
  | nil => exact .none
  | cons text texts ih =>
    rw [toList_lines_cons]
    exact .lineFeed ih

/-- The settings file that is written lists nothing but strict mode, with its default. -/
theorem exists_lines_template :
    ∃ texts, template = Report.lines texts ∧ Lists (texts.map String.toList) (some false) none :=
  ⟨_, rfl, lists_of_getElem? "use_class_attributes_order_strict_mode" 4
    (by decide) (by decide +kernel) (by decide +kernel)⟩

theorem parse_template : Settings.parse template = .ok {} := by
  obtain ⟨texts, same, lists⟩ := exists_lines_template
  have parsed := lists.parse (Report.linesOf_lines texts)
  rwa [String.ofList_toList, ← same] at parsed

end Template

section Runs

variable {tree : FileTree} {cwd : Location} {env : Environment} {args : List String} {force : Bool}

/-- Setting up that succeeds leaves the settings file behind, where no directory stood. -/
theorem exists_put_of_init (stands : tree.sightAt? cwd = some .directory)
    (asked : Requests args (.init force)) (done : (tree.run cwd env args).1.code = 0) :
    tree.sightAt? (cwd ++ ["class-order.toml"]) ≠ some .directory ∧
      (tree.run cwd env args).2 = tree.put (cwd ++ ["class-order.toml"]) (.file template.toUTF8) := by
  have ran : (tree.run cwd env args).1 = CommandLine.run env (tree.view cwd) args :=
    outcome_eq (l := ⟨cwd, env, args⟩)
  have setsUp := setsUp_of_requests (l := ⟨cwd, env, args⟩) asked stands
  rw [ran] at done
  rcases setsUp.wrote_or_kept with ⟨_, wrote, free⟩ | ⟨failed, _⟩
  · rw [← ran] at wrote
    exact ⟨free, leaves_of_write_eq_some (l := ⟨cwd, env, args⟩) wrote⟩
  · rw [failed] at done
    contradiction

theorem showWeights_default (format : Format) :
    showWeights {} format = { stdout := Report.weights .default format } := rfl

/-- In a working directory that has just been set up, weights without further flags are those of
the default table, and nothing is said of them but where they come from. -/
theorem weights_of_init (tree : FileTree) (cwd : Location) (env env' : Environment)
    (args args' : List String) (force verbose : Bool) (format : Format)
    (stands : tree.sightAt? cwd = some .directory) (asked : Requests args (.init force))
    (done : (tree.run cwd env args).1.code = 0)
    (read : Invocation.read args' =
      .ok ⟨verbose, none, .weights (.ofString ".") false none format⟩) :
    let o := ((tree.run cwd env args).2.run cwd env' args').1
    o.code = 0 ∧ o.stdout = Report.weights .default format ∧
      (∀ e ∈ o.log, e.level ≠ .info ∧ e.level ≠ .warn) ∧
      o.log = if verbose then [.foundProject (.ofString "./class-order.toml")] else [] := by
  intro o
  obtain ⟨free, left⟩ := exists_put_of_init stands asked done
  obtain ⟨found, loads⟩ := load_put env' stands free parse_template
  rw [← left] at found loads
  have ran : o = CommandLine.run env' ((tree.run cwd env args).2.view cwd) args' :=
    outcome_eq (l := ⟨cwd, env', args'⟩)
  rw [run_of_read read loads, Settings.override_nothing, showWeights_default, log_load, found] at ran
  have log : o.log = if verbose then [.foundProject (.ofString "./class-order.toml")] else [] := by
    rw [ran]
    cases verbose <;> rfl
  refine ⟨by rw [ran]; rfl, by rw [ran], fun e told => ?_, log⟩
  rw [log] at told
  cases verbose with
  | false => simp at told
  | true =>
    obtain rfl := List.mem_singleton.mp told
    simp [Event.level]

/-- Beside the settings file that is set up stands one that is no TOML, strict mode is on in the
directory above, and the file of the global directory is no text. -/
theorem weights_of_init_surrounded :
    let tree : FileTree := .directory
      [("class-order.toml", .file "strict=true".toUTF8),
        ("global", .directory [("config.toml", .file ⟨#[255]⟩)]),
        ("w", .directory [(".class-order.toml", .file "strict".toUTF8)])]
    let env : Environment := { configDirectory := some (.ofString "/global") }
    let o := ((tree.run ["w"] env ["init"]).2.run ["w"] env ["weights", "-v", "--format=json"]).1
    (tree.run ["w"] env ["init"]).1.code = 0 ∧ o.code = 0 ∧
      o.stdout = Report.weights .default .json ∧ (∀ e ∈ o.log, e.level ≠ .info ∧ e.level ≠ .warn) ∧
      o.log = [.foundProject (.ofString "./class-order.toml")] := by
  intro tree env o
  have stands : tree.sightAt? ["w"] = some .directory := rfl
  have asked : Requests ["init"] (.init false) := ⟨⟨false, none, .init false⟩, rfl, rfl⟩
  have done : (tree.run ["w"] env ["init"]).1.code = 0 := by
    have frames := frames_of_directory (l := ⟨["w"], env, ["init"]⟩) stands
    exact (frames.fresh asked).1.mpr rfl
  exact ⟨done, weights_of_init tree ["w"] env env ["init"] ["weights", "-v", "--format=json"] false true
    .json stands asked done rfl⟩

end Runs

end MemberOrder
