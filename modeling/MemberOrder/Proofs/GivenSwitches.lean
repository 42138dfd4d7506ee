import MemberOrder.CommandLine.Invocation

/-! Reading arguments behind switches that are already given. Every step of the reader only adds to
what is given, and looks at it for repetitions alone; so arguments that can be read by themselves
are read in the same way behind other switches, unless they repeat one of these. -/
namespace MemberOrder.CommandLine

variable {α β : Type} {front : Given} {p q : Progress} {page : Page} {s : Switch}
  {value : Option String} {args : List String} {found : Option (Page × List String)}

theorem exists_of_bind_eq_ok {x : Except Halt α} {f : α → Except Halt β} {b : β}
    (ran : x >>= f = .ok b) : ∃ a, x = .ok a ∧ f a = .ok b := by
  cases x with
  | error halt => contradiction
  | ok a => exact ⟨a, rfl, ran⟩

namespace Progress

def behind (front : Given) (p : Progress) : Progress :=
  { p with given := front ++ p.given }

def Apart (front : Given) (p : Progress) : Prop :=
  ∀ e ∈ p.given, e.1.isRepeatable = false → ∀ f ∈ front, f.1 ≠ e.1

/-- The step does the same behind the switches in front, as long as it ends apart from them. -/
def PassesBy (front : Given) (step : Progress → Except Halt Progress) : Prop :=
  ∀ p q, step p = .ok q → q.Apart front →
    step (p.behind front) = .ok (q.behind front) ∧ p.Apart front

theorem PassesBy.bind {f g : Progress → Except Halt Progress} (first : PassesBy front f)
    (second : PassesBy front g) : PassesBy front fun p => f p >>= g := by
  intro p q ran apart
  obtain ⟨r, ranFirst, ranSecond⟩ := exists_of_bind_eq_ok ran
  obtain ⟨again, apart⟩ := second r q ranSecond apart
  obtain ⟨before, apart⟩ := first p r ranFirst apart
  refine ⟨?_, apart⟩
  show f (p.behind front) >>= g = .ok (q.behind front)
  rw [before]
  exact again

theorem PassesBy.error (front : Given) (halt : Halt) : PassesBy front fun _ => .error halt := by
  intro p q ran
  contradiction

/-- A switch is entered unless it is repeated or its value is refused. -/
theorem enter_eq_ok_iff :
    p.enter s value = .ok q ↔
      (s.isRepeatable = false → ∀ e ∈ p.given, e.1 ≠ s) ∧ (∀ v ∈ value, s.check v = .ok ()) ∧
        q = { p with given := p.given ++ [(s, value)] } := by
  have repeated : (!s.isRepeatable && p.given.any (·.1 == s)) = true ↔
      ¬(s.isRepeatable = false → ∀ e ∈ p.given, e.1 ≠ s) := by
    simp
  unfold Progress.enter
  by_cases fresh : s.isRepeatable = false → ∀ e ∈ p.given, e.1 ≠ s
  · rw [if_neg (mt repeated.mp (not_not_intro fresh))]
    cases value with
    | none =>
      constructor
      · rintro ⟨⟩
        exact ⟨fresh, by simp, rfl⟩
      · rintro ⟨_, _, rfl⟩
        rfl
    | some v =>
      show (s.check v >>= fun _ => pure { p with given := p.given ++ [(s, some v)] }) = .ok q ↔ _
      constructor
      · intro entered
        obtain ⟨_, suits, entered⟩ := exists_of_bind_eq_ok entered
        exact ⟨fresh, by simp [suits], (Except.ok.inj entered).symm⟩
      · rintro ⟨_, suits, rfl⟩
        rw [suits v rfl]
        rfl
  · rw [if_pos (repeated.mpr fresh)]
    refine iff_of_false (fun entered => ?_) fun again => fresh again.1
    contradiction

theorem PassesBy.enter (front : Given) (s : Switch) (value : Option String) :
    PassesBy front fun p => p.enter s value := by
  intro p q entered apart
  obtain ⟨fresh, suits, rfl⟩ := enter_eq_ok_iff.mp entered
  refine ⟨enter_eq_ok_iff.mpr ⟨fun once e member => ?_, suits, ?_⟩, fun e member => ?_⟩
  · rcases List.mem_append.mp member with before | own
    · exact apart (s, value) (by simp) once e before
    · exact fresh once e own
  · simp [behind]
  · exact apart e (List.mem_append_left _ member)

theorem PassesBy.settle (front : Given) : PassesBy front settle := by
  intro p q settled apart
  unfold Progress.settle at settled ⊢
  have same : (p.behind front).held = p.held := rfl
  rw [same]
  cases held : p.held with
  | none =>
    rw [held] at settled
    obtain rfl := Except.ok.inj settled
    exact ⟨rfl, apart⟩
  | some pending =>
    obtain ⟨s, value⟩ := pending
    rw [held] at settled
    cases value with
    | none => contradiction
    | some v => exact PassesBy.enter front s (some v) _ q settled apart

theorem PassesBy.flag (front : Given) (page : Page) (s : Switch) (long : Bool) :
    PassesBy front fun p => p.flag page s long := by
  refine (PassesBy.settle front).bind ?_
  cases s with
  | help | version => exact .error front _
  | _ => exact .enter front _ none

theorem PassesBy.attached (front : Given) (s : Switch) (value : String) :
    PassesBy front fun p => p.attached s value :=
  (PassesBy.settle front).bind (.enter front s (some value))

theorem PassesBy.await (front : Given) (s : Switch) : PassesBy front fun p => p.await s := by
  refine (PassesBy.settle front).bind fun p q holds apart => ?_
  obtain rfl := Except.ok.inj holds
  exact ⟨rfl, apart⟩

theorem PassesBy.long (front : Given) (page : Page) (name : String) (value : Option String) :
    PassesBy front fun p => p.long page name value := by
  unfold Progress.long
  cases page.long? name with
  | none => exact .error front _
  | some s =>
    dsimp only
    cases s.placeholder? with
    | none =>
      cases value with
      | none => exact .flag front page s true
      | some v => exact .error front _
    | some placeholder =>
      cases value with
      | none => exact .await front s
      | some v => exact .attached front s v

theorem PassesBy.cluster (front : Given) (page : Page) (flags : List Char) :
    PassesBy front fun p => p.cluster page flags := by
  induction flags with
  | nil =>
    intro p q ended apart
    obtain rfl := Except.ok.inj ended
    exact ⟨rfl, apart⟩
  | cons c rest ih =>
    unfold Progress.cluster
    cases page.short? c with
    | none => exact .error front _
    | some s =>
      dsimp only
      split
      · split
        · exact .await front s
        · exact .attached front s _
        · exact .attached front s _
      · exact (PassesBy.flag front page s false).bind ih

end Progress

open Progress

/-- Arguments are read behind other switches as they are read alone. -/
theorem Page.read_behind (read : page.read p args = .ok (q, found)) (apart : q.Apart front) :
    page.read (p.behind front) args = .ok (q.behind front, found) ∧ p.Apart front := by
  induction args generalizing p with
  | nil =>
    obtain ⟨rfl, rfl⟩ := Prod.mk.inj (Except.ok.inj read)
    exact ⟨rfl, apart⟩
  | cons text rest ih =>
    have awaiting : (p.behind front).isAwaiting = p.isAwaiting := rfl
    have held : (p.behind front).held = p.held := rfl
    unfold Page.read at read ⊢
    rw [awaiting, held]
    cases command : if p.isAwaiting then none else page.command? text with
    | some next =>
      rw [command] at read
      obtain ⟨rfl, rfl⟩ := Prod.mk.inj (Except.ok.inj read)
      exact ⟨rfl, apart⟩
    | none =>
      rw [command] at read
      dsimp only at read ⊢
      cases shape : Shape.of text with
      | dashes =>
        rw [shape] at read
        cases rest with
        | nil =>
          obtain ⟨rfl, rfl⟩ := Prod.mk.inj (Except.ok.inj read)
          exact ⟨rfl, apart⟩
        | cons next rest => contradiction
      | long name value =>
        rw [shape] at read
        obtain ⟨r, step, further⟩ := exists_of_bind_eq_ok read
        obtain ⟨further, apart⟩ := ih further
        obtain ⟨step, apart⟩ := PassesBy.long front page name value p r step apart
        exact ⟨(congrArg (· >>= fun r => page.read r rest) step).trans further, apart⟩
      | cluster flags =>
        rw [shape] at read
        obtain ⟨r, step, further⟩ := exists_of_bind_eq_ok read
        obtain ⟨further, apart⟩ := ih further
        obtain ⟨step, apart⟩ := PassesBy.cluster front page flags p r step apart
        exact ⟨(congrArg (· >>= fun r => page.read r rest) step).trans further, apart⟩
      | plain =>
        rw [shape] at read
        dsimp only at read ⊢
        split at read
        · next s holds =>
          obtain ⟨further, apart⟩ := ih read
          exact ⟨further, apart⟩
        · contradiction

section Flags

variable {names : List String} {options : List String} {strict verbose : Bool} {config : Option Path}
  {project : Path} {format : Format} {i : Invocation} {g : Given} {text : String}

/-- Names without commas are found again between commas. -/
theorem names_intercalate (someName : names ≠ []) (parted : ∀ name ∈ names, ',' ∉ name.toList) :
    CommandLine.names (",".intercalate names) = names := by
  have glued : (",".intercalate names).toList = Text.glue ',' (names.map String.toList) := by
    rw [String.toList_intercalate, Text.glue_eq_intercalate]
    rfl
  have free : ∀ piece ∈ names.map String.toList, ',' ∉ piece := by
    intro piece member
    obtain ⟨name, listed, rfl⟩ := List.mem_map.mp member
    exact parted name listed
  rw [CommandLine.names, glued, Text.cut_glue (by simpa using someName) free, List.map_map]
  simp

/-- The flags that say what a settings file could say. -/
def flagArguments (names : List String) (strict : Bool) : List String :=
  ("--order=" ++ ",".intercalate names) :: if strict then ["--strict"] else []

def flagsGiven (names : List String) (strict : Bool) : Given :=
  (.order, some (",".intercalate names)) :: if strict then [(.strict, none)] else []

theorem shape_order (text : String) : Shape.of ("--order=" ++ text) = .long "order" (some text) := by
  have chars : ("--order=" ++ text).toList =
      '-' :: '-' :: 'o' :: 'r' :: 'd' :: 'e' :: 'r' :: '=' :: text.toList := by
    rw [String.toList_append]
    rfl
  rw [Shape.of, chars]
  simp

theorem Page.read_long {name : String} (settled : p.held = none) (noCommand : page.command? text = none)
    (long : Shape.of text = .long name value) (rest : List String) :
    page.read p (text :: rest) = p.long page name value >>= fun p => page.read p rest := by
  have free : p.isAwaiting = false := by rw [Progress.isAwaiting, settled]
  rw [Page.read.eq_def]
  simp [free, noCommand, long]

/-- The flags are given by the time the options are read. -/
theorem read_flagArguments (names : List String) (strict : Bool) (options : List String) :
    Page.weights.read {} (flagArguments names strict ++ options) =
      Page.weights.read (({} : Progress).behind (flagsGiven names strict)) options := by
  have order : ∀ rest, Page.weights.read {} (("--order=" ++ ",".intercalate names) :: rest) =
      Page.weights.read ⟨[(.order, some (",".intercalate names))], none⟩ rest :=
    Page.read_long rfl rfl (shape_order _)
  cases strict with
  | false => exact order options
  | true => exact order ("--strict" :: options)

/-- A command in front is read as such, and all behind it as the arguments of its page. -/
theorem read_weights_eq_ok_iff :
    Invocation.read ("weights" :: args) = .ok i ↔
      ∃ q found r, Page.weights.read {} args = .ok (q, found) ∧ q.settle = .ok r ∧
        (⟨[], .weights, r.given⟩ : Arguments).invocation = i := by
  have steps : Invocation.read ("weights" :: args) =
      (Page.weights.read {} args >>= fun r => r.1.settle >>= fun q =>
        pure (⟨[], .weights, q.given⟩ : Arguments)).map Arguments.invocation := rfl
  rw [steps]
  cases Page.weights.read {} args with
  | error halt => simp [Except.map, bind, Except.bind]
  | ok read =>
    obtain ⟨q, found⟩ := read
    cases settled : q.settle <;>
      simp [Except.map, bind, Except.bind, pure, Except.pure, settled]

namespace Given

theorem has_append (g h : Given) (s : Switch) : has (g ++ h) s = (has g s || has h s) :=
  List.any_append

theorem has_eq_false_iff : has g s = false ↔ ∀ e ∈ g, e.1 ≠ s := by
  simp [has]

theorem values_append (g h : Given) (s : Switch) : values (g ++ h) s = values g s ++ values h s :=
  List.filterMap_append

theorem values_eq_nil (missing : has g s = false) : values g s = [] :=
  List.filterMap_eq_nil_iff.mpr fun e member => if_neg (has_eq_false_iff.mp missing e member)

theorem has_flagsGiven (names : List String) (strict : Bool) (s : Switch) :
    has (flagsGiven names strict) s = (decide (s = .order) || strict && decide (s = .strict)) := by
  cases strict <;> cases s <;> rfl

theorem values_flagsGiven_order (names : List String) (strict : Bool) :
    values (flagsGiven names strict) .order = [",".intercalate names] := by
  cases strict <;> rfl

/-- A switch that is none of the flags has the value it had. -/
theorem value?_flagsGiven_append (g : Given) (other : has (flagsGiven names strict) s = false) :
    value? (flagsGiven names strict ++ g) s = value? g s := by
  rw [value?, values_append, values_eq_nil other]
  rfl

end Given

theorem orderOf_eq_none_iff : orderOf g = none ↔ Given.has g .order = false := by
  simp [orderOf]

theorem apart_flagsGiven (noStrict : Given.has p.given .strict = false) :
    p.Apart (flagsGiven names strict) := by
  intro e member once f front same
  have isFlag : Given.has (flagsGiven names strict) e.1 = true :=
    List.any_eq_true.mpr ⟨f, front, by simp [same]⟩
  have notOrder : e.1 ≠ .order := by
    simpa [Switch.isRepeatable] using once
  have isStrict : e.1 = .strict := by
    rw [Given.has_flagsGiven] at isFlag
    simp_all
  exact Given.has_eq_false_iff.mp noStrict e member isStrict

/-- The flags ask for the order and for strict mode, and leave all else as it is asked for. -/
theorem invocation_flagsGiven (someName : names ≠ []) (parted : ∀ name ∈ names, ',' ∉ name.toList)
    (asked : (⟨[], .weights, g⟩ : Arguments).invocation =
      ⟨verbose, config, .weights project false none format⟩) :
    (⟨[], .weights, flagsGiven names strict ++ g⟩ : Arguments).invocation =
      ⟨verbose, config, .weights project strict (some names) format⟩ := by
  obtain ⟨rfl, rfl, command⟩ := Invocation.mk.inj asked
  obtain ⟨rfl, noStrict, noOrder, rfl⟩ := Command.weights.inj command
  have order : orderOf (flagsGiven names strict ++ g) = some names := by
    rw [orderOf, Given.has_append, Given.has_flagsGiven, Given.values_append,
      Given.values_flagsGiven_order, Given.values_eq_nil (orderOf_eq_none_iff.mp noOrder)]
    simp [names_intercalate someName parted]
  simp [Arguments.invocation, commandOf, formatOf, order, Given.has_append, Given.has_flagsGiven,
    Given.value?_flagsGiven_append, noStrict]

/-- Arguments that give neither flag can be read behind both, and ask for the same otherwise. -/
theorem read_of_read_weights (strict : Bool) (someName : names ≠ [])
    (parted : ∀ name ∈ names, ',' ∉ name.toList)
    (read : Invocation.read ("weights" :: options) =
      .ok ⟨verbose, config, .weights project false none format⟩) :
    Invocation.read ("weights" :: (flagArguments names strict ++ options)) =
      .ok ⟨verbose, config, .weights project strict (some names) format⟩ := by
  obtain ⟨q, found, r, reads, settled, asked⟩ := read_weights_eq_ok_iff.mp read
  obtain ⟨_, _, command⟩ := Invocation.mk.inj asked
  have noStrict : Given.has r.given .strict = false := (Command.weights.inj command).2.1
  obtain ⟨settled, apart⟩ :=
    PassesBy.settle (flagsGiven names strict) q r settled (apart_flagsGiven noStrict)
  obtain ⟨reads, _⟩ := Page.read_behind reads apart
  rw [← read_flagArguments] at reads
  exact read_weights_eq_ok_iff.mpr
    ⟨_, found, _, reads, settled, invocation_flagsGiven someName parted asked⟩

end Flags

section Verbose

variable {a : Arguments} {config : Option Path} {c : Command}

/-- The stages in which arguments are read: those in front of the command, and its own. -/
theorem Arguments.read_eq_ok_iff :
    Arguments.read args = .ok a ↔
      ∃ p rest q more p' q', Page.top.read {} args = .ok (p, some (a.command, rest)) ∧
        a.command ≠ .help ∧ a.command.read {} rest = .ok (q, more) ∧ q.settle = .ok q' ∧
        p.settle = .ok p' ∧ a = ⟨p'.given, a.command, q'.given⟩ := by
  constructor
  · intro read
    obtain ⟨⟨p, found⟩, top, read⟩ := exists_of_bind_eq_ok read
    dsimp only at read
    split at read
    · obtain ⟨page, _, read⟩ := exists_of_bind_eq_ok read
      contradiction
    · next command rest noHelp =>
      obtain ⟨⟨q, more⟩, own, read⟩ := exists_of_bind_eq_ok read
      obtain ⟨q', settled, read⟩ := exists_of_bind_eq_ok read
      obtain ⟨p', settledTop, read⟩ := exists_of_bind_eq_ok read
      obtain rfl := Except.ok.inj read
      exact ⟨p, rest, q, more, p', q', top, noHelp, own, settled, settledTop, rfl⟩
    · obtain ⟨p', _, read⟩ := exists_of_bind_eq_ok read
      contradiction
  · rintro ⟨p, rest, q, more, p', q', top, noHelp, own, settled, settledTop, same⟩
    obtain ⟨given, command, ownGiven⟩ := a
    rw [same, Arguments.read]
    cases command with
    | help => exact absurd rfl noHelp
    | _ => simp [top, own, settled, settledTop, bind, Except.bind, pure, Except.pure]

/-- Arguments that do not ask for a verbose run can be read behind a switch that does. -/
theorem read_of_read_verbose (read : Invocation.read args = .ok ⟨false, config, c⟩) :
    Invocation.read ("-v" :: args) = .ok ⟨true, config, c⟩ := by
  have asks : ∃ a, Arguments.read args = .ok a ∧ a.invocation = ⟨false, config, c⟩ := by
    cases arguments : Arguments.read args with
    | error halt => simp [Invocation.read, arguments, Except.map] at read
    | ok a => exact ⟨a, rfl, by simpa [Invocation.read, arguments, Except.map] using read⟩
  obtain ⟨⟨given, command, ownGiven⟩, arguments, asked⟩ := asks
  obtain ⟨p, rest, q, more, p', q', top, noHelp, own, settled, settledTop, same⟩ :=
    Arguments.read_eq_ok_iff.mp arguments
  obtain ⟨rfl, -, rfl⟩ := Arguments.mk.inj same
  obtain ⟨quiet, rfl, rfl⟩ := Invocation.mk.inj asked
  rw [Bool.or_eq_false_iff] at quiet
  have apart : p'.Apart [(.verbose, none)] := by
    intro e member _ f front
    rw [List.mem_singleton.mp front]
    exact (Given.has_eq_false_iff.mp quiet.1 e member).symm
  obtain ⟨settledTop, apart⟩ := PassesBy.settle [(.verbose, none)] p p' settledTop apart
  obtain ⟨top, -⟩ := Page.read_behind top apart
  have first : Page.top.read {} ("-v" :: args) =
      Page.top.read (({} : Progress).behind [(.verbose, none)]) args := rfl
  rw [← first] at top
  have arguments : Arguments.read ("-v" :: args) =
      .ok ⟨(.verbose, none) :: p'.given, command, q'.given⟩ :=
    Arguments.read_eq_ok_iff.mpr
      ⟨_, rest, q, more, _, q', top, noHelp, own, settled, settledTop, rfl⟩
  rw [Invocation.read, arguments]
  rfl

end Verbose

end MemberOrder.CommandLine
