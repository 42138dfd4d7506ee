import MemberOrder.CommandLine.Switch

/-!
# Reading arguments

The arguments of a page are read from left to right. A value that stands in an
argument of its own is held back: it is settled, that is checked and entered, when
the next switch is accepted or the page ends, and an argument that is wrong in
itself is reported before it. A command ends the page and reads the arguments
behind it as its own, before anything held back on the first page is settled.
-/

namespace MemberOrder.CommandLine

inductive UsageError
  | unexpectedArgument (text : String)
  /-- A flag has a value attached. -/
  | unexpectedValue (value : String) (s : Switch)
  | missingValue (s : Switch)
  | repeated (s : Switch)
  | invalidValue (value : String) (s : Switch)
  | unknownCommand (text : String)
  | missingCommand
  | noArguments
  deriving DecidableEq, Repr

inductive Halt
  | help (page : Page) (long : Bool)
  | version
  | usage (e : UsageError)
  deriving DecidableEq, Repr

/-- The switches of a page read so far. -/
structure Progress where
  /-- Those settled, with their values, in order; a flag has none. -/
  given : List (Switch × Option String) := []
  /-- One held back, with its value once that is read. -/
  held : Option (Switch × Option String) := none
  deriving DecidableEq, Repr

/-- What a value has to be. -/
def Switch.check (s : Switch) (value : String) : Except Halt Unit :=
  match s with
  | .config | .project => if value = "" then throw (.usage (.missingValue s)) else pure ()
  | .format =>
    if value = "" then throw (.usage (.missingValue s))
    else if value = "text" ∨ value = "json" then pure ()
    else throw (.usage (.invalidValue value s))
  | _ => pure ()

namespace Progress

def isAwaiting (p : Progress) : Bool :=
  match p.held with
  | some (_, none) => true
  | _ => false

/-- Enters a switch. Only a repeatable one may be entered again. -/
def enter (p : Progress) (s : Switch) (value : Option String) : Except Halt Progress := do
  if !s.isRepeatable && p.given.any (·.1 == s) then throw (.usage (.repeated s))
  match value with
  | some v => s.check v
  | none => pure ()
  return { p with given := p.given ++ [(s, value)] }

def settle (p : Progress) : Except Halt Progress :=
  match p.held with
  | none => .ok p
  | some (s, none) => .error (.usage (.missingValue s))
  | some (s, some v) => { p with held := none }.enter s (some v)

/-- Accepts a flag. Help and the version stop the reading. -/
def flag (p : Progress) (page : Page) (s : Switch) (long : Bool) : Except Halt Progress := do
  let p ← p.settle
  match s with
  | .help => throw (.help page long)
  | .version => throw .version
  | _ => p.enter s none

def attached (p : Progress) (s : Switch) (value : String) : Except Halt Progress := do
  (← p.settle).enter s (some value)

def await (p : Progress) (s : Switch) : Except Halt Progress := do
  return { ← p.settle with held := some (s, none) }

def long (p : Progress) (page : Page) (name : String) (value : Option String) :
    Except Halt Progress :=
  match page.long? name with
  | none => .error (.usage (.unexpectedArgument ("--" ++ name)))
  | some s =>
    match s.placeholder?, value with
    | some _, some v => p.attached s v
    | some _, none => p.await s
    | none, some v => .error (.usage (.unexpectedValue v s))
    | none, none => p.flag page s true

/-- Reads a cluster of short switches. The first that takes a value takes the rest of the
cluster, less an equals sign in front. -/
def cluster (p : Progress) (page : Page) : List Char → Except Halt Progress
  | [] => .ok p
  | c :: rest =>
    match page.short? c with
    | none => .error (.usage (.unexpectedArgument (String.ofList ['-', c])))
    | some s =>
      if s.placeholder?.isSome then
        match rest with
        | [] => p.await s
        | '=' :: value => p.attached s (String.ofList value)
        | value => p.attached s (String.ofList value)
      else do (← p.flag page s false).cluster page rest

end Progress

/-- An argument that is no switch, no value and no command. -/
def Page.surplus (page : Page) (text : String) : UsageError :=
  if page = .top then .unknownCommand text else .unexpectedArgument text

/-- Behind a double dash nothing is a switch or a command any more. -/
def Page.afterDashes (page : Page) (text : String) : UsageError :=
  if (page.command? text).isSome then .unexpectedArgument text else page.surplus text

inductive Shape
  | dashes
  | long (name : String) (value : Option String)
  | cluster (flags : List Char)
  | plain
  deriving DecidableEq, Repr

def Shape.of (text : String) : Shape :=
  match text.toList with
  | ['-', '-'] => .dashes
  | '-' :: '-' :: rest =>
    let name := String.ofList (rest.takeWhile (· != '='))
    match rest.dropWhile (· != '=') with
    | _ :: value => .long name (some (String.ofList value))
    | [] => .long name none
  | '-' :: c :: rest => .cluster (c :: rest)
  | _ => .plain

def Page.read (page : Page) (p : Progress) :
    List String → Except Halt (Progress × Option (Page × List String))
  | [] => .ok (p, none)
  | text :: rest =>
    match (if p.isAwaiting then none else page.command? text) with
    | some command => .ok (p, some (command, rest))
    | none =>
      match Shape.of text with
      | .dashes =>
        match rest with
        | [] => .ok (p, none)
        | next :: _ => .error (.usage (page.afterDashes next))
      | .long name value => do Page.read page (← p.long page name value) rest
      | .cluster flags => do Page.read page (← p.cluster page flags) rest
      | .plain =>
        match p.held with
        | some (s, none) => Page.read page { p with held := some (s, some text) } rest
        | _ => .error (.usage (page.surplus text))

/-- The page that names lead to from the top. -/
def helpPage : Page → List String → Except Halt Page
  | page, [] => .ok page
  | page, name :: rest =>
    match page.command? name with
    | some next => helpPage next rest
    | none => .error (.usage (.unknownCommand name))

structure Arguments where
  top : List (Switch × Option String)
  command : Page
  own : List (Switch × Option String)
  deriving DecidableEq, Repr

def Arguments.read (args : List String) : Except Halt Arguments := do
  let (p, found) ← Page.top.read {} args
  match found with
  | some (.help, names) => throw (.help (← helpPage .top names) true)
  | some (command, rest) =>
    let (q, _) ← command.read {} rest
    let q ← q.settle
    let p ← p.settle
    return ⟨p.given, command, q.given⟩
  | none =>
    let p ← p.settle
    throw (.usage (if p.given.isEmpty then .noArguments else .missingCommand))

/-- The first line of the message; the hints that the program prints below it are left out. -/
def UsageError.message : UsageError → String
  | .unexpectedArgument text => "error: unexpected argument '" ++ text ++ "' found"
  | .unexpectedValue value s =>
    "error: unexpected value '" ++ value ++ "' for '" ++ s.usage ++
      "' found; no more were expected"
  | .missingValue s => "error: a value is required for '" ++ s.usage ++ "' but none was supplied"
  | .repeated s => "error: the argument '" ++ s.usage ++ "' cannot be used multiple times"
  | .invalidValue value s => "error: invalid value '" ++ value ++ "' for '" ++ s.usage ++ "'"
  | .unknownCommand text => "error: unrecognized subcommand '" ++ text ++ "'"
  | .missingCommand =>
    "error: 'class-order' requires a subcommand but one was not provided"
  | .noArguments => "CLI tool for inspecting class-order category weights"

end MemberOrder.CommandLine
