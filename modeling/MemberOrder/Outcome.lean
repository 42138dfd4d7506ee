import MemberOrder.CommandLine.Help
import MemberOrder.CommandLine.Invocation
import MemberOrder.Discovery
import MemberOrder.Resolution

/-!
# Outcomes

A run of the program sees a file system and yields an outcome: what it prints, what
it reports, how it ends, and the one file that it may write, the settings file of the
working directory.
-/

namespace MemberOrder

inductive Failure
  | unloadable (e : LoadError)
  /-- There is a settings file, or something else of its name, and it was not to be replaced. -/
  | alreadyThere
  /-- The settings file cannot be written where a directory stands. -/
  | directoryInTheWay

namespace Failure

def message : Failure → String
  | unloadable e => e.message
  | alreadyThere =>
    "Configuration file already exists at " ++ Discovery.fileName.toString ++
      ". Use --force to overwrite."
  | directoryInTheWay => ReadError.directory.message

/-- What lies behind the failure, the immediate cause first. -/
def causes : Failure → List String
  | unloadable ⟨_, .unreadable path reason⟩ =>
    [(FileError.unreadable path reason).message, reason.message]
  | unloadable ⟨_, .unparsable e⟩ => [e.message]
  | alreadyThere | directoryInTheWay => []

/-- A cause with its first line behind a mark and further lines as far in. -/
def indented (mark : String) (width : Nat) (text : String) : List Char :=
  mark.toList ++
    text.toList.flatMap fun c => if c = '\n' then c :: List.replicate width ' ' else [c]

def causesText : List String → String
  | [] => ""
  | [cause] => "\nCaused by:\n" ++ String.ofList (indented "    " 4 cause) ++ "\n"
  | several =>
    "\nCaused by:\n" ++ Report.lines (several.zipIdx.map fun cause =>
      String.ofList (indented (Report.padLeft 5 (toString cause.2) ++ ": ") 7 cause.1))

def report (f : Failure) : String :=
  "Error: " ++ f.message ++ "\n" ++ causesText f.causes

end Failure

inductive Ending
  | done
  | failed (f : Failure)
  | refused (e : CommandLine.UsageError)

structure Outcome where
  stdout : String := ""
  /-- The events that are shown. -/
  log : List Event := []
  ending : Ending := .done
  /-- The content that the settings file of the working directory is to have. -/
  write : Option String := none

namespace Outcome

def code (o : Outcome) : UInt32 :=
  match o.ending with
  | .done => 0
  | .failed _ => 1
  | .refused _ => 2

/-- The program also prints the time in front, and fills the level up to five characters. -/
def eventLine (e : Event) : String :=
  e.level.name ++ " " ++ e.message

def stderr (o : Outcome) : String :=
  Report.lines (o.log.map eventLine) ++
    match o.ending with
    | .done => ""
    | .failed f => f.report
    | .refused .noArguments => CommandLine.Page.helpText .top false
    | .refused e => e.message ++ "\n"

/-- Events of level INFO and above are shown, and DEBUG in a verbose run. -/
def shows (verbose : Bool) (e : Event) : Bool :=
  match e.level with
  | .info | .warn => true
  | .debug => verbose
  | .trace => false

end Outcome

namespace CommandLine

def template : String :=
  Report.lines
    ["# class-order configuration",
      "",
      "# Give private variants (private_method, private_static_method, ...) a",
      "# weight of their own so they must follow their public siblings.",
      "use_class_attributes_order_strict_mode = false",
      "",
      "# Explicit category order. Takes precedence over strict mode when set.",
      "# Categories not listed inherit the position of their nearest listed",
      "# ancestor (e.g. __init__ -> magic_method -> method).",
      "# class_attributes_order = [",
      "#     \"nested_class\",",
      "#     \"field\",",
      "#     \"__new__\",",
      "#     \"__init__\",",
      "#     \"magic_method\",",
      "#     \"property_method\",",
      "#     \"static_method\",",
      "#     \"class_method\",",
      "#     \"method\",",
      "#     \"private_method\",",
      "# ]"]

def createdText : String :=
  Report.lines
    ["Created class-order.toml",
      "",
      "Next steps:",
      "  1. Edit class-order.toml to set the order",
      "  2. Run: class-order weights"]

def showWeights (s : Settings) (format : Format) : Outcome :=
  let resolved := s.resolve
  { stdout := Report.weights resolved.table format
    log := s.unknownNames.map .unknownName ++ resolved.log }

def runWeights (env : Environment) (view : View) (config : Option Path) (project : Path)
    (strict : Bool) (order : Option (List String)) (format : Format) : Outcome :=
  let found := Discovery.find (fun p => (view p).isFile) env.globalDirectory project config
  let before := found.log ++ found.source.loadLog
  match found.source.load view with
  | .error e => { log := before, ending := .failed (.unloadable e) }
  | .ok s =>
    let shown := showWeights (s.override strict order) format
    { shown with log := before ++ shown.log }

def runInit (view : View) (force : Bool) : Outcome :=
  match view Discovery.fileName, force with
  | .file _, false | .directory, false => { ending := .failed .alreadyThere }
  | .directory, true => { ending := .failed .directoryInTheWay }
  | _, _ => { stdout := createdText, write := some template }

def Command.run (env : Environment) (view : View) (config : Option Path) : Command → Outcome
  | .weights project strict order format =>
    runWeights env view config project strict order format
  | .categories format => { stdout := Report.categories format }
  | .init force => runInit view force

def Invocation.run (env : Environment) (view : View) (i : Invocation) : Outcome :=
  let o := i.command.run env view i.config
  { o with log := o.log.filter (Outcome.shows i.verbose) }

def Halt.outcome : Halt → Outcome
  | .help page long => { stdout := page.helpText long }
  | .version => { stdout := versionText }
  | .usage e => { ending := .refused e }

def run (env : Environment) (view : View) (args : List String) : Outcome :=
  match Invocation.read args with
  | .error halt => halt.outcome
  | .ok i => i.run env view

end CommandLine

/-- A run in a working directory of a tree, and the tree that it leaves. -/
def FileTree.run (tree : FileTree) (cwd : Location) (env : Environment) (args : List String) :
    Outcome × FileTree :=
  let o := CommandLine.run env (tree.view cwd) args
  match o.write with
  | none => (o, tree)
  | some content =>
    (o, tree.put (cwd ++ [Discovery.fileName.toString]) (.file content.toUTF8))

end MemberOrder
