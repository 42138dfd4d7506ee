import MemberOrder.Path
import MemberOrder.Settings

/-!
# Events

What the program reports while it works. An event is a fact about a run; its level
and its wording follow from it.
-/

namespace MemberOrder

inductive Level
  | trace
  | debug
  | info
  | warn
  deriving DecidableEq, Repr

def Level.name : Level → String
  | .trace => "TRACE"
  | .debug => "DEBUG"
  | .info => "INFO"
  | .warn => "WARN"

inductive Event
  /-- A settings file was found at or above the project directory. -/
  | foundProject (path : Path)
  | foundGlobal (path : Path)
  | usingDefaults
  | usingGlobal (path : Path)
  /-- The settings in force list a name of no category. -/
  | unknownName (name : String)
  | warning (w : Warning)
  /-- Resolution passes over a listed name of no category. -/
  | ignoredName (name : String)
  /-- No listed name places the category. -/
  | unplaced (c : Category)
  deriving DecidableEq, Repr

namespace Event

def level : Event → Level
  | foundProject _ | foundGlobal _ | usingDefaults | ignoredName _ => .debug
  | usingGlobal _ => .info
  | unknownName _ | warning _ => .warn
  | unplaced _ => .trace

def message : Event → String
  | foundProject path => "Found project config: " ++ path.toString
  | foundGlobal path => "Found global config: " ++ path.toString
  | usingDefaults => "No config file found, using defaults"
  | usingGlobal path => "Using global config: " ++ path.toString
  | unknownName name => "Unknown category in order: " ++ name
  | warning w => w.message
  | ignoredName name => "Ignoring unknown category in custom order: " ++ name
  | unplaced c => "No configured weight for " ++ c.name

end Event

end MemberOrder
