import MemberOrder.CommandLine.Arguments
import MemberOrder.Path
import MemberOrder.Report
import MemberOrder.Text.Pieces

/-!
# Invocations

What the arguments ask for. The switches that every page takes count wherever they
stand, the later one where they carry a value.
-/

namespace MemberOrder.CommandLine

inductive Command
  | weights (project : Path) (strict : Bool) (order : Option (List String)) (format : Format)
  | categories (format : Format)
  | init (force : Bool)
  deriving DecidableEq, Repr

structure Invocation where
  verbose : Bool
  config : Option Path
  command : Command
  deriving DecidableEq, Repr

abbrev Given := List (Switch × Option String)

namespace Given

def has (g : Given) (s : Switch) : Bool :=
  g.any (·.1 == s)

def values (g : Given) (s : Switch) : List String :=
  g.filterMap fun e => if e.1 = s then e.2 else none

def value? (g : Given) (s : Switch) : Option String :=
  (values g s).getLast?

end Given

/-- The names of a list parted by commas; empty ones count. -/
def names (text : String) : List String :=
  (Text.cut ',' text.toList).map String.ofList

def formatOf (g : Given) : Format :=
  if g.value? .format = some "json" then .json else .text

/-- The names of all lists given, in order. -/
def orderOf (g : Given) : Option (List String) :=
  if g.has .order then some ((g.values .order).flatMap names) else none

def commandOf (page : Page) (g : Given) : Command :=
  match page with
  | .categories => .categories (formatOf g)
  | .init => .init (g.has .force)
  | _ =>
    .weights (.ofString ((g.value? .project).getD ".")) (g.has .strict) (orderOf g) (formatOf g)

def Arguments.invocation (a : Arguments) : Invocation where
  verbose := Given.has a.top .verbose || Given.has a.own .verbose
  config := ((Given.value? a.own .config).or (Given.value? a.top .config)).map Path.ofString
  command := commandOf a.command a.own

def Invocation.read (args : List String) : Except Halt Invocation :=
  (Arguments.read args).map Arguments.invocation

end MemberOrder.CommandLine
