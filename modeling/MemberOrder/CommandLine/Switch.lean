/-!
# Switches

The pages of the command line, that is the program and its commands, and the
switches that each of them takes. A switch with a placeholder takes a value.
-/

namespace MemberOrder.CommandLine

inductive Page
  | top
  | weights
  | categories
  | init
  | help
  deriving DecidableEq, Repr

namespace Page

def commands : List (String × Page) :=
  [("weights", weights), ("categories", categories), ("init", init), ("help", help)]

/-- The commands that may follow on a page. -/
def command? (page : Page) (name : String) : Option Page :=
  if page = top then commands.lookup name else none

end Page

inductive Switch
  | verbose
  | config
  | project
  | strict
  | order
  | format
  | force
  | help
  | version
  deriving DecidableEq, Repr

namespace Switch

def long : Switch → String
  | verbose => "verbose"
  | config => "config"
  | project => "project"
  | strict => "strict"
  | order => "order"
  | format => "format"
  | force => "force"
  | help => "help"
  | version => "version"

def short? : Switch → Option Char
  | verbose => some 'v'
  | config => some 'c'
  | format => some 'f'
  | help => some 'h'
  | version => some 'V'
  | project | strict | order | force => none

def placeholder? : Switch → Option String
  | config => some "CONFIG"
  | project => some "PROJECT"
  | order => some "ORDER"
  | format => some "FORMAT"
  | verbose | strict | force | help | version => none

/-- How messages show the switch. -/
def usage (s : Switch) : String :=
  "--" ++ s.long ++
    match s.placeholder? with
    | some placeholder => " <" ++ placeholder ++ ">"
    | none => ""

/-- A switch whose values add up may be given again. -/
def isRepeatable (s : Switch) : Bool :=
  s = order

end Switch

def Page.switches : Page → List Switch
  | .top => [.verbose, .config, .help, .version]
  | .weights => [.project, .verbose, .config, .strict, .order, .format, .help]
  | .categories => [.format, .verbose, .config, .help]
  | .init => [.force, .verbose, .config, .help]
  | .help => []

def Page.long? (page : Page) (name : String) : Option Switch :=
  page.switches.find? fun s => s.long == name

def Page.short? (page : Page) (c : Char) : Option Switch :=
  page.switches.find? fun s => s.short? == some c

end MemberOrder.CommandLine
