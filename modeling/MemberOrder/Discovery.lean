import MemberOrder.Event
import MemberOrder.FileTree
import MemberOrder.Settings.Toml

/-!
# Finding and loading settings

A settings file is looked for in this order: the file that the user names; one of
the known names in the project directory or the nearest directory above it; the
file of the global directory. If there is none, the defaults hold. The directories
above are those that the text of the project path names.
-/

namespace MemberOrder

inductive Source
  | explicit (path : Path)
  | project (path : Path)
  | global (path : Path)
  | builtIn
  deriving DecidableEq, Repr

def Source.path? : Source → Option Path
  | explicit path | project path | global path => some path
  | builtIn => none

structure Environment where
  /-- The global directory, if the user has set one. -/
  configDirectory : Option Path := none
  home : Option Path := none
  deriving DecidableEq, Repr

namespace Discovery

def fileName : Path := .ofString "class-order.toml"

/-- The names a settings file may have, in order of priority. -/
def fileNames : List Path := [fileName, .ofString ".class-order.toml"]

def globalFileName : Path := .ofString "config.toml"

end Discovery

def Environment.globalDirectory (e : Environment) : Option Path :=
  e.configDirectory.or (e.home.map fun home => home.join (.ofString ".class-order"))

structure Discovery where
  source : Source
  log : List Event
  deriving DecidableEq, Repr

namespace Discovery

/-- The nearest settings file at or above a project directory. -/
def inAncestors? (isFile : Path → Bool) (project : Path) : Option Path :=
  project.ancestors.findSome? fun directory =>
    (fileNames.map directory.join).find? isFile

def find (isFile : Path → Bool) (globalDirectory : Option Path) (project : Path)
    (explicit : Option Path) : Discovery :=
  match explicit with
  | some path => ⟨.explicit path, []⟩
  | none =>
    match inAncestors? isFile project with
    | some found => ⟨.project found, [.foundProject found]⟩
    | none =>
      match (globalDirectory.map fun directory => directory.join globalFileName).filter isFile with
      | some found => ⟨.global found, [.foundGlobal found]⟩
      | none => ⟨.builtIn, []⟩

/-- Every path that finding settings may ask about, in order of priority. -/
def candidates (globalDirectory : Option Path) (project : Path) : List Path :=
  (project.ancestors.flatMap fun directory => fileNames.map directory.join) ++
    (globalDirectory.map fun directory => directory.join globalFileName).toList

end Discovery

inductive ReadError
  | missing
  | directory
  | notDirectory
  | notUnicode
  deriving DecidableEq, Repr

def ReadError.message : ReadError → String
  | .missing => "No such file or directory (os error 2)"
  | .directory => "Is a directory (os error 21)"
  | .notDirectory => "Not a directory (os error 20)"
  | .notUnicode => "stream did not contain valid UTF-8"

def Sight.text : Sight → Except ReadError String
  | .file content =>
    match String.fromUTF8? content with
    | some text => .ok text
    | none => .error .notUnicode
  | .directory => .error .directory
  | .missing => .error .missing
  | .notDirectory => .error .notDirectory

inductive FileError
  | unreadable (path : Path) (reason : ReadError)
  | unparsable (error : ParseError)

def FileError.message : FileError → String
  | .unreadable path reason =>
    "Failed to read config file " ++ path.toString ++ ": " ++ reason.message
  | .unparsable error => error.message

structure LoadError where
  path : Path
  cause : FileError

def LoadError.message (e : LoadError) : String :=
  "Failed to load config: " ++ e.path.toString

def Settings.ofFile (view : View) (path : Path) : Except FileError Settings :=
  match (view path).text with
  | .error reason => .error (.unreadable path reason)
  | .ok text => (Settings.parse text).mapError .unparsable

namespace Source

def loadLog : Source → List Event
  | builtIn => [.usingDefaults]
  | global path => [.usingGlobal path]
  | explicit _ | project _ => []

def load (view : View) (source : Source) : Except LoadError Settings :=
  match source.path? with
  | none => .ok {}
  | some path => (Settings.ofFile view path).mapError (⟨path, ·⟩)

end Source

end MemberOrder
