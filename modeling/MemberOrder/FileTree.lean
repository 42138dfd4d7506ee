import MemberOrder.Lookup
import MemberOrder.Path

/-!
# File trees

A tree of files and directories without links. A location is the list of names that
leads to a node from the root. A path is walked from the working directory: blank
pieces stay where they are, `..` goes up, and every step starts in a directory.
-/

namespace MemberOrder

inductive FileTree
  | file (content : ByteArray)
  | directory (entries : List (String × FileTree))

abbrev Location := List String

/-- What a file system answers about a path. -/
inductive Sight
  | file (content : ByteArray)
  | directory
  | missing
  /-- The path leads through a file. -/
  | notDirectory

def Sight.isFile : Sight → Bool
  | .file _ => true
  | _ => false

/-- All that a command sees of a file system. -/
abbrev View := Path → Sight

namespace FileTree

def child? (name : String) : FileTree → Option FileTree
  | file _ => none
  | directory entries => entries.lookup name

def at? : Location → FileTree → Option FileTree
  | [], tree => some tree
  | name :: rest, tree => (tree.child? name).bind (at? rest)

def sight : FileTree → Sight
  | file content => .file content
  | directory _ => .directory

/-- Puts a node at a location and makes the directories that lead to it. A file in the way
stays as it is. -/
def put : FileTree → Location → FileTree → FileTree
  | _, [], node => node
  | file content, _ :: _, _ => file content
  | directory entries, name :: rest, node =>
    let below := (entries.lookup name).getD (directory [])
    directory (setEntry name (below.put rest node) entries)

def walk (tree : FileTree) : Location → List (List Char) → Except Sight Location
  | here, [] => .ok here
  | here, piece :: rest =>
    match tree.at? here with
    | none => .error .missing
    | some (file _) => .error .notDirectory
    | some (directory _) =>
      if Path.blank piece then walk tree here rest
      else if piece = ['.', '.'] then walk tree here.dropLast rest
      else
        let there := here ++ [String.ofList piece]
        if (tree.at? there).isSome then walk tree there rest else .error .missing

/-- The location that a path names. The empty path names nothing. -/
def locate (tree : FileTree) (cwd : Location) (p : Path) : Except Sight Location :=
  if p.chars.isEmpty then .error .missing
  else tree.walk (if p.isAbsolute then [] else cwd) (Text.cut '/' p.chars)

def view (tree : FileTree) (cwd : Location) : View := fun p =>
  match tree.locate cwd p with
  | .error absence => absence
  | .ok location => ((tree.at? location).map sight).getD .missing

end FileTree

end MemberOrder
