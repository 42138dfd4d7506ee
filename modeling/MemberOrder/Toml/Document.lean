import MemberOrder.Toml.Value

/-!
# TOML documents

A text is a list of statements, one a line: `key = value`, `[header]` or
`[[header]]`. The lines behind a header belong to its table. A document is the
table that the statements build.
-/

namespace MemberOrder.Toml

inductive HeaderKind
  | table
  /-- One more table of a repeated header. -/
  | element
  deriving DecidableEq, Repr

structure Header where
  kind : HeaderKind
  path : List Key
  key : Key
  span : Span

inductive Statement
  | line (l : Line)
  | header (h : Header)

def readLine (s : List Char) : Option (Line × List Char) :=
  match dottedKey s with
  | some (path, key, '=' :: rest) =>
    (value (skipBlanks rest)).map fun r => (⟨path, key, r.1⟩, r.2)
  | _ => none

def readHeader (s : List Char) : Option (Header × List Char) :=
  match s with
  | '[' :: '[' :: rest =>
    match dottedKey rest with
    | some (path, key, ']' :: ']' :: rest) =>
      some (⟨.element, path, key, bytesLeft s, bytesLeft rest⟩, rest)
    | _ => none
  | '[' :: rest =>
    match dottedKey rest with
    | some (path, key, ']' :: rest) =>
      some (⟨.table, path, key, bytesLeft s, bytesLeft rest⟩, rest)
    | _ => none
  | _ => none

def readStatement (s : List Char) : Option (Statement × List Char) :=
  match s with
  | '[' :: _ => (readHeader s).map fun r => (.header r.1, r.2)
  | s => (readLine s).map fun r => (.line r.1, r.2)

/-- The statements of a text. The bound counts the lines that may still be read; each takes
a character. -/
def statements : (bound : Nat) → List Char → Option (List Statement)
  | 0, _ => none
  | bound + 1, s =>
    match skipBlanks s with
    | [] => some []
    | s =>
      match lineEnd? s with
      | some rest => statements bound rest
      | none => do
        let (statement, rest) ← readStatement s
        let more ← statements bound (← lineEnd? rest)
        return statement :: more

/-- The lines in front of the first header, and each header with the lines behind it. -/
def sections : List Statement → List Line × List (Header × List Line)
  | [] => ([], [])
  | .line l :: rest =>
    let (own, below) := sections rest
    (l :: own, below)
  | .header h :: rest =>
    let (own, below) := sections rest
    ([], (h, own) :: below)

/-- Gives a header its table. One that a longer header implied keeps its entries, but is taken
from where it stood and put last. -/
def Node.enterTable (h : Header) (lines : List Line) : Node → Option Node
  | .table span origin entries => do
    let entries' ← match entries.lookup h.key.name with
      | none => some []
      | some (.table _ .implied held) => some held
      | some _ => none
    let table ← lines.foldlM Node.enterLine (.table h.span .header entries')
    return .table span origin (dropEntry h.key.name entries ++ [(h.key.name, table)])
  | _ => none

/-- Gives a repeated header one more table. -/
def Node.enterElement (h : Header) (lines : List Line) : Node → Option Node
  | .table span origin entries => do
    let table ← lines.foldlM Node.enterLine (.table h.span .header [])
    match entries.lookup h.key.name with
    | none => return .table span origin (entries ++ [(h.key.name, .series table.span [table])])
    | some (.series s tables) =>
      let longer := Node.series ⟨s.start, table.span.stop⟩ (tables ++ [table])
      return .table span origin (setEntry h.key.name longer entries)
    | some _ => none
  | _ => none

def Node.enterSection (root : Node) (s : Header × List Line) : Option Node :=
  match s.1.kind with
  | .table => root.within false (Node.enterTable s.1 s.2) s.1.path
  | .element => root.within false (Node.enterElement s.1 s.2) s.1.path

/-- One byte order mark at the front of a text is no part of it. -/
def skipByteOrderMark : List Char → List Char
  | c :: rest => if c.toNat = 0xfeff then rest else c :: rest
  | [] => []

structure Document where
  /-- The text up to the end of the last value in front of the first header. -/
  span : Span
  /-- The entries at top level, in the order in which they were put there. -/
  entries : List (String × Node)

def sections? (s : List Char) : Option (List Line × List (Header × List Line)) :=
  (statements (s.length + 1) (skipByteOrderMark s)).map sections

def Document.ofChars? (s : List Char) : Option Document := do
  let (lines, below) ← sections? s
  let top ← lines.foldlM Node.enterLine (.table ⟨bytesLeft s, bytesLeft s⟩ .header [])
  let root ← below.foldlM Node.enterSection top
  match root with
  | .table span _ entries => return ⟨span, entries⟩
  | _ => none

/-- The document that a text stands for, if it is well formed. -/
def Document.read? (text : String) : Option Document :=
  ofChars? text.toList

end MemberOrder.Toml
