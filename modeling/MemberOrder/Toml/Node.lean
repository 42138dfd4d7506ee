import MemberOrder.Form

/-!
# TOML nodes

A node is a value with the stretch of text it stands for. Places in a text are
counted as the bytes that are left behind them, so that a reader knows a place
from the rest it still has to read.
-/

namespace MemberOrder.Toml

/-- The bytes left at the first character of a stretch, and those left behind it. -/
structure Span where
  start : Nat
  stop : Nat
  deriving DecidableEq, Repr

def bytesLeft (s : List Char) : Nat :=
  s.foldl (fun n c => n + c.utf8Size) 0

/-- How a table came to be, which decides who may add to it. -/
inductive Origin
  /-- A header of its own; the table of the document counts as one. -/
  | header
  /-- A longer header names it on the way. -/
  | implied
  /-- A dotted key names it on the way. -/
  | dotted
  /-- Braces. -/
  | inline
  deriving DecidableEq, Repr

inductive Node
  | boolean (span : Span) (b : Bool)
  | integer (span : Span) (n : Int)
  | float (span : Span) (x : Binary64)
  | string (span : Span) (s : String)
  | dateTime (span : Span) (text : String)
  | array (span : Span) (items : List Node)
  /-- The entries stand as they were put there, which is their order of appearance but for an
  implied table that gets its own header later. A table without a header of its own has the span
  of the key that named it first. -/
  | table (span : Span) (origin : Origin) (entries : List (String × Node))
  /-- The tables of one repeated header, from the first to the last. -/
  | series (span : Span) (tables : List Node)

def Node.span : Node → Span
  | .boolean span _ | .integer span _ | .float span _ | .string span _ | .dateTime span _
  | .array span _ | .table span _ _ | .series span _ => span

/-- Doubles are written positionally, and a tie goes to the greater decimal. -/
def floatStyle : Binary64.Style := ⟨.greater, none⟩

instance : HasForm Node where
  form
    | .boolean _ b => .boolean b
    | .integer _ n => .integer n
    | .float _ x => .float x
    | .string _ s => .string s
    | .dateTime _ _ => .mapping
    | .array _ items => .sequence items
    | .table _ _ _ => .mapping
    | .series _ tables => .sequence tables
  floatStyle := floatStyle

structure Key where
  name : String
  span : Span
  deriving DecidableEq, Repr

end MemberOrder.Toml
