import MemberOrder.Binary64.Text
import MemberOrder.Json

/-!
# JSON text

One writer for both layouts: all on one line without blanks, or one item a line with
two blanks of indentation a level and a blank behind each colon. A double that is no
number has no text of its own and is written as null.
-/

namespace MemberOrder.Json

inductive Layout
  | compact
  | spread (level : Nat)
  deriving DecidableEq, Repr

namespace Layout

def deeper : Layout → Layout
  | compact => compact
  | spread level => spread (level + 1)

def lineBreak : Layout → List Char
  | compact => []
  | spread level => '\n' :: List.replicate (2 * level) ' '

def colon : Layout → List Char
  | compact => [':']
  | spread _ => [':', ' ']

end Layout

def hexPair (n : Nat) : List Char :=
  [Nat.digitChar (n / 16), Nat.digitChar (n % 16)]

/-- Quotes, backslashes and controls are escaped; all else stands for itself. -/
def escapeChar (c : Char) : List Char :=
  if c = '"' then ['\\', '"']
  else if c = '\\' then ['\\', '\\']
  else if c = '\n' then ['\\', 'n']
  else if c = '\r' then ['\\', 'r']
  else if c = '\t' then ['\\', 't']
  else if c.toNat = 8 then ['\\', 'b']
  else if c.toNat = 12 then ['\\', 'f']
  else if c.toNat < 0x20 then ['\\', 'u', '0', '0'] ++ hexPair c.toNat
  else [c]

def writeString (text : String) : List Char :=
  '"' :: text.toList.flatMap escapeChar ++ ['"']

/-- Doubles from `0.00001` up to below `10 ^ 16` are written positionally; a tie goes to the
even digit. -/
def floatStyle : Binary64.Style := ⟨.even, some (-5, 15)⟩

mutual

def write (layout : Layout) : Json → List Char
  | .null => ['n', 'u', 'l', 'l']
  | .boolean true => ['t', 'r', 'u', 'e']
  | .boolean false => ['f', 'a', 'l', 's', 'e']
  | .integer n => (toString n).toList
  | .float x => if x.isFinite then (x.text floatStyle).toList else ['n', 'u', 'l', 'l']
  | .string s => writeString s
  | .array [] => ['[', ']']
  | .array (v :: rest) =>
    '[' :: layout.deeper.lineBreak ++ write layout.deeper v ++ writeItems layout.deeper rest ++
      layout.lineBreak ++ [']']
  | .object [] => ['\x7b', '\x7d']
  | .object ((name, v) :: rest) =>
    '\x7b' :: layout.deeper.lineBreak ++ writeString name ++ layout.colon ++
      write layout.deeper v ++ writeMembers layout.deeper rest ++ layout.lineBreak ++ ['\x7d']

def writeItems (layout : Layout) : List Json → List Char
  | [] => []
  | v :: rest => ',' :: layout.lineBreak ++ write layout v ++ writeItems layout rest

def writeMembers (layout : Layout) : List (String × Json) → List Char
  | [] => []
  | (name, v) :: rest =>
    ',' :: layout.lineBreak ++ writeString name ++ layout.colon ++ write layout v ++
      writeMembers layout rest

end

def compact (v : Json) : String :=
  String.ofList (v.write .compact)

def pretty (v : Json) : String :=
  String.ofList (v.write (.spread 0))

end MemberOrder.Json
