/-!
# Blanks, comments and line ends

The layout of a TOML text. Within a line only spaces and tabs are blank. A comment
runs to the end of its line. A line ends with a line feed, alone or behind a carriage
return, or with the text; a carriage return by itself never ends a line.
-/

namespace MemberOrder.Toml

def isBlank (c : Char) : Bool :=
  c == ' ' || c == '\t'

/-- Characters of comments and strings: a tab, or no control character. -/
def isTextChar (c : Char) : Bool :=
  c == '\t' || (0x20 ≤ c.toNat && c.toNat != 0x7f)

def skipBlanks (s : List Char) : List Char :=
  s.dropWhile isBlank

def skipComment : List Char → List Char
  | '#' :: rest => rest.dropWhile isTextChar
  | s => s

def newline? : List Char → Option (List Char)
  | '\n' :: rest => some rest
  | '\r' :: '\n' :: rest => some rest
  | _ => none

/-- The next line, if only blanks and a comment are left of this one. -/
def lineEnd? (s : List Char) : Option (List Char) :=
  match skipComment (skipBlanks s) with
  | [] => some []
  | s => newline? s

def skipLayout : (inComment : Bool) → List Char → List Char
  | _, [] => []
  | _, '\n' :: rest => skipLayout false rest
  | _, '\r' :: '\n' :: rest => skipLayout false rest
  | true, c :: rest => if isTextChar c then skipLayout true rest else c :: rest
  | false, c :: rest =>
    if isBlank c then skipLayout false rest
    else if c = '#' then skipLayout true rest
    else c :: rest

end MemberOrder.Toml
