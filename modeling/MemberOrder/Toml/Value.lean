import MemberOrder.Toml.Number
import MemberOrder.Toml.Table

/-!
# TOML values

Keys and values, from the front of a text. Arrays may run over several lines;
an inline table stands on one. Keys of eighty parts and values nested eighty deep
are refused.
-/

namespace MemberOrder.Toml

/-- One less than the number of key parts and of nested brackets that is refused. -/
def depthLimit : Nat := 79

def isBareKeyChar (c : Char) : Bool :=
  ('a' ≤ c && c ≤ 'z') || ('A' ≤ c && c ≤ 'Z') || ('0' ≤ c && c ≤ '9') ||
    c == '-' || c == '_'

def simpleKey (s : List Char) : Option (Key × List Char) :=
  match s.takeWhile isBareKeyChar with
  | [] => (lineString s).map fun r => (⟨r.1, bytesLeft s, bytesLeft r.2⟩, r.2)
  | bare =>
    let rest := s.dropWhile isBareKeyChar
    some (⟨String.ofList bare, bytesLeft s, bytesLeft rest⟩, rest)

/-- The parts of a dotted key, at most so many, with blanks around each. -/
def keyParts : (limit : Nat) → List Char → Option (List Key × List Char)
  | 0, _ => none
  | limit + 1, s => do
    let (key, rest) ← simpleKey (skipBlanks s)
    match skipBlanks rest with
    | '.' :: rest => (keyParts limit rest).map fun r => (key :: r.1, r.2)
    | rest => some ([key], rest)

/-- A dotted key: the parts before the last, the last, and the rest of the text. -/
def dottedKey (s : List Char) : Option (List Key × Key × List Char) := do
  let (parts, rest) ← keyParts depthLimit s
  return (parts.dropLast, ← parts.getLast?, rest)

def numeral (s : List Char) : Option (Node × List Char) :=
  let spanTo (rest : List Char) : Span := ⟨bytesLeft s, bytesLeft rest⟩
  match dateTime s with
  | some rest =>
    some (.dateTime (spanTo rest) (String.ofList (s.take (s.length - rest.length))), rest)
  | none => match decimalFloat s with
    | some (x, rest) => some (.float (spanTo rest) x, rest)
    | none => match namedFloat s with
      | some (x, rest) => some (.float (spanTo rest) x, rest)
      | none => (integer s).map fun r => (.integer (spanTo r.2) r.1, r.2)

mutual

/-- The bound counts the readers that may still be entered; each takes a character first.
The depth counts the brackets that are open. -/
def readValue : (bound depth : Nat) → List Char → Option (Node × List Char)
  | 0, _, _ => none
  | bound + 1, depth, s =>
    match s with
    | '"' :: _ | '\x27' :: _ =>
      (anyString s).map fun r => (.string ⟨bytesLeft s, bytesLeft r.2⟩ r.1, r.2)
    | '[' :: rest =>
      if depth < depthLimit then
        (readItems bound (depth + 1) rest).map fun r =>
          (.array ⟨bytesLeft s, bytesLeft r.2⟩ r.1, r.2)
      else none
    | '\x7b' :: rest =>
      if depth < depthLimit then
        match skipBlanks rest with
        | '\x7d' :: rest => some (.table ⟨bytesLeft s, bytesLeft rest⟩ .inline [], rest)
        | rest => do
          let (lines, rest) ← readLines bound (depth + 1) rest
          let table ← lines.foldlM Node.enterLine (.table ⟨0, 0⟩ .inline [])
          match table with
          | .table _ _ entries =>
            return (.table ⟨bytesLeft s, bytesLeft rest⟩ .inline entries, rest)
          | _ => none
      else none
    | 't' :: 'r' :: 'u' :: 'e' :: rest =>
      some (.boolean ⟨bytesLeft s, bytesLeft rest⟩ true, rest)
    | 'f' :: 'a' :: 'l' :: 's' :: 'e' :: rest =>
      some (.boolean ⟨bytesLeft s, bytesLeft rest⟩ false, rest)
    | s => numeral s

def readItems : (bound depth : Nat) → List Char → Option (List Node × List Char)
  | 0, _, _ => none
  | bound + 1, depth, s =>
    match skipLayout false s with
    | ']' :: rest => some ([], rest)
    | s =>
      match readValue bound depth s with
      | none => none
      | some (v, rest) =>
        match skipLayout false rest with
        | ',' :: rest => (readItems bound depth rest).map fun r => (v :: r.1, r.2)
        | ']' :: rest => some ([v], rest)
        | _ => none

def readLines : (bound depth : Nat) → List Char → Option (List Line × List Char)
  | 0, _, _ => none
  | bound + 1, depth, s =>
    match dottedKey s with
    | some (path, key, '=' :: rest) =>
      match readValue bound depth (skipBlanks rest) with
      | none => none
      | some (value, rest) =>
        match skipBlanks rest with
        | ',' :: rest =>
          (readLines bound depth rest).map fun r => (⟨path, key, value⟩ :: r.1, r.2)
        | '\x7d' :: rest => some ([⟨path, key, value⟩], rest)
        | _ => none
    | _ => none

end

def value (s : List Char) : Option (Node × List Char) :=
  readValue (s.length + 1) 0 s

end MemberOrder.Toml
