import MemberOrder.Json.Number
import MemberOrder.Text.Escapes

/-!
# Reading JSON

The grammar of RFC 8259 over the characters of a text. Each reader takes a value
from the front and leaves the rest.
-/

namespace MemberOrder.Json

open Text (hexValue?)

def isBlank (c : Char) : Bool :=
  c == ' ' || c == '\n' || c == '\t' || c == '\r'

def skipBlanks (s : List Char) : List Char :=
  s.dropWhile isBlank

/-- Where a reader of string characters stands. A high surrogate waits for the escape of
its low one. -/
inductive StringState
  | plain
  | pair (high : Nat)
  | escape (high : Option Nat)
  | unit (high : Option Nat) (missing : Nat) (value : Nat)

def StringState.afterUnit (high : Option Nat) (value : Nat) :
    Option (StringState × Option Char) :=
  match high with
  | some h =>
    if 0xDC00 ≤ value ∧ value < 0xE000 then
      some (plain, some (Char.ofNat (0x10000 + (h - 0xD800) * 0x400 + (value - 0xDC00))))
    else none
  | none =>
    if 0xD800 ≤ value ∧ value < 0xDC00 then some (pair value, none)
    else if 0xDC00 ≤ value ∧ value < 0xE000 then none
    else some (plain, some (Char.ofNat value))

/-- A slash may be escaped as well. -/
def shortEscape? (c : Char) : Option Char :=
  if c = '/' then some '/' else Text.shortEscape? c

def stringChars : StringState → List Char → Option (List Char × List Char)
  | _, [] => none
  | .plain, c :: rest =>
    if c = '"' then some ([], rest)
    else if c = '\\' then stringChars (.escape none) rest
    else if c.toNat < 0x20 then none
    else (stringChars .plain rest).map fun r => (c :: r.1, r.2)
  | .pair high, c :: rest =>
    if c = '\\' then stringChars (.escape (some high)) rest else none
  | .escape high, c :: rest =>
    if c = 'u' then stringChars (.unit high 4 0) rest
    else if high.isSome then none
    else match shortEscape? c with
      | some d => (stringChars .plain rest).map fun r => (d :: r.1, r.2)
      | none => none
  | .unit high missing value, c :: rest =>
    match hexValue? c with
    | none => none
    | some d =>
      if 1 < missing then stringChars (.unit high (missing - 1) (value * 16 + d)) rest
      else match StringState.afterUnit high (value * 16 + d) with
        | none => none
        | some (state, none) => stringChars state rest
        | some (state, some e) => (stringChars state rest).map fun r => (e :: r.1, r.2)

def readString (s : List Char) : Option (String × List Char) :=
  (stringChars .plain s).map fun r => (String.ofList r.1, r.2)

mutual

/-- The bound counts the readers that may still be entered; each takes a character first. -/
def readValue : Nat → List Char → Option (Json × List Char)
  | 0, _ => none
  | bound + 1, s =>
    match s with
    | 'n' :: 'u' :: 'l' :: 'l' :: rest => some (.null, rest)
    | 't' :: 'r' :: 'u' :: 'e' :: rest => some (.boolean true, rest)
    | 'f' :: 'a' :: 'l' :: 's' :: 'e' :: rest => some (.boolean false, rest)
    | '"' :: rest => (readString rest).map fun r => (.string r.1, r.2)
    | '[' :: rest =>
      match skipBlanks rest with
      | ']' :: rest => some (.array [], rest)
      | rest => (readItems bound rest).map fun r => (.array r.1, r.2)
    | '\x7b' :: rest =>
      match skipBlanks rest with
      | '\x7d' :: rest => some (.object [], rest)
      | rest => (readMembers bound rest).map fun r => (.object r.1, r.2)
    | s => number s

def readItems : Nat → List Char → Option (List Json × List Char)
  | 0, _ => none
  | bound + 1, s =>
    match readValue bound s with
    | none => none
    | some (v, rest) =>
      match skipBlanks rest with
      | ',' :: rest => (readItems bound (skipBlanks rest)).map fun r => (v :: r.1, r.2)
      | ']' :: rest => some ([v], rest)
      | _ => none

def readMembers : Nat → List Char → Option (List (String × Json) × List Char)
  | 0, _ => none
  | bound + 1, s =>
    match s with
    | '"' :: rest =>
      match readString rest with
      | none => none
      | some (name, rest) =>
        match skipBlanks rest with
        | ':' :: rest =>
          match readValue bound (skipBlanks rest) with
          | none => none
          | some (v, rest) =>
            match skipBlanks rest with
            | ',' :: rest =>
              (readMembers bound (skipBlanks rest)).map fun r => ((name, v) :: r.1, r.2)
            | '\x7d' :: rest => some ([(name, v)], rest)
            | _ => none
        | _ => none
    | _ => none

end

def read? (text : String) : Option Json :=
  let s := text.toList
  match readValue (s.length + 1) (skipBlanks s) with
  | some (v, rest) => if (skipBlanks rest).isEmpty then some v else none
  | none => none

end MemberOrder.Json
