import MemberOrder.Text.Escapes
import MemberOrder.Toml.Scan

/-!
# TOML strings

Each of the four kinds of string has a reader that takes the characters up to the
closing quotes and leaves what follows them. In a block a carriage return stands
only before a line feed, and is dropped.
-/

namespace MemberOrder.Toml

open Text (hexValue? shortEscape?)

def codeLength? : Char → Option Nat
  | 'u' => some 4
  | 'U' => some 8
  | _ => none

/-- Surrogates and numbers beyond the last code point are no characters. -/
def scalar? (n : Nat) : Option Char :=
  if n.isValidChar then some (Char.ofNat n) else none

inductive LineState
  | plain
  | escape
  | code (missing : Nat) (value : Nat)

def lineChars : LineState → List Char → Option (List Char × List Char)
  | _, [] => none
  | .plain, c :: rest =>
    if c = '"' then some ([], rest)
    else if c = '\\' then lineChars .escape rest
    else if isTextChar c then (lineChars .plain rest).map fun r => (c :: r.1, r.2)
    else none
  | .escape, c :: rest =>
    match shortEscape? c with
    | some d => (lineChars .plain rest).map fun r => (d :: r.1, r.2)
    | none => match codeLength? c with
      | some n => lineChars (.code n 0) rest
      | none => none
  | .code missing value, c :: rest =>
    match hexValue? c with
    | none => none
    | some d =>
      if 1 < missing then lineChars (.code (missing - 1) (value * 16 + d)) rest
      else match scalar? (value * 16 + d) with
        | some e => (lineChars .plain rest).map fun r => (e :: r.1, r.2)
        | none => none

/-- A string between single apostrophes. -/
def literalChars : List Char → Option (List Char × List Char)
  | [] => none
  | c :: rest =>
    if c = '\x27' then some ([], rest)
    else if isTextChar c then (literalChars rest).map fun r => (c :: r.1, r.2)
    else none

/-- The end of a block, if it stands here: three quotes, in front of which one or two more
belong to the block. -/
def blockEnd? (quote : Char) (s : List Char) : Option (List Char × List Char) :=
  let run := min 5 (s.takeWhile (· == quote)).length
  if run < 3 then none else some (List.replicate (run - 3) quote, s.drop run)

/-- Where a reader of a block stands. Behind a backslash at the end of a line the blanks and
line ends are trimmed. -/
inductive BlockState
  | plain (trimming : Bool)
  | escape
  /-- Only blanks may stand between the backslash and the line end. -/
  | lineEnd
  | carriage (trimming : Bool)
  | code (missing : Nat) (value : Nat)

def blockChars : BlockState → List Char → Option (List Char × List Char)
  | _, [] => none
  | .plain trimming, c :: rest =>
    if c = '"' then
      match blockEnd? '"' (c :: rest) with
      | some r => some r
      | none => (blockChars (.plain false) rest).map fun r => (c :: r.1, r.2)
    else if c = '\\' then blockChars .escape rest
    else if c = '\r' then blockChars (.carriage trimming) rest
    else if c = '\n' then
      if trimming then blockChars (.plain true) rest
      else (blockChars (.plain false) rest).map fun r => (c :: r.1, r.2)
    else if isTextChar c then
      if trimming && isBlank c then blockChars (.plain true) rest
      else (blockChars (.plain false) rest).map fun r => (c :: r.1, r.2)
    else none
  | .carriage trimming, c :: rest =>
    if c = '\n' then
      if trimming then blockChars (.plain true) rest
      else (blockChars (.plain false) rest).map fun r => (c :: r.1, r.2)
    else none
  | .escape, c :: rest =>
    if c = '\n' then blockChars (.plain true) rest
    else if c = '\r' then blockChars (.carriage true) rest
    else if isBlank c then blockChars .lineEnd rest
    else match shortEscape? c with
      | some d => (blockChars (.plain false) rest).map fun r => (d :: r.1, r.2)
      | none => match codeLength? c with
        | some n => blockChars (.code n 0) rest
        | none => none
  | .lineEnd, c :: rest =>
    if c = '\n' then blockChars (.plain true) rest
    else if c = '\r' then blockChars (.carriage true) rest
    else if isBlank c then blockChars .lineEnd rest
    else none
  | .code missing value, c :: rest =>
    match hexValue? c with
    | none => none
    | some d =>
      if 1 < missing then blockChars (.code (missing - 1) (value * 16 + d)) rest
      else match scalar? (value * 16 + d) with
        | some e => (blockChars (.plain false) rest).map fun r => (e :: r.1, r.2)
        | none => none

/-- A block between triple apostrophes; `carriage` holds behind a carriage return. -/
def literalBlockChars : (carriage : Bool) → List Char → Option (List Char × List Char)
  | _, [] => none
  | true, c :: rest =>
    if c = '\n' then (literalBlockChars false rest).map fun r => (c :: r.1, r.2) else none
  | false, c :: rest =>
    if c = '\x27' then
      match blockEnd? '\x27' (c :: rest) with
      | some r => some r
      | none => (literalBlockChars false rest).map fun r => (c :: r.1, r.2)
    else if c = '\r' then literalBlockChars true rest
    else if c = '\n' ∨ isTextChar c then
      (literalBlockChars false rest).map fun r => (c :: r.1, r.2)
    else none

/-- A line end right behind the opening quotes of a block is dropped. -/
def skipFirstNewline (s : List Char) : List Char :=
  (newline? s).getD s

def lineString : List Char → Option (String × List Char)
  | '"' :: rest => (lineChars .plain rest).map fun r => (String.ofList r.1, r.2)
  | '\x27' :: rest => (literalChars rest).map fun r => (String.ofList r.1, r.2)
  | _ => none

def anyString : List Char → Option (String × List Char)
  | '"' :: '"' :: '"' :: rest =>
    (blockChars (.plain false) (skipFirstNewline rest)).map fun r => (String.ofList r.1, r.2)
  | '\x27' :: '\x27' :: '\x27' :: rest =>
    (literalBlockChars false (skipFirstNewline rest)).map fun r => (String.ofList r.1, r.2)
  | s => lineString s

end MemberOrder.Toml
