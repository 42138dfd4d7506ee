import MemberOrder.Binary64
import MemberOrder.Toml.Text

/-!
# TOML numbers and times

Digits may be parted by single underscores. An integer fits 64 bits with sign; one
with a base has no sign of its own. A float has a fraction or an exponent, or is
named. Dates and times are checked by the calendar, and a minute may have a
sixty-first second.
-/

namespace MemberOrder.Toml

open Text (hexValue?)

/-- More digits of a number whose first one is read. An underscore needs a digit behind it. -/
def moreDigits (isDigit : Char → Bool) : List Char → Option (List Char × List Char)
  | [] => some ([], [])
  | '_' :: c :: rest =>
    if isDigit c then (moreDigits isDigit rest).map fun r => (c :: r.1, r.2) else none
  | c :: rest =>
    if c = '_' then none
    else if isDigit c then (moreDigits isDigit rest).map fun r => (c :: r.1, r.2)
    else some ([], c :: rest)

def someDigits (isDigit : Char → Bool) : List Char → Option (List Char × List Char)
  | c :: rest =>
    if isDigit c then (moreDigits isDigit rest).map fun r => (c :: r.1, r.2) else none
  | [] => none

/-- The whole part of a decimal number: without superfluous zeros. -/
def wholeDigits : List Char → Option (List Char × List Char)
  | '0' :: rest => some (['0'], rest)
  | s => someDigits Char.isDigit s

def ofDigits (base : Nat) (digits : List Char) : Nat :=
  digits.foldl (fun n c => n * base + (hexValue? c).getD 0) 0

def sign : List Char → Bool × List Char
  | '+' :: rest => (false, rest)
  | '-' :: rest => (true, rest)
  | s => (false, s)

def signed (negative : Bool) (n : Nat) : Int :=
  if negative then -n else n

def int64? (n : Int) : Option Int :=
  if Int64.minValue.toInt ≤ n ∧ n ≤ Int64.maxValue.toInt then some n else none

def isHexDigit (c : Char) : Bool :=
  (hexValue? c).isSome

def based (base : Nat) (isDigit : Char → Bool) (s : List Char) : Option (Int × List Char) := do
  let (digits, rest) ← someDigits isDigit s
  return (← int64? (ofDigits base digits), rest)

def integer : List Char → Option (Int × List Char)
  | '0' :: 'x' :: rest => based 16 isHexDigit rest
  | '0' :: 'o' :: rest => based 8 (fun c => '0' ≤ c && c ≤ '7') rest
  | '0' :: 'b' :: rest => based 2 (fun c => c == '0' || c == '1') rest
  | s => do
    let (negative, s) := sign s
    let (digits, rest) ← wholeDigits s
    return (← int64? (signed negative (ofDigits 10 digits)), rest)

def fraction : List Char → Option (Option (List Char) × List Char)
  | '.' :: rest => (someDigits Char.isDigit rest).map fun r => (some r.1, r.2)
  | s => some (none, s)

def exponent : List Char → Option (Option Int × List Char)
  | c :: rest =>
    if c = 'e' ∨ c = 'E' then
      let (negative, rest) := sign rest
      (someDigits Char.isDigit rest).map fun r =>
        (some (signed negative (ofDigits 10 r.1)), r.2)
    else some (none, c :: rest)
  | [] => some (none, [])

/-- The nearest double, which may not be positive infinity. -/
def nearestFloat? (negative : Bool) (digits : List Char) (exponent : Int) : Option Binary64 :=
  match Binary64.ofDecimal negative (ofDigits 10 digits) exponent with
  | .infinite false => none
  | x => some x

def decimalFloat (s : List Char) : Option (Binary64 × List Char) := do
  let (negative, s) := sign s
  let (whole, s) ← wholeDigits s
  let (places, s) ← fraction s
  let (scale, s) ← exponent s
  if places.isNone ∧ scale.isNone then none
  else
    let places := places.getD []
    return (← nearestFloat? negative (whole ++ places) (scale.getD 0 - places.length), s)

def namedFloat (s : List Char) : Option (Binary64 × List Char) :=
  match sign s with
  | (negative, 'i' :: 'n' :: 'f' :: rest) => some (.infinite negative, rest)
  | (_, 'n' :: 'a' :: 'n' :: rest) => some (.nan, rest)
  | _ => none

def fixedDigits (count low high : Nat) (s : List Char) : Option (Nat × List Char) :=
  let digits := s.take count
  if digits.length = count ∧ digits.all Char.isDigit then
    let n := ofDigits 10 digits
    if low ≤ n ∧ n ≤ high then some (n, s.drop count) else none
  else none

def char? (c : Char) : List Char → Option (List Char)
  | d :: rest => if d = c then some rest else none
  | [] => none

def isLeapYear (year : Nat) : Bool :=
  year % 4 == 0 && (year % 100 != 0 || year % 400 == 0)

def daysIn (year month : Nat) : Nat :=
  if month = 2 then (if isLeapYear year then 29 else 28)
  else if month = 4 ∨ month = 6 ∨ month = 9 ∨ month = 11 then 30
  else 31

def date (s : List Char) : Option (List Char) := do
  let (year, s) ← fixedDigits 4 0 9999 s
  let s ← char? '-' s
  let (month, s) ← fixedDigits 2 1 12 s
  let s ← char? '-' s
  let (_, s) ← fixedDigits 2 1 (daysIn year month) s
  return s

def time (s : List Char) : Option (List Char) := do
  let (_, s) ← fixedDigits 2 0 23 s
  let s ← char? ':' s
  let (_, s) ← fixedDigits 2 0 59 s
  let s ← char? ':' s
  let (_, s) ← fixedDigits 2 0 60 s
  match s with
  | '.' :: c :: rest => if c.isDigit then some (rest.dropWhile Char.isDigit) else some s
  | s => some s

def offset (s : List Char) : List Char :=
  match s with
  | c :: rest =>
    if c = 'Z' ∨ c = 'z' then rest
    else if c = '+' ∨ c = '-' then
      let past : Option (List Char) := do
        let (_, s) ← fixedDigits 2 0 23 rest
        let s ← char? ':' s
        let (_, s) ← fixedDigits 2 0 59 s
        return s
      past.getD s
    else s
  | [] => []

/-- Reads past a date, with a time behind it if one stands there, or past a time. -/
def dateTime (s : List Char) : Option (List Char) :=
  match date s with
  | some rest =>
    match rest with
    | c :: more =>
      if c = 'T' ∨ c = 't' ∨ c = ' ' then
        match time more with
        | some rest => some (offset rest)
        | none => some rest
      else some rest
    | [] => some []
  | none => time s

end MemberOrder.Toml
