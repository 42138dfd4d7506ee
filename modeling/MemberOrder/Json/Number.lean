import MemberOrder.Json

/-!
# Numbers in JSON text

A number without fraction and exponent stays an integer if it fits 64 bits, with
or without sign. Every other number becomes a double in two roundings: the leading
digits that fit 64 bits are rounded, and then scaled by a power of ten.
-/

namespace MemberOrder.Json

def digitValue (c : Char) : Nat :=
  c.toNat - '0'.toNat

def digits (s : List Char) : List Nat × List Char :=
  ((s.takeWhile Char.isDigit).map digitValue, s.dropWhile Char.isDigit)

def ofDigits (ds : List Nat) : Nat :=
  ds.foldl (fun n d => n * 10 + d) 0

/-- A significand that fits 64 bits, with the power of ten that scales it. -/
structure Scaled where
  significand : Nat
  exponent : Int

namespace Scaled

/-- Takes digits before the point while they fit; the others only scale. -/
def whole : Scaled → List Nat → Scaled
  | s, [] => s
  | s, d :: rest =>
    if s.significand * 10 + d < UInt64.size then
      whole { s with significand := s.significand * 10 + d } rest
    else { s with exponent := s.exponent + (rest.length + 1) }

/-- Takes digits behind the point while they fit; the others are dropped. -/
def fraction : Scaled → List Nat → Scaled
  | s, [] => s
  | s, d :: rest =>
    if s.significand * 10 + d < UInt64.size then
      fraction ⟨s.significand * 10 + d, s.exponent - 1⟩ rest
    else s

end Scaled

/-- The double nearest to a power of ten up to `10 ^ 308`, by significand and exponent. -/
def powerOfTen (k : Nat) : Nat × Int :=
  match Binary64.ofDecimal false 1 k with
  | .finite _ m e => (m, e)
  | _ => (0, 0)

/-- Scales `m * 2 ^ e` by a power of ten up to `10 ^ 308` or down to `10 ^ -308`, rounding
once. There is no result beyond the largest double. -/
def scaleOnce (negative : Bool) (m : Nat) (e : Int) (exponent : Int) : Option Binary64 :=
  let power := powerOfTen exponent.natAbs
  if exponent < 0 then some (.divideRounded negative m e power.1 power.2)
  else match Binary64.multiplyRounded negative m e power.1 power.2 with
    | .infinite _ => none
    | y => some y

/-- Scales a double by any power of ten. Below `10 ^ -308` the power is reached in steps. -/
def scaleByTen (negative : Bool) (x : Binary64) (exponent : Int) : Option Binary64 :=
  match x with
  | .finite _ m e =>
    if m = 0 then some (.zero negative)
    else if 308 < exponent then none
    else if exponent < -308 then
      scaleByTen negative ((scaleOnce negative m e (-308)).getD .nan) (exponent + 308)
    else scaleOnce negative m e exponent
  | _ => none
termination_by (-exponent).toNat
decreasing_by omega

def exponentPart : List Char → Option (Option Int × List Char)
  | c :: rest =>
    if c = 'e' ∨ c = 'E' then
      let (negative, rest) : Bool × List Char := match rest with
        | '-' :: rest => (true, rest)
        | '+' :: rest => (false, rest)
        | rest => (false, rest)
      match digits rest with
      | ([], _) => none
      | (ds, rest) => some (some (if negative then -(ofDigits ds : Int) else ofDigits ds), rest)
    else some (none, c :: rest)
  | [] => some (none, [])

def fractionPart : List Char → Option (Option (List Nat) × List Char)
  | '.' :: rest =>
    match digits rest with
    | ([], _) => none
    | (ds, rest) => some (some ds, rest)
  | s => some (none, s)

/-- An integer of 64 bits, or the double nearest to it. Minus zero is a double. -/
def wholeNumber (negative : Bool) (ds : List Nat) : Option Json :=
  let n := ofDigits ds
  if negative then
    if n = 0 then some (.float (.zero true))
    else if Int64.minValue.toInt ≤ -n then some (.integer (-n))
    else (scaled ds)
  else if n < UInt64.size then some (.integer n)
  else scaled ds
where
  scaled (ds : List Nat) : Option Json :=
    let s := Scaled.whole ⟨0, 0⟩ ds
    (scaleByTen negative (.ofRatio negative s.significand 1) s.exponent).map .float

def number (s : List Char) : Option (Json × List Char) := do
  let (negative, s) : Bool × List Char := match s with
    | '-' :: rest => (true, rest)
    | s => (false, s)
  let (ds, s) := digits s
  if ds.isEmpty ∨ (ds.head? = some 0 ∧ 1 < ds.length) then none
  else
    let (fraction, s) ← fractionPart s
    let (exponent, s) ← exponentPart s
    if fraction.isNone ∧ exponent.isNone then
      return (← wholeNumber negative ds, s)
    else
      let t := (Scaled.whole ⟨0, 0⟩ ds).fraction (fraction.getD [])
      let x ← scaleByTen negative (.ofRatio negative t.significand 1)
        (t.exponent + exponent.getD 0)
      return (.float x, s)

end MemberOrder.Json
