/-!
# Binary floating point

The double format as exact numbers: a finite value is a significand below `2 ^ 53`
times a power of two. Rounding takes a ratio of natural numbers to the nearest
value, a tie to the even significand, and to infinity beyond the largest one.
-/

namespace MemberOrder

inductive Binary64
  | finite (negative : Bool) (significand : Nat) (exponent : Int)
  | infinite (negative : Bool)
  | nan
  deriving DecidableEq, Repr

namespace Binary64

/-- The least exponent, that of the subnormal values. -/
def minExponent : Int := -1074

def maxExponent : Int := 971

def zero (negative : Bool) : Binary64 :=
  .finite negative 0 minExponent

/-- `num / den` scaled by `2 ^ -e`, as a ratio of natural numbers. -/
def scaled (num den : Nat) (e : Int) : Nat × Nat :=
  if e < 0 then (num * Nat.pow 2 e.natAbs, den) else (num, den * Nat.pow 2 e.natAbs)

/-- The nearest natural number to a ratio, a tie going to the even one. -/
def nearest (num den : Nat) : Nat :=
  let q := num / den
  let r := num % den
  if 2 * r < den then q
  else if 2 * r = den then q + q % 2
  else q + 1

/-- The exponent of the leading binary digit of a positive ratio. -/
def leading (num den : Nat) : Int :=
  let e : Int := num.log2 - den.log2
  let (n, d) := scaled num den e
  if n < d then e - 1 else e

/-- Rounds `num / den` to the nearest value, a tie to the even significand. -/
def ofRatio (negative : Bool) (num den : Nat) : Binary64 :=
  if num = 0 ∨ den = 0 then zero negative
  else
    let e := max (leading num den - 52) minExponent
    let (n, d) := scaled num den e
    let m := nearest n d
    let (m, e) := if m = Nat.pow 2 53 then (Nat.pow 2 52, e + 1) else (m, e)
    if maxExponent < e then .infinite negative else .finite negative m e

/-- The value nearest to `digits * 10 ^ exponent`. Exponents far out of range are settled
without computing the power. -/
def ofDecimal (negative : Bool) (digits : Nat) (exponent : Int) : Binary64 :=
  let magnitude : Int := (Nat.toDigits 10 digits).length + exponent
  if digits = 0 then zero negative
  else if 310 < magnitude then .infinite negative
  else if magnitude < -330 then zero negative
  else if exponent < 0 then ofRatio negative digits (Nat.pow 10 exponent.natAbs)
  else ofRatio negative (digits * Nat.pow 10 exponent.natAbs) 1

def isFinite : Binary64 → Bool
  | .finite _ _ _ => true
  | _ => false

def divideRounded (negative : Bool) (m : Nat) (e : Int) (n : Nat) (f : Int) : Binary64 :=
  let (num, den) := scaled m n (f - e)
  ofRatio negative num den

def multiplyRounded (negative : Bool) (m : Nat) (e : Int) (n : Nat) (f : Int) : Binary64 :=
  let (num, den) := scaled (m * n) 1 (-(e + f))
  ofRatio negative num den

end Binary64

end MemberOrder
