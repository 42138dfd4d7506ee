import MemberOrder.Binary64

/-!
# Decimal text of a double

The text of a finite value has the fewest digits that read back as that value, and
of those the nearest. A style decides the rest: which of two equally near decimals
is taken, and which magnitudes are written with an exponent. Positional notation
has at least one digit behind the point.
-/

namespace MemberOrder.Binary64

structure Decimal where
  digits : Nat
  exponent : Int
  deriving DecidableEq, Repr

inductive Tie
  | greater
  /-- The one whose last digit is even. -/
  | even
  deriving DecidableEq, Repr

structure Style where
  tie : Tie
  /-- The powers of ten, both ends included, that a first digit may stand for in positional
  notation; any may if none are set. -/
  positional : Option (Int × Int)
  deriving DecidableEq, Repr

/-- The power of ten just above a positive ratio: `10 ^ (p - 1) ≤ num / den < 10 ^ p`. -/
def decimalMagnitude (num den : Nat) : Int :=
  if den ≤ num then (Nat.toDigits 10 (num / den)).length
  else
    let d := (Nat.toDigits 10 (den / num)).length
    if den = num * Nat.pow 10 (d - 1) then 2 - d else 1 - d

/-- `a / b ≤ c / d` for positive denominators. -/
def ratioLE (a b c d : Nat) : Bool :=
  a * d ≤ c * b

/-- The reals that round to `m * 2 ^ e`, by their quarters of a unit: from `4 * m` less half
a gap to `4 * m` and half a gap. Below a power of two the gap is half as wide. -/
def lowQuarters (m : Nat) (e : Int) : Nat :=
  if m = Nat.pow 2 52 ∧ minExponent < e then 4 * m - 1 else 4 * m - 2

/-- Whether a decimal reads back as `m * 2 ^ e`; the ends of the interval do if `m` is even. -/
def readsBack (m : Nat) (e : Int) (d : Decimal) : Bool :=
  let (num, den) : Nat × Nat :=
    if d.exponent < 0 then (d.digits, Nat.pow 10 d.exponent.natAbs)
    else (d.digits * Nat.pow 10 d.exponent.natAbs, 1)
  let (n, k) := scaled num den (e - 2)
  let low := lowQuarters m e
  let high := 4 * m + 2
  if m % 2 = 0 then ratioLE low 1 n k && ratioLE n k high 1
  else !ratioLE n k low 1 && !ratioLE high 1 n k

/-- Whether a value between two neighbours on a grid, `rest / den` of the way from `below`
digits to one more, counts as nearer to the one below. -/
def nearerBelow (tie : Tie) (below rest den : Nat) : Bool :=
  2 * rest < den || (2 * rest == den && tie == .even && below % 2 == 0)

/-- The nearest decimal with digits down to `10 ^ exponent` that reads back as the value. -/
def onGrid? (tie : Tie) (m : Nat) (e : Int) (exponent : Int) : Option Decimal :=
  let (num, den) := scaled m 1 (-e)
  let (n, d) : Nat × Nat :=
    if exponent < 0 then (num * Nat.pow 10 exponent.natAbs, den)
    else (num, den * Nat.pow 10 exponent.natAbs)
  let below : Decimal := ⟨n / d, exponent⟩
  let above : Decimal := ⟨n / d + 1, exponent⟩
  let (first, second) :=
    if nearerBelow tie (n / d) (n % d) d then (below, above) else (above, below)
  if readsBack m e first then some first
  else if readsBack m e second then some second
  else none

/-- The shortest decimal that reads back as the value: coarse grids are tried first, and
seventeen digits always suffice. -/
def shortest (tie : Tie) (m : Nat) (e : Int) : Decimal :=
  let (num, den) := scaled m 1 (-e)
  let magnitude := decimalMagnitude num den
  ((List.range 17).findSome? fun (n : Nat) =>
    onGrid? tie m e (magnitude - (n + 1))).getD ⟨m, e⟩

def Decimal.positional (d : Decimal) : String :=
  let digits := Nat.toDigits 10 d.digits
  if 0 ≤ d.exponent then
    String.ofList (digits ++ List.replicate d.exponent.natAbs '0') ++ ".0"
  else
    let places := d.exponent.natAbs
    let padded := List.replicate (places + 1 - digits.length) '0' ++ digits
    let whole := padded.take (padded.length - places)
    let fraction := padded.drop (padded.length - places)
    String.ofList whole ++ "." ++ String.ofList fraction

/-- The power of ten that the first digit stands for. -/
def Decimal.leadingPower (d : Decimal) : Int :=
  d.exponent + ((Nat.toDigits 10 d.digits).length - 1 : Nat)

/-- One digit in front of the point, and the power of ten that it stands for, with its sign.
There is no point behind a single digit. -/
def Decimal.scientific (d : Decimal) : String :=
  let mantissa :=
    match Nat.toDigits 10 d.digits with
    | first :: second :: rest => first :: '.' :: second :: rest
    | digits => digits
  let power := d.leadingPower
  String.ofList mantissa ++ (if power < 0 then "e-" else "e+") ++ toString power.natAbs

def Decimal.text (style : Style) (d : Decimal) : String :=
  match style.positional with
  | none => d.positional
  | some (low, high) =>
    if low ≤ d.leadingPower ∧ d.leadingPower ≤ high then d.positional else d.scientific

/-- Drops zeros at the end of the digits, into the exponent. -/
def Decimal.normalized (d : Decimal) : Decimal :=
  if h : d.digits ≠ 0 ∧ d.digits % 10 = 0 then
    Decimal.normalized ⟨d.digits / 10, d.exponent + 1⟩
  else d
termination_by d.digits
decreasing_by omega

def text (style : Style) : Binary64 → String
  | .finite negative m e =>
    let sign := if negative then "-" else ""
    sign ++ (if m = 0 then "0.0" else ((shortest style.tie m e).normalized).text style)
  | .infinite negative => if negative then "-inf" else "inf"
  | .nan => "NaN"

end MemberOrder.Binary64
