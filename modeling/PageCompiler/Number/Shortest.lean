import PageCompiler.Number.Binary64

/-!
# The shortest decimal of a floating-point number

The numbers that round to a given number of the format fill an interval around it. Among the
decimals in that interval those with the fewest digits are wanted, and of these the nearest. On the
grid of decimals with a given number of digits only the two neighbours of the number can be nearest,
so the search tries one digit, two digits, and so on; seventeen digits always suffice.

`DecimalLayout` says how the digits are laid out as a text.
-/

namespace PageCompiler

namespace Binary64

/-- The least `k`, from `k` on and within `fuel` steps, for which `units · 10 ^ k` is at least one.
-/
def leadingZeros (units : Nat) : (fuel k : Nat) → Nat
  | 0, k => k
  | fuel + 1, k => if one ≤ units * tenPow k then k else leadingZeros units fuel (k + 1)

/-- The power of ten of the first significant digit of a positive magnitude. -/
def leadingPower (units : Nat) : Int :=
  if one ≤ units then (Nat.toDigits 10 (units / one)).length - 1
  else -(leadingZeros units 400 0 : Nat)

/-- How far below a magnitude the interval that rounds to it reaches, in half units: half the
distance to the lower neighbour, which is nearer when the magnitude is a power of two. -/
def gapBelow (units : Nat) : Nat :=
  if units = twoPow units.log2 ∧ 1 < spacing units then spacing units / 2 else spacing units

/-- Whether `d · 10 ^ power` rounds to the given magnitude. -/
def rounds (units d : Nat) (power : Int) : Bool :=
  let scale := if 0 ≤ power then 1 else tenPow (-power).toNat
  let candidate := d * (if 0 ≤ power then one * tenPow power.toNat else one)
  let exact := units * scale
  let inclusive := (units / spacing units) % 2 == 0
  let (distance, gap) :=
    if exact ≤ candidate then (candidate - exact, spacing units)
    else (exact - candidate, gapBelow units)
  2 * distance < gap * scale || (inclusive && 2 * distance == gap * scale)

/-- The decimal with digits of the given power of ten that rounds to a magnitude and is nearest to
it, if there is one. -/
def nearestDecimal? (units : Nat) (power : Int) : Option Nat :=
  let num := units * (if 0 ≤ power then 1 else tenPow (-power).toNat)
  let den := one * (if 0 ≤ power then tenPow power.toNat else 1)
  let low := num / den
  let nearest := divNearest num den
  let other := if nearest = low then low + 1 else low
  if rounds units nearest power then some nearest
  else if rounds units other power then some other
  else none

/-- Tries grids of decimals with more and more digits. -/
def searchDecimal (units : Nat) : (fuel : Nat) → (power : Int) → Nat × Int
  | 0, power => (0, power)
  | fuel + 1, power =>
    match nearestDecimal? units power with
    | some d => (d, power)
    | none => searchDecimal units fuel (power - 1)

/-- The digits of a positive magnitude's shortest decimal, without zeros at the end, and the power
of ten of the place before the first digit. -/
def shortest (units : Nat) : Text × Int :=
  let (d, power) := searchDecimal units 20 (leadingPower units)
  let digits := Numeral.ofNat d
  ((digits.reverse.dropWhile (· == '0')).reverse, power + digits.length)

end Binary64

/-- How a floating-point number is laid out as a text. -/
structure DecimalLayout where
  infinity : Text
  notANumber : Text
  /-- Positional notation is used when the place of the point lies above this. -/
  above : Int
  /-- Positional notation is used when the place of the point is no greater than this. -/
  upTo : Int
  /-- The least number of digits of an exponent. -/
  exponentDigits : Nat

namespace DecimalLayout

/-- Digits with a point at the given place, and at least one digit on either side of it. -/
def positional (digits : Text) (point : Int) : Text :=
  if point ≤ 0 then "0." ++ List.replicate (-point).toNat '0' ++ digits
  else if digits.length ≤ point.toNat then
    digits ++ List.replicate (point.toNat - digits.length) '0' ++ ".0"
  else digits.take point.toNat ++ "." ++ digits.drop point.toNat

/-- Digits with a point after the first, when there are more, and a power of ten. -/
def scientific (layout : DecimalLayout) (digits : Text) (point : Int) : Text :=
  let power := point - 1
  let exponent := Numeral.ofNat power.natAbs
  let padded := List.replicate (layout.exponentDigits - exponent.length) '0' ++ exponent
  let mantissa := if digits.length ≤ 1 then digits else digits.take 1 ++ "." ++ digits.drop 1
  mantissa ++ ['e', if power < 0 then '-' else '+'] ++ padded

/-- A minus sign for negative numbers. -/
def sign (negative : Bool) : Text := if negative then ['-'] else []

/-- The text of a finite magnitude. -/
def magnitude (layout : DecimalLayout) (units : Nat) : Text :=
  if units = 0 then "0.0"
  else
    let (digits, point) := Binary64.shortest units
    if layout.above < point ∧ point ≤ layout.upTo then positional digits point
    else layout.scientific digits point

def write (layout : DecimalLayout) : Binary64 → Text
  | .nan => layout.notANumber
  | .infinite negative => sign negative ++ layout.infinity
  | .finite negative units => sign negative ++ layout.magnitude units

/-- Numbers in messages: positional from four zeros after the point up to sixteen digits before it,
and exponents of two digits at least. -/
def plain : DecimalLayout where
  infinity := "inf"
  notANumber := "nan"
  above := -4
  upTo := 16
  exponentDigits := 2

/-- Numbers in scripts: as in messages, except for the names of the numbers without digits. -/
def script : DecimalLayout := { plain with infinity := "Infinity", notANumber := "NaN" }

end DecimalLayout

end PageCompiler
