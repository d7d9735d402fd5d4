import PageCompiler.Number.Numeral

/-!
# Binary floating-point numbers

A binary floating-point number of 64 bits is a NaN, an infinity, or a signed whole number of units,
where a unit is the least positive number of the format, `2 ^ -1074`. Counting in units makes order
and equality, also against integers, questions about whole numbers.

Not every whole number of units is a number of the format, only those with at most 53 significant
bits. `roundRatio` gives the nearest of them, and on a tie the one whose last bit is zero.
-/

namespace PageCompiler

/-- A binary floating-point number of 64 bits. A magnitude counts units of `2 ^ -1074`. -/
inductive Binary64 where
  | nan
  | infinite (negative : Bool)
  /-- A finite number: its sign and its magnitude in units. Zero has a sign too. -/
  | finite (negative : Bool) (units : Nat)
  deriving DecidableEq, Repr

namespace Binary64

def twoPow (n : Nat) : Nat := Nat.pow 2 n

def tenPow (n : Nat) : Nat := Nat.pow 10 n

/-- The number one, in units. -/
def one : Nat := twoPow 1074

/-- The least magnitude above every finite number, in units. -/
def limit : Nat := twoPow 2098

/-- The distance between neighbouring magnitudes from the power of two below `units` on. -/
def spacing (units : Nat) : Nat := twoPow (units.log2 - 52)

/-- A quotient rounded to the nearest whole number, a tie going to the even one. -/
def divNearest (num den : Nat) : Nat :=
  let quotient := num / den
  let twice := 2 * (num % den)
  if twice < den then quotient
  else if den < twice then quotient + 1
  else quotient + quotient % 2

/-- The magnitude of the format nearest to a quotient of units. -/
def roundRatio (num den : Nat) : Nat :=
  let step := spacing (num / den)
  step * divNearest num (den * step)

/-- The number of the format nearest to a quotient; too large a quotient becomes infinite. -/
def ofRatio (negative : Bool) (num den : Nat) : Binary64 :=
  let units := roundRatio (num * one) den
  if units < limit then .finite negative units else .infinite negative

/-- The number of the format nearest to an integer, unless the integer is too large. -/
def ofInt? (i : Int) : Option Binary64 :=
  let units := roundRatio (i.natAbs * one) 1
  if units < limit then some (.finite (i < 0) units) else none

/-- Positive zero. -/
def zero : Binary64 := .finite false 0

/-- A finite number in units, with its sign. -/
def signedUnits (negative : Bool) (units : Nat) : Int := if negative then -(units : Int) else units

/-! ## Comparison -/

/-- A place on the extended line: first below, on or above the finite numbers, then the signed
units. A NaN has no place. -/
def place? : Binary64 → Option (Int × Int)
  | .nan => none
  | .infinite negative => some (if negative then -1 else 1, 0)
  | .finite negative units => some (0, signedUnits negative units)

/-- Equality of numbers: a NaN equals nothing, and the two zeros are equal. -/
def equals (a b : Binary64) : Bool :=
  match a.place?, b.place? with
  | some p, some q => p == q
  | _, _ => false

/-- Whether one number is less than another. A NaN is not comparable. -/
def less (a b : Binary64) : Bool :=
  match a.place?, b.place? with
  | some (i, m), some (j, n) => i < j || (i == j && m < n)
  | _, _ => false

/-- Whether one number is less than or equal to another. A NaN is not comparable. -/
def lessOrEqual (a b : Binary64) : Bool := less a b || equals a b

/-- Whether a number equals an integer exactly. -/
def equalsInt (a : Binary64) (i : Int) : Bool :=
  match a with
  | .finite negative units => signedUnits negative units == i * one
  | _ => false

/-- Whether a number is a zero of either sign. -/
def isZero : Binary64 → Bool
  | .finite _ units => units == 0
  | _ => false

def isNaN : Binary64 → Bool
  | .nan => true
  | _ => false

/-! ## Reading -/

/-- The number nearest to `digits · 10 ^ exponent`. Exponents far outside the range of the format
are decided by the number of digits alone. -/
def ofDecimal (negative : Bool) (digits : List Nat) (exponent : Int) : Binary64 :=
  let significant := digits.dropWhile (· == 0)
  let size : Int := significant.length + exponent
  if significant.isEmpty then .finite negative 0
  else if 400 < size then .infinite negative
  else if size < -400 then .finite negative 0
  else
    let n := Numeral.valueOf significant
    if 0 ≤ exponent then ofRatio negative (n * tenPow exponent.toNat) 1
    else ofRatio negative n (tenPow (-exponent).toNat)

/-- Whether every underscore of a text stands between two digits. -/
def underscoresSeparate : (previous : Bool) → Text → Bool
  | _, [] => true
  | previous, '_' :: rest =>
    previous && (rest.head?.any isDecimalDigit) && underscoresSeparate false rest
  | _, c :: rest => underscoresSeparate (isDecimalDigit c) rest

/-- The exponent at the end of a decimal: nothing, or a mark, an optional sign and digits. -/
def exponent? : Text → Option Int
  | [] => some 0
  | mark :: rest =>
    if mark = 'e' ∨ mark = 'E' then
      let (negative, digits) :=
        match rest with
        | '-' :: ds => (true, ds)
        | '+' :: ds => (false, ds)
        | ds => (false, ds)
      if digits.isEmpty || !digits.all isDecimalDigit then none
      else
        let n : Int := Numeral.valueOf (Numeral.digitValues digits)
        some (if negative then -n else n)
    else none

/-- A decimal without a sign: digits with an optional point among them, at least one digit, and an
optional exponent. -/
def unsigned? (negative : Bool) (t : Text) : Option Binary64 :=
  let whole := t.takeWhile isDecimalDigit
  let (fraction, rest) :=
    match t.dropWhile isDecimalDigit with
    | '.' :: more => (more.takeWhile isDecimalDigit, more.dropWhile isDecimalDigit)
    | more => ([], more)
  if whole.isEmpty && fraction.isEmpty then none
  else
    (exponent? rest).map fun e ↦
      ofDecimal negative (Numeral.digitValues (whole ++ fraction)) (e - fraction.length)

/-- The names of the numbers that have no digits, in small letters. -/
def named? (negative : Bool) (t : Text) : Option Binary64 :=
  let name := t.map Char.toLower
  if name = ("inf" : Text) ∨ name = ("infinity" : Text) then some (.infinite negative)
  else if name = ("nan" : Text) then some .nan
  else none

/-- The number a text without blanks around it stands for: an optional sign, then a decimal or the
name of an infinity or a NaN. Single underscores may stand between digits. -/
def ofText? (t : Text) : Option Binary64 :=
  let (negative, body) :=
    match t with
    | '-' :: rest => (true, rest)
    | '+' :: rest => (false, rest)
    | rest => (false, rest)
  match named? negative body with
  | some x => some x
  | none =>
    if underscoresSeparate false body then unsigned? negative (body.filter (· != '_')) else none

end Binary64

end PageCompiler
