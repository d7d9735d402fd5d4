import PageCompiler.Text.Pieces
import PageCompiler.Text.Digit

/-!
# Numerals

Whole numbers as texts. Writing uses the ten basic digits. Reading takes the digits of any script,
and allows a single underscore between two digits. A numeral of more than `Numeral.maxDigits` digits
is refused, so that reading a number never costs more than a bounded amount of work.
-/

namespace PageCompiler

/-- A numeral has more digits than are read. -/
structure NumeralTooLong where
  digits : Nat
  deriving DecidableEq, Repr

namespace Numeral

def maxDigits : Nat := 4300

/-- A whole number in basic digits, without leading zeros. -/
def ofNat (n : Nat) : Text := Nat.toDigits 10 n

/-- A whole number in basic digits, with a minus sign when it is negative. -/
def ofInt : Int → Text
  | .ofNat n => ofNat n
  | .negSucc n => '-' :: ofNat (n + 1)

/-- The number that a row of digit values stands for. -/
def valueOf (digits : List Nat) : Nat := digits.foldl (fun n d ↦ 10 * n + d) 0

/-- The values of a row of digits; other characters count as zero. -/
def digitValues (t : Text) : List Nat := t.map fun c ↦ (digitValue? c).getD 0

/-- The digit values of a numeral: digits, with at most one underscore between two of them. -/
def digits? : Text → Option (List Nat)
  | [] => none
  | [c] => (digitValue? c).map ([·])
  | c :: '_' :: rest =>
    match digitValue? c, digits? rest with
    | some d, some ds => some (d :: ds)
    | _, _ => none
  | c :: rest =>
    match digitValue? c, digits? rest with
    | some d, some ds => some (d :: ds)
    | _, _ => none

/-- Whether a character may surround a numeral: a blank that is not an information separator. -/
def isMargin (c : Char) : Bool := isBlank c && !(0x1c ≤ c.toNat && c.toNat ≤ 0x1f)

/-- The sign and the digit values of a numeral with an optional sign before it, and blanks around
them. -/
def signed? (t : Text) : Option (Bool × List Nat) :=
  let body := ((t.dropWhile isMargin).reverse.dropWhile isMargin).reverse
  let (negative, numeral) :=
    match body with
    | '-' :: rest => (true, rest)
    | '+' :: rest => (false, rest)
    | rest => (false, rest)
  (digits? numeral).map fun ds ↦ (negative, ds)

/-- The whole number that a text stands for, if it is a numeral, and one that is read. -/
def read? (t : Text) : Option (Except NumeralTooLong Int) :=
  (signed? t).map fun (negative, ds) ↦
    if maxDigits < ds.length then .error ⟨ds.length⟩
    else .ok (if negative then -(valueOf ds : Int) else valueOf ds)

/-- The whole number that a text stands for. -/
def toInt? (t : Text) : Option Int :=
  match read? t with
  | some (.ok i) => some i
  | _ => none

end Numeral

def NumeralTooLong.message (e : NumeralTooLong) : Text :=
  "Exceeds the limit (" ++ Numeral.ofNat Numeral.maxDigits ++
    " digits) for integer string conversion: value has " ++ Numeral.ofNat e.digits ++
    " digits; use sys.set_int_max_str_digits() to increase the limit"

end PageCompiler
