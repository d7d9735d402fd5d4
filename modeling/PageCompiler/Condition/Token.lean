import PageCompiler.Condition.Tree

/-!
# Tokens of a condition

A condition is a row of numbers, quoted texts, names and operators, with blanks between them where
one likes. Every token knows the offset at which it begins.
-/

namespace PageCompiler

namespace Condition

/-- What a token says. -/
inductive Lexeme where
  | whole (n : Nat)
  /-- A number with a fraction. -/
  | float (x : Binary64)
  /-- A quoted text, without its quotes and escapes. -/
  | text (t : Text)
  /-- A name as it is spelled, with its dollar sign if it has one. -/
  | name (spelling : Text)
  | comparison (op : Comparison)
  /-- The conjunction sign. -/
  | and
  /-- The disjunction sign. -/
  | or
  /-- The negation sign. -/
  | not
  | opening
  | closing
  deriving DecidableEq, Repr

/-- A lexeme with the offset at which it begins. -/
structure Token where
  /-- What it says. -/
  lexeme : Lexeme
  /-- Where it begins. -/
  offset : Nat
  deriving DecidableEq, Repr

/-- A lexeme as messages show it: a quoted text without its quotes. -/
def Lexeme.shown : Lexeme → Text
  | .whole n => Numeral.ofNat n
  | .float x => DecimalLayout.plain.write x
  | .text t => t
  | .name spelling => spelling
  | .comparison op => op.symbol
  | .and => "&&"
  | .or => "||"
  | .not => "!"
  | .opening => "("
  | .closing => ")"

/-! ## Errors -/

/-- Why a condition is not well formed. -/
inductive Fault where
  /-- There is no token. -/
  | empty
  /-- A character that begins no token. -/
  | unexpectedChar (c : Char)
  /-- A token after the end of the condition. -/
  | unexpectedToken (found : Lexeme)
  /-- The condition ends where a value is needed. -/
  | unexpectedEnd
  /-- A token where a value is needed. -/
  | valueExpected (found : Lexeme)
  /-- A parenthesis that is not closed. -/
  | closingExpected
  deriving DecidableEq, Repr

def Fault.reason : Fault → Text
  | .empty => "empty condition"
  | .unexpectedChar c => "unexpected character '" ++ [c] ++ "'"
  | .unexpectedToken found => "unexpected '" ++ found.shown ++ "'"
  | .unexpectedEnd => "unexpected end of condition"
  | .valueExpected found => "expected a value, got '" ++ found.shown ++ "'"
  | .closingExpected => "expected ')'"

/-- Why a condition is rejected. -/
inductive Error where
  /-- It is not well formed, which shows at an offset. -/
  | malformed (fault : Fault) (offset : Nat)
  /-- It names something that is not declared. -/
  | unknown (name : Text)
  /-- It has a numeral with too many digits. -/
  | numeral (refusal : NumeralTooLong)
  deriving DecidableEq, Repr

/-! ## Scanning -/

/-- The character that a backslash and a character stand for. -/
def unescape (c : Char) : Char :=
  if c = 'n' then '\n' else if c = 't' then '\t' else if c = 'r' then '\r' else c

/-- The rest of a quoted text up to its closing quote. A backslash before a line feed is not an
escape, and a text with one has no end. -/
def quotedRest (quote : Char) : Text → Option (Text × Text)
  | [] => none
  | [c] => if c = quote then some ([], []) else none
  | c :: d :: rest =>
    if c = quote then some ([], d :: rest)
    else if c = '\\' then
      if d = '\n' then none
      else (quotedRest quote rest).map fun (t, after) ↦ (unescape d :: t, after)
    else (quotedRest quote (d :: rest)).map fun (t, after) ↦ (c :: t, after)

/-- A number: digits, and a point and more digits if there are digits after the point. -/
def number (t : Text) : Except Error (Lexeme × Text) :=
  let whole := t.takeWhile isDecimalDigit
  let rest := t.dropWhile isDecimalDigit
  let fraction :=
    match rest with
    | '.' :: more => more.takeWhile isDecimalDigit
    | _ => []
  if fraction.isEmpty then
    if Numeral.maxDigits < whole.length then .error (.numeral ⟨whole.length⟩)
    else .ok (.whole (Numeral.valueOf (Numeral.digitValues whole)), rest)
  else
    let digits := Numeral.digitValues (whole ++ fraction)
    .ok (.float (Binary64.ofDecimal false digits (-(fraction.length : Int))),
      rest.drop (fraction.length + 1))

/-- The operators, those first that others are the beginning of. -/
def operators : List (Text × Lexeme) :=
  [("===", .comparison .identical), ("!==", .comparison .different), ("==", .comparison .equal),
   ("!=", .comparison .unequal), ("<=", .comparison .atMost), (">=", .comparison .atLeast),
   ("&&", .and), ("||", .or), ("<", .comparison .below), (">", .comparison .above), ("!", .not),
   ("(", .opening), (")", .closing)]

def operator? (t : Text) : Option (Lexeme × Text) :=
  operators.findSome? fun (symbol, lexeme) ↦ (Text.after? symbol t).map (lexeme, ·)

def beginsName (c : Char) : Bool := isLatinLetter c || c == '_'

/-- A name, with or without a dollar sign before it. -/
def name? : Text → Option (Lexeme × Text)
  | '$' :: c :: rest =>
    if beginsName c then
      some (.name ('$' :: c :: rest.takeWhile isWord), rest.dropWhile isWord)
    else none
  | c :: rest =>
    if beginsName c then some (.name (c :: rest.takeWhile isWord), rest.dropWhile isWord)
    else none
  | [] => none

/-- The lexeme a text begins with, and the rest; nothing when no token begins so. -/
def lexeme? : Text → Except Error (Option (Lexeme × Text))
  | [] => .ok none
  | c :: rest =>
    if isDecimalDigit c then (number (c :: rest)).map some
    else if c = '"' ∨ c = '\'' then
      .ok ((quotedRest c rest).map fun (t, after) ↦ (.text t, after))
    else
      match name? (c :: rest) with
      | some found => .ok (some found)
      | none => .ok (operator? (c :: rest))

/-- The tokens of a text that begins at an offset. -/
def scanFrom (offset : Nat) (t : Text) : Except Error (List Token) :=
  match t with
  | [] => .ok []
  | c :: cs =>
    if isBlank c then scanFrom (offset + 1) cs
    else
      match lexeme? (c :: cs) with
      | .error e => .error e
      | .ok none => .error (.malformed (.unexpectedChar c) offset)
      | .ok (some (lexeme, rest)) =>
        if rest.length ≤ cs.length then
          match scanFrom (offset + ((c :: cs).length - rest.length)) rest with
          | .error e => .error e
          | .ok tokens => .ok (⟨lexeme, offset⟩ :: tokens)
        else .error (.malformed (.unexpectedChar c) offset)
termination_by t.length

def scan (condition : Text) : Except Error (List Token) := scanFrom 0 condition

end Condition

end PageCompiler
