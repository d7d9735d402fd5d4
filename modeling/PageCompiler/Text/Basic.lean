import PageCompiler.Text.Blank
import PageCompiler.Text.Word

/-!
# Texts

A text is a list of characters, so that every operation on texts is a recursion on the list and its
length counts characters. String literals are read as texts.

The operations here are the ones everything else is written with: cutting a text at a separator,
trimming blank ends, and asking for a given beginning or end.
-/

namespace PageCompiler

/-- A text: a list of characters. -/
abbrev Text := List Char

instance : Coe String Text := ⟨String.toList⟩

instance : LawfulBEq Text := inferInstance

namespace Text

/-! ## Joining and splitting -/

/-- The texts one after the other, with a separator between any two neighbours. -/
def join (separator : Text) : List Text → Text
  | [] => []
  | [t] => t
  | t :: u :: rest => t ++ (separator ++ join separator (u :: rest))

/-- The pieces between the occurrences of a character: always one more than there are occurrences,
and possibly empty. -/
def splitOn (separator : Char) : Text → List Text
  | [] => [[]]
  | c :: cs =>
    if c = separator then [] :: splitOn separator cs
    else
      match splitOn separator cs with
      | [] => [[c]]
      | piece :: pieces => (c :: piece) :: pieces

/-- The lines of a text. Only a line feed ends a line. -/
def lines (t : Text) : List Text := splitOn '\n' t

/-- The text that consists of the given lines. -/
def unlines (ls : List Text) : Text := join ['\n'] ls

/-! ## Trimming -/

/-- The text without the blanks it starts with. -/
def trimLeft (t : Text) : Text := t.dropWhile isBlank

/-- The text without the blanks it ends with. -/
def trimRight (t : Text) : Text := (t.reverse.dropWhile isBlank).reverse

/-- The text without the blanks at either end. -/
def trim (t : Text) : Text := trimRight (trimLeft t)

def isBlankText (t : Text) : Bool := t.all isBlank

/-- The text without the given character at either end. -/
def trimChar (c : Char) (t : Text) : Text :=
  ((t.dropWhile (· == c)).reverse.dropWhile (· == c)).reverse

/-! ## Beginnings, ends and occurrences -/

/-- What follows `start` in a text that begins with it. -/
def after? : (start t : Text) → Option Text
  | [], t => some t
  | _ :: _, [] => none
  | p :: ps, c :: cs => if p = c then after? ps cs else none

theorem length_le_of_after? {start t rest : Text} (h : after? start t = some rest) :
    rest.length ≤ t.length := by
  fun_induction after? start t with
  | case1 t => simp_all
  | case2 => simp at h
  | case3 p ps cs ih =>
    have := ih h
    simp only [List.length_cons]
    omega
  | case4 => simp at h

def startsWith (t start : Text) : Bool := (after? start t).isSome

/-- What precedes `tail` in a text that ends with it. -/
def before? (tail t : Text) : Option Text := (after? tail.reverse t.reverse).map List.reverse

def endsWith (t tail : Text) : Bool := (before? tail t).isSome

/-- The text around the first occurrence of `mark`: what stands before it and what after. -/
def cut? (mark : Text) : Text → Option (Text × Text)
  | [] => (after? mark []).map fun rest ↦ ([], rest)
  | c :: cs =>
    match after? mark (c :: cs) with
    | some rest => some ([], rest)
    | none => (cut? mark cs).map fun (before, rest) ↦ (c :: before, rest)

theorem length_le_of_cut? {mark t before rest : Text} (h : cut? mark t = some (before, rest)) :
    rest.length ≤ t.length := by
  fun_induction cut? mark t generalizing before with
  | case1 =>
    obtain ⟨found, hfound, heq⟩ := Option.map_eq_some_iff.mp h
    obtain ⟨-, rfl⟩ := Prod.mk.inj heq
    exact length_le_of_after? hfound
  | case2 c cs found hfound =>
    obtain ⟨-, rfl⟩ := Prod.mk.inj (Option.some.inj h)
    exact length_le_of_after? hfound
  | case3 c cs _ ih =>
    obtain ⟨⟨inside, found⟩, hfound, heq⟩ := Option.map_eq_some_iff.mp h
    obtain ⟨-, rfl⟩ := Prod.mk.inj heq
    have := ih hfound
    simp only [List.length_cons]
    omega

def contains (t mark : Text) : Bool := (cut? mark t).isSome

/-- Keeps the first `length` characters of a longer text and marks the cut with three dots, so that
no more than `limit` characters are shown. -/
def abbreviate (limit length : Nat) (t : Text) : Text :=
  if limit < t.length then t.take length ++ "..." else t

/-! ## Order -/

/-- Whether one text comes before another when characters are compared by code point. -/
def before : Text → Text → Bool
  | [], [] => false
  | [], _ :: _ => true
  | _ :: _, [] => false
  | c :: cs, d :: ds => if c = d then before cs ds else c.toNat < d.toNat

/-- Whether one text comes no later than another. -/
def notAfter (t u : Text) : Bool := !before u t

def sort (ts : List Text) : List Text := ts.mergeSort notAfter

end Text

end PageCompiler
