import PageCompiler.Text.Basic
import PageCompiler.Text.Printable

/-!
# Quoted texts

A text as a message shows it: between quotes, on one line, with every character that cannot be
printed spelled out. Single quotes are preferred; double quotes are taken when the text holds a
single quote and no double one.
-/

namespace PageCompiler

namespace Text

/-- A number in hexadecimal with small letters, filled up with zeros. -/
def hex (width n : Nat) : Text :=
  let digits := Nat.toDigits 16 n
  List.replicate (width - digits.length) '0' ++ digits

/-- The quote that a text is shown in. -/
def quoteFor (t : Text) : Char := if '\'' ∈ t ∧ '"' ∉ t then '"' else '\''

/-- One character between the given quotes. -/
def quoteChar (quote c : Char) : Text :=
  if c = quote ∨ c = '\\' then ['\\', c]
  else if c = '\n' then ['\\', 'n']
  else if c = '\r' then ['\\', 'r']
  else if c = '\t' then ['\\', 't']
  else if isPrintable c then [c]
  else if c.toNat < 0x100 then ['\\', 'x'] ++ hex 2 c.toNat
  else if c.toNat < 0x10000 then ['\\', 'u'] ++ hex 4 c.toNat
  else ['\\', 'U'] ++ hex 8 c.toNat

def quoted (t : Text) : Text :=
  let quote := quoteFor t
  quote :: t.flatMap (quoteChar quote) ++ [quote]

end Text

end PageCompiler
