import PageCompiler.Text.Pieces

/-!
# Control sequences

An escape character and an opening bracket begin a sequence that tells a terminal how to show what
follows, such as its colour. Parameters come next, if any, and a letter ends the sequence. Without
such sequences a text is plain: it reads the same on a terminal as in a file.
-/

namespace PageCompiler

namespace Text

/-- Whether a character may be part of the parameters of a control sequence. -/
def isControlParameter (c : Char) : Bool := c.isDigit || c == ';' || c == '?'

/-- The rest after a control sequence that ends with a letter. -/
def controlSequence? : Text → Option Text
  | '\x1b' :: '[' :: rest =>
    (char? Char.isAlpha (rest.dropWhile isControlParameter)).map Prod.snd
  | _ => none

/-- A text without its control sequences. What comes together where one was left out is not looked
at again. -/
def withoutControls (t : Text) : Text :=
  substitute (fun u ↦ (controlSequence? u).map ((), ·)) (fun _ ↦ []) t

end Text

end PageCompiler
