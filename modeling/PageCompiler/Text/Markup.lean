import PageCompiler.Text.Basic

/-!
# Text in markup

The five characters with a meaning of their own in markup, and the references written for them.
-/

namespace PageCompiler

namespace Text

/-- One character as character data or inside an attribute value. -/
def escapeChar (c : Char) : Text :=
  if c = '&' then "&amp;"
  else if c = '<' then "&lt;"
  else if c = '>' then "&gt;"
  else if c = '"' then "&quot;"
  else if c = '\'' then "&#x27;"
  else [c]

/-- A text as character data or inside an attribute value. -/
def escape (t : Text) : Text := t.flatMap escapeChar

end Text

end PageCompiler
