import PageCompiler.Text.Markup
import PageCompiler.Text.Pieces

/-!
# Attributes of component tags

The attributes of a tag that mounts a component become data attributes of the element it is mounted
on, two for each: its value, and how the value was written.
-/

namespace PageCompiler

namespace Markup

/-- How the value of an attribute is written. -/
inductive AttributeValue where
  /-- There is no value. -/
  | bare
  /-- Between quotes. -/
  | quoted (t : Text)
  /-- Between braces. -/
  | braced (t : Text)
  deriving DecidableEq, Repr

structure Attribute where
  name : Text
  value : AttributeValue
  deriving DecidableEq, Repr

def beginsAttribute (c : Char) : Bool := isLatinLetter c || c == '_'

def inAttribute (c : Char) : Bool := isWord c || c == '-'

/-- The value after the name of an attribute: an equals sign, with or without blanks around it, and
a text between braces or quotes. -/
def value? (t : Text) : Option (AttributeValue × Text) := do
  let rest ← Text.after? ['='] (Text.trimLeft t)
  match Text.trimLeft rest with
  | '\x7b' :: inside => (Text.upTo? '\x7d' inside).map fun (value, after) ↦ (.braced value, after)
  | '"' :: inside => (Text.upTo? '"' inside).map fun (value, after) ↦ (.quoted value, after)
  | '\'' :: inside => (Text.upTo? '\'' inside).map fun (value, after) ↦ (.quoted value, after)
  | _ => none

/-- An attribute: a name, and a value if one follows. -/
def readAttribute : Reader Attribute
  | [] => none
  | c :: cs =>
    if beginsAttribute c then
      let name := c :: cs.takeWhile inAttribute
      let rest := cs.dropWhile inAttribute
      match value? rest with
      | some (value, after) => some (⟨name, value⟩, after)
      | none => some (⟨name, .bare⟩, rest)
    else none

namespace AttributeValue

/-- The value as text. A missing value is true. -/
def content : AttributeValue → Text
  | bare => "true"
  | quoted t => t
  | braced t => Text.trim t

/-- The word for how a value was written: in braces, a dollar sign makes it a variable. -/
def kind : AttributeValue → Text
  | bare => "boolean"
  | quoted _ => "string"
  | braced t => if Text.startsWith (Text.trim t) "$" then "variable" else "literal"

end AttributeValue

/-- The data attributes of an attribute, with a blank before each. -/
def Attribute.render (a : Attribute) : Text :=
  " data-prop-" ++ a.name ++ "=\"" ++ Text.escape a.value.content ++ "\" data-prop-" ++ a.name ++
    "-type=\"" ++ a.value.kind ++ "\""

/-- The data attributes for the attributes of a tag. -/
def componentAttributes (attributes : Text) : Text :=
  (Text.findAll readAttribute (Text.trim attributes)).flatMap Attribute.render

end Markup

end PageCompiler
