import PageCompiler.Text.Quoted
import PageCompiler.Number.Shortest

/-!
# JSON

The values that scripts and reports are written from, and how they are written. A `JsonStyle` fixes
what is free in the format: whether characters outside ASCII are spelled out, and what stands
between the items.
-/

namespace PageCompiler

/-- A value of the JSON data model, with floating-point numbers kept apart from integers. -/
inductive Json where
  | null
  | bool (b : Bool)
  | int (i : Int)
  | float (x : Binary64)
  | text (t : Text)
  | list (items : List Json)
  /-- An object, its members in order. -/
  | object (members : List (Text × Json))

instance : Inhabited Json := ⟨.null⟩

/-- What is free in the written form of a value. -/
structure JsonStyle where
  /-- Whether every character outside the printable ASCII range is spelled out. -/
  asciiOnly : Bool
  /-- What follows an item on the same line. -/
  itemMark : Text
  /-- What follows the name of a member. -/
  nameMark : Text
  /-- The indentation of one level, when every item has a line of its own. -/
  indent : Option Text

namespace JsonStyle

/-- Everything on one line, with no blanks between. -/
def compact : JsonStyle := ⟨true, ",", ":", none⟩

/-- Everything on one line, with a blank after each mark. -/
def spaced : JsonStyle := ⟨true, ", ", ": ", none⟩

/-- Every item on a line of its own, two blanks deeper than what holds it. -/
def indented : JsonStyle := ⟨true, ",", ": ", some "  "⟩

end JsonStyle

namespace Json

/-- The escape of one UTF-16 unit. -/
def unitEscape (n : Nat) : Text := ['\\', 'u'] ++ Text.hex 4 n

/-- One character inside a string. -/
def escapeChar (asciiOnly : Bool) (c : Char) : Text :=
  if c = '"' then ['\\', '"']
  else if c = '\\' then ['\\', '\\']
  else if c = '\n' then ['\\', 'n']
  else if c = '\r' then ['\\', 'r']
  else if c = '\t' then ['\\', 't']
  else if c.toNat = 8 then ['\\', 'b']
  else if c.toNat = 12 then ['\\', 'f']
  else if c.toNat < 0x20 then unitEscape c.toNat
  else if !asciiOnly || c.toNat ≤ 0x7e then [c]
  else if c.toNat < 0x10000 then unitEscape c.toNat
  else
    unitEscape (0xd800 + (c.toNat - 0x10000) / 0x400) ++
      unitEscape (0xdc00 + (c.toNat - 0x10000) % 0x400)

/-- A string with its quotes. -/
def writeText (asciiOnly : Bool) (t : Text) : Text :=
  '"' :: t.flatMap (escapeChar asciiOnly) ++ ['"']

/-- Written items between brackets, at the given depth. -/
def bracket (style : JsonStyle) (depth : Nat) (opening closing : Char) (items : List Text) : Text :=
  if items.isEmpty then [opening, closing]
  else
    match style.indent with
    | none => opening :: Text.join style.itemMark items ++ [closing]
    | some step =>
      let newline (level : Nat) : Text := '\n' :: (List.replicate level step).flatten
      opening :: newline (depth + 1) ++
        Text.join (style.itemMark ++ newline (depth + 1)) items ++ newline depth ++ [closing]

mutual

/-- A value in a style, at the given depth. -/
def writeAt (style : JsonStyle) (depth : Nat) : Json → Text
  | null => "null"
  | bool b => if b then "true" else "false"
  | int i => Numeral.ofInt i
  | float x => DecimalLayout.script.write x
  | text t => writeText style.asciiOnly t
  | list items => bracket style depth '[' ']' (writeItems style (depth + 1) items)
  | object members => bracket style depth '\x7b' '\x7d' (writeMembers style (depth + 1) members)

def writeItems (style : JsonStyle) (depth : Nat) : List Json → List Text
  | [] => []
  | item :: rest => writeAt style depth item :: writeItems style depth rest

def writeMembers (style : JsonStyle) (depth : Nat) : List (Text × Json) → List Text
  | [] => []
  | (name, value) :: rest =>
    (writeText style.asciiOnly name ++ style.nameMark ++ writeAt style depth value) ::
      writeMembers style depth rest

end

def write (style : JsonStyle) (value : Json) : Text := writeAt style 0 value

end Json

end PageCompiler
