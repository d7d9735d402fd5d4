import PageCompiler.Framework
import PageCompiler.Property.Basic
import PageCompiler.Text.Pieces

/-!
# Finding properties in the source of a component

Every framework has its own ways to declare properties, and each way is looked for on its own: the
members of a props type, a table of property types, an array or an object of props, and exported
variables. Of several declarations of a name the first counts.
-/

namespace PageCompiler

namespace Property

/-! ## Members of a type -/

/-- Text between braces, none of which is inside. -/
def readBraces (t : Text) : Option (Text × Text) := do
  Text.upTo? '\x7d' (← Text.after? ['\x7b'] t)

def readTypeName (t : Text) : Option (Text × Text) := do
  let (name, rest) ← Text.word? (← Text.blanks? t)
  if Text.endsWith name "Props" then some (name, Text.trimLeft rest) else none

/-- The members of an interface or a type alias whose name ends with `Props`. -/
def readPropsType (t : Text) : Option (Text × Text) :=
  match Text.after? "interface" t with
  | some rest => do
    let (_, rest) ← readTypeName rest
    readBraces rest
  | none => do
    let (_, rest) ← readTypeName (← Text.after? "type" t)
    readBraces (Text.trimLeft (← Text.after? ['='] rest))

/-- A member: a name, a mark when it is optional, and a type up to a comma. -/
def member? (chunk : Text) : Option Property := do
  let (name, rest) ← Text.word? (Text.trimLeft chunk)
  let optional := Text.startsWith rest "?"
  let rest := if optional then rest.drop 1 else rest
  let rest ← Text.after? [':'] (Text.trimLeft rest)
  let type := rest.takeWhile (· != ',')
  if type.isEmpty then none else some { name, type := Text.trim type, required := !optional }

/-- The members between the braces of a type, which semicolons and line feeds divide. -/
def members (body : Text) : List Property :=
  ((Text.splitOn ';' body).flatMap (Text.splitOn '\n')).filterMap member?

/-- The members of all props types. -/
def ofPropsTypes (source : Text) : List Property :=
  (Text.findAll readPropsType source).flatMap members

/-! ## Tables of property types -/

/-- A table of property types assigned to a component. -/
def readTypeTable (t : Text) : Option (Text × Text) := do
  let (_, rest) ← Text.word? t
  let rest ← Text.after? ".propTypes" rest
  let rest ← Text.after? ['='] (Text.trimLeft rest)
  readBraces (Text.trimLeft rest)

def readTypeEntry (t : Text) : Option (Property × Text) := do
  let (name, rest) ← Text.word? t
  let rest ← Text.after? [':'] (Text.trimLeft rest)
  let rest ← Text.after? "PropTypes." (Text.trimLeft rest)
  let (type, rest) ← Text.word? rest
  match Text.after? ".isRequired" rest with
  | some after => some ({ name, type, required := true }, after)
  | none => some ({ name, type, required := false }, rest)

/-- The entries of all tables of property types. -/
def ofTypeTables (source : Text) : List Property :=
  (Text.findAll readTypeTable source).flatMap (Text.findAll readTypeEntry)

/-! ## Arrays and objects of props -/

/-- What follows a name and a colon. -/
def afterLabel? (label t : Text) : Option Text := do
  let rest ← Text.after? label t
  let rest ← Text.after? [':'] (Text.trimLeft rest)
  some (Text.trimLeft rest)

def readPropsArray (t : Text) : Option (Text × Text) := do
  Text.upTo? ']' (← Text.after? ['['] (← afterLabel? "props" t))

def isNameQuote (c : Char) : Bool := c == '"' || c == '\''

/-- A name between quotes of any kind. -/
def readQuotedName (t : Text) : Option (Text × Text) := do
  let (_, rest) ← Text.char? isNameQuote t
  let (name, rest) ← Text.word? rest
  let (_, rest) ← Text.char? isNameQuote rest
  some (name, rest)

/-- The text up to the brace that closes it, with pairs of braces inside but no deeper ones.
`inside` says whether such a pair is open. -/
def readObjectRest : (inside : Bool) → Text → Option (Text × Text)
  | _, [] => none
  | inside, c :: rest =>
    if c = '\x7b' then
      if inside then none
      else (readObjectRest true rest).map fun (t, after) ↦ (c :: t, after)
    else if c = '\x7d' then
      if inside then (readObjectRest false rest).map fun (t, after) ↦ (c :: t, after)
      else some ([], rest)
    else (readObjectRest inside rest).map fun (t, after) ↦ (c :: t, after)

def readPropsObject (t : Text) : Option (Text × Text) := do
  readObjectRest false (← Text.after? ['\x7b'] (← afterLabel? "props" t))

/-- The settings of a prop between braces, or the name of its type. -/
def readSettings (t : Text) : Option (Text × Text) :=
  match t with
  | '\x7b' :: rest => do
    let inside := rest.takeWhile fun c ↦ c != '\x7b' && c != '\x7d'
    let after ← Text.after? ['\x7d'] (rest.drop inside.length)
    some ('\x7b' :: inside ++ ['\x7d'], after)
  | _ => Text.word? t

def readPropEntry (t : Text) : Option ((Text × Text) × Text) := do
  let (name, rest) ← Text.word? t
  let rest ← Text.after? [':'] (Text.trimLeft rest)
  let (settings, rest) ← readSettings (Text.trimLeft rest)
  some ((name, settings), rest)

/-- The type in the settings of a prop. -/
def readTypeSetting (t : Text) : Option (Text × Text) := do
  Text.word? (← afterLabel? "type" t)

/-- The default value in the settings of a prop. -/
def readDefaultSetting (t : Text) : Option (Text × Text) := do
  let rest ← Text.after? "default" t
  let rest ← Text.after? [':'] (Text.trimLeft rest)
  let (value, rest) ← Text.run? (fun c ↦ c != ',' && c != '\x7d') rest
  some (Text.trim value, rest)

/-- The mark of a required prop in its settings. -/
def readRequiredSetting (t : Text) : Option (Unit × Text) := do
  let rest ← Text.after? "true" (← afterLabel? "required" t)
  some ((), rest)

def ofEntry (name settings : Text) : Property :=
  if Text.startsWith settings ['\x7b'] then
    { name
      type := (Text.find? readTypeSetting settings).getD "any"
      required := (Text.find? readRequiredSetting settings).isSome
      default := Text.find? readDefaultSetting settings }
  else { name, type := settings, required := false }

/-- The members of a props type given as an argument. -/
def readPropsArgument (t : Text) : Option (Text × Text) := do
  let rest ← Text.after? "defineProps" t
  let rest ← Text.after? ['<'] (Text.trimLeft rest)
  let (body, rest) ← readBraces (Text.trimLeft rest)
  let rest ← Text.after? ['>'] (Text.trimLeft rest)
  some (body, rest)

/-- The props of arrays, then of objects, then of arguments. -/
def ofPropsOptions (source : Text) : List Property :=
  ((Text.findAll readPropsArray source).flatMap (Text.findAll readQuotedName)).map
      (fun name ↦ { name, required := false }) ++
    ((Text.findAll readPropsObject source).flatMap (Text.findAll readPropEntry)).map
      (fun (name, settings) ↦ ofEntry name settings) ++
    (Text.findAll readPropsArgument source).flatMap members

/-! ## Exported variables -/

/-- Whether a character may stand in the type of an exported variable. -/
def inTypeName (c : Char) : Bool :=
  isWord c || c == '[' || c == ']' || c == '<' || c == '>' || c == '|'

/-- The type after the name of an exported variable. -/
def exportedType? (t : Text) : Option (Text × Text) := do
  let rest ← Text.after? [':'] (Text.trimLeft t)
  Text.run? inTypeName (Text.trimLeft rest)

/-- The default value after an equals sign: up to a semicolon or the end of the line. Blanks alone
are an empty value, line feeds alone are none. -/
def exportedDefault? (t : Text) : Option (Text × Text) := do
  let rest ← Text.after? ['='] (Text.trimLeft t)
  match Text.run? (fun c ↦ c != ';' && c != '\n') (Text.trimLeft rest) with
  | some (value, after) => some (Text.trim value, after)
  | none =>
    if (rest.takeWhile isBlank).any (· != '\n') then some ([], Text.trimLeft rest) else none

def readExported (t : Text) : Option (Property × Text) := do
  let rest ← Text.blanks? (← Text.after? "export" t)
  let rest ← Text.blanks? (← Text.after? "let" rest)
  let (name, rest) ← Text.word? rest
  let (type, rest) := (exportedType? rest).getD ("any", rest)
  match exportedDefault? rest with
  | some (value, after) => some ({ name, type, required := false, default := some value }, after)
  | none => some ({ name, type, required := true }, rest)

def ofExports (source : Text) : List Property := Text.findAll readExported source

end Property

/-- The properties that the source of a component declares. -/
def Framework.properties (framework : Framework) (source : Text) : List Property :=
  Property.distinct <|
    match framework with
    | .react => Property.ofPropsTypes source ++ Property.ofTypeTables source
    | .vue => Property.ofPropsOptions source
    | .svelte => Property.ofExports source
    | .solid => Property.ofPropsTypes source
    | .unknown => Property.ofPropsTypes source

end PageCompiler
