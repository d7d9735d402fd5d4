import PageCompiler.Diagnostic
import PageCompiler.Note
import PageCompiler.OrderedMap

/-!
# Front matter

A source may begin with a block of metadata between two lines `---`:

    ---
    title: "Home"
    route: /
    # a remark
    ---

Every line of the block is a flat pair `key: value`, whose value loses one layer of matching quotes.
Blank lines and remarks are skipped, and so is anything else that is not a pair. Without an opening
line there is no block and everything is body; a block that is never closed counts as absent, and
then the body begins after the opening line.
-/

namespace PageCompiler

/-- The metadata of a page: keys and values in the order of the source. -/
abbrev FrontMatter := OrderedMap Text

namespace FrontMatter

/-- The line that opens and closes a block. -/
def delimiter : Text := "---"

def isDelimiter (line : Text) : Bool := Text.trim line == delimiter

/-- What a line of the block says. -/
inductive Line where
  /-- Nothing: it is blank or a remark. -/
  | empty
  | pair (key value : Text)
  /-- Something that is not understood. -/
  | malformed (text : Text)

/-- The value without one layer of matching quotes. -/
def unquote (value : Text) : Text :=
  match value with
  | first :: second :: rest =>
    if (first = '\'' ∨ first = '"') ∧ (second :: rest).getLast? = some first then
      (second :: rest).dropLast
    else value
  | _ => value

/-- The key and the value of a trimmed line. -/
def pair? (line : Text) : Option (Text × Text) := do
  let (key, rest) ← Text.word? line
  let rest ← Text.after? [':'] rest
  if rest.isEmpty then none else some (key, unquote (Text.trim rest))

def readLine (raw : Text) : Line :=
  let line := Text.trim raw
  if line.isEmpty || Text.startsWith line "#" then .empty
  else
    match pair? line with
    | some (key, value) => .pair key value
    | none => .malformed line

/-- The metadata on the lines of a block. A later value of a key replaces an earlier one. -/
def ofLines (block : List Text) : FrontMatter :=
  block.foldl
    (fun found raw ↦
      match readLine raw with
      | .pair key value => OrderedMap.put key value found
      | _ => found)
    []

/-- The notes on the lines of a block that are not understood. -/
def notesOn (block : List Text) : List Note :=
  block.filterMap fun raw ↦
    match readLine raw with
    | .malformed line =>
      some (Note.debug ("Skipping malformed frontmatter line: " ++ Text.quoted line))
    | _ => none

/-! ## Splitting a source -/

/-- A source split into its metadata and its body. -/
structure Extracted where
  fields : FrontMatter
  /-- The text after the block. -/
  body : Text
  /-- The number of lines before the body. -/
  bodyOffset : Nat
  /-- What there is to say about the block. -/
  notes : List Note

/-- Splits a source into its metadata and its body. -/
def extract (source : Text) : Extracted :=
  match Text.lines source with
  | [] => ⟨[], source, 0, []⟩
  | first :: rest =>
    if !isDelimiter first then ⟨[], source, 0, []⟩
    else
      let block := rest.takeWhile fun line ↦ !isDelimiter line
      match rest.dropWhile fun line ↦ !isDelimiter line with
      | [] =>
        ⟨[], Text.unlines rest, 1,
          [Note.debug "Frontmatter opening delimiter without a closing one; ignoring block"]⟩
      | _ :: body => ⟨ofLines block, Text.unlines body, block.length + 2, notesOn block⟩

/-! ## Fields with a meaning to the compiler -/

def route? (fields : FrontMatter) : Option Text := OrderedMap.get? fields "route"

def scriptMode? (fields : FrontMatter) : Option Text := OrderedMap.get? fields "compileJsMode"

/-- Whether a script mode exists: inline, or a script file. -/
def isScriptMode (mode : Text) : Bool :=
  mode == "inline" || mode == "external.js" || Text.endsWith mode ".js"

/-- The problem with the route, if it does not begin with a slash. -/
def routeProblem? (fields : FrontMatter) (file : Option Text) : Option Diagnostic :=
  (route? fields).bind fun route ↦
    if Text.startsWith route "/" then none
    else some { cause := .fieldInvalid "route" route [], file }

/-- The problem with the script mode, if there is no such mode. -/
def modeProblem? (fields : FrontMatter) (file : Option Text) : Option Diagnostic :=
  (scriptMode? fields).bind fun mode ↦
    if isScriptMode mode then none
    else some { cause := .fieldInvalid "compileJsMode" mode Cause.modeValues, file }

/-- The problems with the fields the compiler itself reads. -/
def problems (fields : FrontMatter) (file : Option Text) : List Diagnostic :=
  (routeProblem? fields file).toList ++ (modeProblem? fields file).toList

end FrontMatter

end PageCompiler
