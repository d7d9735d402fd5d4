import PageCompiler.FrontMatter
import PageCompiler.Source.Token

/-!
# Components

A component is what one source declares: its metadata, its imports, variables and functions in the
order of the source, its template, and its name. Repeated declarations of a variable are kept, and
of several templates or names the last one counts.
-/

namespace PageCompiler

/-- A component that a page mounts. -/
structure Import where
  line : Int
  /-- The name it is used by. -/
  name : Text
  /-- The path as written. -/
  path : Text
  /-- The file it was found to stand for. -/
  resolved : Option Text
  deriving DecidableEq, Repr

def Import.framework (i : Import) : Framework := Source.importFramework i.path i.resolved

structure Variable where
  line : Int
  name : Text
  /-- Whether the page follows its changes. -/
  reactive : Bool
  /-- Its value, as script. -/
  expression : Text
  deriving DecidableEq, Repr

def Variable.kind (v : Variable) : Text := if v.reactive then "reactive" else "computed"

structure Function where
  line : Int
  name : Text
  /-- Its parameters, as script. -/
  parameters : Text
  /-- Its body, as script. -/
  body : Text
  deriving DecidableEq, Repr

structure Template where
  /-- The line on which it begins. -/
  line : Int
  /-- Its markup. -/
  content : Text
  deriving DecidableEq, Repr

/-- What one source declares. -/
structure Component where
  /-- The name of the source. -/
  file : Text
  fields : FrontMatter
  name : Text := "Component"
  imports : List Import := []
  vars : List Variable := []
  functions : List Function := []
  template : Option Template := none
  deriving DecidableEq, Repr

namespace Component

/-- A component with one more declaration. -/
def declare (c : Component) (token : Source.Token) : Component :=
  match token.declaration with
  | .imported name path resolved =>
    { c with imports := c.imports ++ [⟨token.line, name, path, resolved⟩] }
  | .reactive name value => { c with vars := c.vars ++ [⟨token.line, name, true, value⟩] }
  | .computed name value => { c with vars := c.vars ++ [⟨token.line, name, false, value⟩] }
  | .function name parameters body =>
    { c with functions := c.functions ++ [⟨token.line, name, parameters, body⟩] }
  | .template markup => { c with template := some ⟨token.line, markup⟩ }
  | .componentName name => { c with name := name }

def ofTokens (file : Text) (fields : FrontMatter) (tokens : List Source.Token) : Component :=
  tokens.foldl declare { file, fields }

/-- The warnings about tokens that repeat what `c` declares already. -/
def repetitions (c : Component) : List Source.Token → List Note
  | [] => []
  | token :: rest =>
    let place := c.file ++ ":" ++ Numeral.ofInt token.line
    let here : List Note :=
      match token.declaration with
      | .reactive name _ | .computed name _ =>
        if c.vars.any (·.name == name) then
          [.warning (place ++ ": variable $" ++ name ++ " is declared more than once")]
        else []
      | .template _ =>
        if c.template.isSome then [.warning (place ++ ": second <template> replaces the first")]
        else []
      | _ => []
    here ++ repetitions (c.declare token) rest

/-- What there is to say about the tokens of a component. -/
def notesOn (file : Text) (fields : FrontMatter) (tokens : List Source.Token) : List Note :=
  let c := ofTokens file fields tokens
  repetitions { file, fields } tokens ++
    [.debug (file ++ ": parsed " ++ Numeral.ofNat c.imports.length ++ " imports, " ++
      Numeral.ofNat c.vars.length ++ " variables, " ++ Numeral.ofNat c.functions.length ++
      " functions")]

/-! ## Views -/

/-- The framework that the source itself seems to be written for. -/
def framework (c : Component) : Framework := .ofPath c.file

def route? (c : Component) : Option Text := c.fields.route?

/-- The variables that the page follows. -/
def reactiveVariables (c : Component) : List Variable := c.vars.filter (·.reactive)

/-- The names of the variables in the order of their first declarations. -/
def variableNames (c : Component) : List Text := distinct (c.vars.map Variable.name)

/-- The markup of the template; none is like an empty one. -/
def markup (c : Component) : Text := (c.template.map Template.content).getD []

/-- The first import under a name. -/
def import? (c : Component) (name : Text) : Option Import := c.imports.find? (·.name == name)

end Component

/-! ## Reading a source -/

/-- A component with the notes made while its source was read. -/
structure Reading (E : Type) where
  /-- The component, or the problem with an import. -/
  component : Except E Component
  /-- The tokens it was made from. -/
  tokens : List Source.Token
  notes : List Note
  /-- What is wrong with imports but does not end the run. -/
  warnings : List Diagnostic

/-- Reads a source that was split into metadata and body. -/
def Component.read {E : Type} (file : Text) (locator : Source.Locator E)
    (parts : FrontMatter.Extracted) : Reading E :=
  let scanned := Source.tokenize file parts.bodyOffset locator parts.body
  match scanned.tokens with
  | .error e => ⟨.error e, [], scanned.notes, scanned.warnings⟩
  | .ok tokens =>
    ⟨.ok (ofTokens file parts.fields tokens), tokens,
      scanned.notes ++ notesOn file parts.fields tokens, scanned.warnings⟩

/-- The component of a source, with no import looked for. -/
def Component.ofSource (file source : Text) : Component :=
  let parts := FrontMatter.extract source
  ofTokens file parts.fields (Source.tokensOf (Source.scan parts.bodyOffset parts.body))

/-- The notes made while a source is read, with no import looked for. -/
def Component.sourceNotes (file source : Text) : List Note :=
  let parts := FrontMatter.extract source
  parts.notes ++ (Component.read file (Source.noLookup : Source.Locator Empty) parts).notes

end PageCompiler
