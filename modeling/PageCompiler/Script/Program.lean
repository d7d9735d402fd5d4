import PageCompiler.Script.Definition
import PageCompiler.Script.Library
import PageCompiler.Script.Mode
import PageCompiler.Script.Reference
import PageCompiler.Template.Lowered

/-!
# Generated programs

The program of a page: the library, the metadata of the page and its route, one function that sets
the page up, and the call of that function once the document is there.

The function declares the variables and functions of the component, registers the imported
components, and keeps three things up to date whenever a reactive variable changes: the elements
that show variables, the elements shown under conditions, and nothing else. It ends with the
listeners for the events of the template.

A program is a list of lines; some of them hold line feeds of their own.
-/

namespace PageCompiler

namespace Script

/-- A line at a level of indentation. An empty line is not indented. -/
def line (level : Nat) (t : Text) : Text :=
  if t.isEmpty then [] else List.replicate (2 * level) ' ' ++ t

/-! ## Names -/

/-- The first character in capitals. -/
def capitalized : Text → Text
  | [] => []
  | c :: cs => c.toUpper :: cs

/-- The name of the function that sets a page up: the basic letters and digits of the component's
name, made an identifier. -/
def pageFunction (componentName : Text) : Text :=
  let letters := componentName.filter fun c ↦ isLatinLetter c || isLatinDigit c
  let name : Text := if letters.isEmpty then "Component" else letters
  let identifier := if name.head?.any isLatinDigit then '_' :: name else name
  capitalized identifier ++ "Page"

/-! ## Metadata -/

/-- The metadata of a page as an object. A closing tag inside of it is broken up. -/
def metadataObject (fields : FrontMatter) : Text :=
  let members := fields.map fun (key, value) ↦ (key, Json.text value)
  let style := { JsonStyle.indented with asciiOnly := false }
  Text.replace "</" "<\\/" ((Json.object members).write style)

/-- The route a page is registered under. -/
def registeredRoute (c : Component) : Text :=
  match c.route? with
  | none | some [] => "/"
  | some route => route

/-- The metadata of a page and its route. -/
def metadataLines (c : Component) : List Text :=
  ["// Page metadata",
   "const pageMetadata = " ++ metadataObject c.fields ++ ";",
   "MTMRouter.routes.set(" ++ (Json.text (registeredRoute c)).write .spaced ++ ", pageMetadata);",
   ""]

/-! ## Variables -/

/-- The key and the first value of a call that makes a signal. -/
def signalCall? (expression : Text) : Option (Text × Text) := do
  let rest ← Text.after? "signal" expression
  let rest ← Text.after? ['('] (Text.trimLeft rest)
  let (_, rest) ← Text.char? Source.isQuote (Text.trimLeft rest)
  let (key, rest) ← Text.run? (fun c ↦ !Source.isQuote c) rest
  let (_, rest) ← Text.char? Source.isQuote rest
  let rest ← Text.after? [','] (Text.trimLeft rest)
  let closed := (Text.before? [';'] rest).getD rest
  let initial ← Text.before? [')'] (Text.trimRight closed)
  if initial.isEmpty then none else some (key, Text.trim initial)

/-- The declaration of a variable. A reactive one is a signal under the key it names, or else under
its own name; a computed one holds its value. -/
def variableDeclaration (names : List Text) (v : Variable) : Text :=
  if v.reactive then
    let (key, initial) := (signalCall? (Text.trim v.expression)).getD (v.name, v.expression)
    "const " ++ v.name ++ " = MTMRouter.create('" ++ key ++ "', " ++
      dereference names initial ++ ");"
  else
    "const " ++ v.name ++ " = \x7b value: (" ++ dereference names v.expression ++ ") \x7d;"

def variableLines (c : Component) : List Text :=
  if c.vars.isEmpty then []
  else
    line 1 "// Variables" ::
      c.vars.map (fun v ↦ line 1 (variableDeclaration c.variableNames v)) ++ [[]]

/-- The object through which conditions and components see the variables. -/
def scopeLines (c : Component) : List Text :=
  let names := c.variableNames
  [if names.isEmpty then line 1 "const scope = \x7b\x7d;"
   else line 1 ("const scope = \x7b " ++ Text.join ", " names ++ " \x7d;"), []]

/-! ## Functions -/

/-- The number of blanks a line begins with. -/
def indentation (l : Text) : Nat := (l.takeWhile isBlank).length

/-- The lines without the blank ones at either end. -/
def trimLines (ls : List Text) : List Text :=
  ((ls.dropWhile Text.isBlankText).reverse.dropWhile Text.isBlankText).reverse

/-- The least indentation of the lines that are not blank. -/
def commonIndentation (ls : List Text) : Nat :=
  (((ls.filter (!Text.isBlankText ·)).map indentation).min?).getD 0

/-- The body of a function: its lines moved to the level inside the function, as they stand to each
other. -/
def bodyLines (names : List Text) (body : Text) : List Text :=
  let ls := trimLines (Text.lines (dereference names body))
  ls.map fun l ↦ line 2 (Text.trimRight (l.drop (commonIndentation ls)))

def functionDeclaration (names : List Text) (f : Function) : List Text :=
  line 1 ("const " ++ f.name ++ " = (" ++ f.parameters ++ ") => \x7b") ::
    bodyLines names f.body ++ [line 1 "\x7d;"]

def functionLines (c : Component) : List Text :=
  if c.functions.isEmpty then []
  else
    line 1 "// Functions" :: c.functions.flatMap (functionDeclaration c.variableNames) ++ [[]]

/-! ## Components -/

/-- The registration of the imported components. -/
def componentLines (definitions : List Definition) : List Text :=
  if definitions.isEmpty then []
  else
    line 1 "// Components" ::
      definitions.flatMap (fun d ↦ (Text.lines d.wrapper).map (line 1)) ++ [[]]

/-! ## Updates -/

/-- The table of conditions. -/
def conditionLines (conditions : OrderedMap (Option Condition.Tree)) : List Text :=
  if conditions.isEmpty then [line 1 "const conditions = \x7b\x7d;"]
  else
    line 1 "const conditions = \x7b" ::
      conditions.map (fun (condition, tree) ↦
        line 2 (Json.writeText false condition ++ ": " ++ Condition.scriptOf tree ++ ",")) ++
      [line 1 "\x7d;"]

/-- The update of the elements that show a variable. -/
def bindingUpdate (name : Text) : List Text :=
  [line 2 ("container.querySelectorAll('[data-bind=\"$" ++ name ++ "\"]').forEach(el => \x7b"),
   line 3 ("el.textContent = " ++ name ++ ".value;"),
   line 2 "\x7d);"]

/-- The update of the elements shown under conditions. -/
def conditionUpdate : List Text :=
  [line 2 "container.querySelectorAll('[data-if]').forEach(el => \x7b",
   line 3 "const condition = el.getAttribute('data-if');",
   line 3 "const tree = conditions[condition];",
   line 3 "let shouldShow = false;",
   line 3 "if (tree) \x7b",
   line 4 "shouldShow = Boolean(MTMConditions.evaluate(tree, scope));",
   line 3 "\x7d else \x7b",
   line 4 "console.warn('MTM: condition was rejected at compile time:', condition);",
   line 3 "\x7d",
   line 3 "el.style.display = shouldShow ? 'block' : 'none';",
   line 2 "\x7d);"]

/-- The function that brings the page up to date, its first call, and the subscriptions to the
reactive variables. -/
def updateLines (c : Component) (lowered : Lowered) : List Text :=
  [line 1 "// DOM bindings", line 1 "const container = document.getElementById('app');"] ++
    conditionLines lowered.conditions ++ [[], line 1 "const updateAll = () => \x7b"] ++
    c.variableNames.flatMap bindingUpdate ++ conditionUpdate ++
    [line 1 "\x7d;", [], line 1 "updateAll();", line 1 "MTMComponents.mountAll(scope);"] ++
    c.reactiveVariables.map fun v ↦ line 1 (v.name ++ ".subscribe(() => updateAll());")

/-! ## Events -/

/-- Whether a handler is a function of the component. -/
def isDeclared (c : Component) (b : Markup.EventBinding) : Bool :=
  c.functions.any (·.name == b.handler)

/-- The listeners for a handler. -/
def listener (b : Markup.EventBinding) : List Text :=
  [[],
   line 1 ("container.querySelectorAll('[" ++ b.marker ++ "=\"$" ++ b.handler ++
     "\"]').forEach(el => \x7b"),
   line 2 ("el.addEventListener('" ++ b.event ++ "', (e) => " ++ b.handler ++ "(e));"),
   line 1 "\x7d);"]

/-- The listeners for the handlers that are functions of the component. -/
def eventLines (c : Component) (events : List Markup.EventBinding) : List Text :=
  (events.filter (isDeclared c)).flatMap listener

/-- The warning about a handler that is not a function of the component. -/
def handlerWarning (c : Component) (b : Markup.EventBinding) : Diagnostic :=
  Lowering.templateWarning c
    ("event handler $" ++ b.handler ++ " for '" ++ b.event ++ "' is not a declared function")
    ["Declare $" ++ b.handler ++ " = (e) => \x7b ... \x7d"]

/-- The warnings about handlers that are not functions of the component. -/
def handlerWarnings (c : Component) (events : List Markup.EventBinding) : List Diagnostic :=
  (events.filter (!isDeclared c ·)).map (handlerWarning c)

/-! ## The whole -/

/-- The function that sets the page up. -/
def pageLines (c : Component) (definitions : List Definition) (lowered : Lowered) : List Text :=
  ["// Page component: " ++ c.name, "function " ++ pageFunction c.name ++ "() \x7b"] ++
    variableLines c ++ scopeLines c ++ functionLines c ++ componentLines definitions ++
    updateLines c lowered ++ eventLines c lowered.events ++ [("\x7d" : Text), []]

/-- The call of that function. -/
def startLines (c : Component) : List Text :=
  ["document.addEventListener('DOMContentLoaded', () => \x7b", line 1 "MTMRouter.init();",
   line 1 (pageFunction c.name ++ "();"), "\x7d);"]

/-- The program of a page, with or without the library. -/
def program (c : Component) (definitions : List Definition) (withLibrary : Bool)
    (lowered : Lowered) : Text :=
  let library : List Text := if withLibrary then libraryLines ++ [[]] else []
  Text.unlines (library ++ metadataLines c ++ pageLines c definitions lowered ++ startLines c)

end Script

/-- A program and the template it drives. -/
structure Generated where
  /-- The program. -/
  script : Text
  template : Lowered

structure Generation where
  /-- The program, or the numeral that ended the run. -/
  result : Except NumeralTooLong Generated
  notes : List Note
  /-- What is wrong with the template. -/
  warnings : List Diagnostic

/-- What is known of the imports from the source of the page alone. -/
def Component.definitions (c : Component) : List Definition :=
  c.imports.map fun i ↦
    { name := i.name, framework := i.framework, path := i.path, resolved := i.resolved }

def Component.generate (c : Component) (mode : ScriptMode) (definitions : List Definition)
    (withLibrary : Bool) : Generation :=
  let lowering := c.lowerTemplate
  match lowering.result with
  | .error e => ⟨.error e, lowering.notes, lowering.warnings⟩
  | .ok lowered =>
    let script := Script.program c definitions withLibrary lowered
    let handlers := Script.handlerWarnings c lowered.events
    { result := .ok ⟨script, lowered⟩
      notes := lowering.notes ++ handlers.map (fun d ↦ Lowering.warningNote c d.message) ++
        [.debug (c.file ++ ": generated " ++ Numeral.ofNat script.length ++
          " bytes of JavaScript (" ++ mode.label ++ ")")]
      warnings := lowering.warnings ++ handlers }

end PageCompiler
