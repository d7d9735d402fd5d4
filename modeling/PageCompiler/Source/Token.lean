import PageCompiler.Diagnostic
import PageCompiler.Framework
import PageCompiler.Note
import PageCompiler.Source.Line

/-!
# Tokens of a source

The declarations of a source in order, each with the line on which it begins. A function goes on
until a line that is just a closing brace, and a template until a line that ends with the closing
tag; neither nests. A block that is never closed takes all lines to the end.

Scanning goes through the lines once and remembers only the block it is in. It gives the tokens
together with what there is to say about the lines, as one list of events, so that a later pass over
the events sees everything in the order of the source.
-/

namespace PageCompiler

namespace Source

inductive Declaration where
  /-- An import, with the file it was found to stand for. -/
  | imported (name path : Text) (resolved : Option Text)
  /-- A reactive variable and its first value. -/
  | reactive (name expression : Text)
  /-- A computed variable and its value. -/
  | computed (name expression : Text)
  | function (name parameters body : Text)
  /-- The markup of the template. -/
  | template (markup : Text)
  | componentName (name : Text)
  deriving DecidableEq, Repr

/-- A declaration and the line on which it begins. -/
structure Token where
  line : Int
  declaration : Declaration
  deriving DecidableEq, Repr

/-- The framework of an import: that of the file found, or else that of the path as written. -/
def importFramework (path : Text) (resolved : Option Text) : Framework :=
  match resolved with
  | none | some [] => .ofPath path
  | some found => .ofPath found

namespace Token

/-- The word for the kind of a token. -/
def kind (token : Token) : Text :=
  match token.declaration with
  | .imported .. => "IMPORT"
  | .reactive .. => "REACTIVE_VARIABLE"
  | .computed .. => "COMPUTED_VARIABLE"
  | .function .. => "FUNCTION"
  | .template .. => "TEMPLATE"
  | .componentName .. => "COMPONENT_NAME"

/-- What a token is known by: the name it declares, or the markup of a template. -/
def label (token : Token) : Text :=
  match token.declaration with
  | .imported name .. => name
  | .reactive name _ => name
  | .computed name _ => name
  | .function name .. => name
  | .template markup => markup
  | .componentName name => name

/-- A token as listings show it. -/
def shown (token : Token) : Text :=
  "Token(" ++ token.kind ++ ", " ++ Text.quoted (Text.abbreviate 40 37 token.label) ++ ", " ++
    Numeral.ofInt token.line ++ ")"

end Token

/-! ## Scanning -/

/-- Something met while scanning. -/
inductive Event where
  /-- A declaration. -/
  | token (t : Token)
  | unclosedFunction (line : Int) (name : Text)
  | unclosedTemplate (line : Int)
  /-- A line that is not understood. -/
  | skipped (line : Int) (text : Text)
  deriving DecidableEq, Repr

def closesFunction (line : Text) : Bool := Text.trim line == ['\x7d']

def closesTemplate (line : Text) : Bool := Text.endsWith (Text.trimRight line) templateClosing

/-- A text as a single line, or no line when it is blank. -/
def lineUnlessBlank (t : Text) : List Text := if Text.isBlankText t then [] else [t]

/-- The markup before the closing tag of a line. -/
def beforeClosing (line : Text) : Text :=
  (Text.before? templateClosing (Text.trimRight line)).getD []

/-- The block that a line stands in. -/
inductive Block where
  /-- None. -/
  | outside
  /-- A function that began on a line, with the lines of its body so far. -/
  | function (line : Int) (name parameters : Text) (body : List Text)
  /-- A template that began on a line, with its lines so far. -/
  | template (line : Int) (markup : List Text)

/-- The events at the end of the lines: a block that is still open is taken as it is. -/
def Block.finish : Block → List Event
  | .outside => []
  | .function line name parameters body =>
    [.unclosedFunction line name, .token ⟨line, .function name parameters (Text.unlines body)⟩]
  | .template line markup =>
    [.unclosedTemplate line, .token ⟨line, .template (Text.unlines markup)⟩]

/-- The events of one line inside a block or outside of any, and the block after it. -/
def step (number : Int) (block : Block) (line : Text) : List Event × Block :=
  match block with
  | .function start name parameters body =>
    if closesFunction line then
      ([.token ⟨start, .function name parameters (Text.unlines body)⟩], .outside)
    else ([], .function start name parameters (body ++ [line]))
  | .template start markup =>
    if closesTemplate line then
      let whole := markup ++ lineUnlessBlank (beforeClosing line)
      ([.token ⟨start, .template (Text.unlines whole)⟩], .outside)
    else ([], .template start (markup ++ [line]))
  | .outside =>
    match readLine line with
    | .empty => ([], .outside)
    | .imported name path => ([.token ⟨number, .imported name path none⟩], .outside)
    | .reactive name value => ([.token ⟨number, .reactive name value⟩], .outside)
    | .computed name value => ([.token ⟨number, .computed name value⟩], .outside)
    | .componentName name => ([.token ⟨number, .componentName name⟩], .outside)
    | .other => ([.skipped number (Text.trim line)], .outside)
    | .function name parameters rest =>
      match Text.before? ['\x7d'] rest with
      | some body => ([.token ⟨number, .function name parameters (Text.trim body)⟩], .outside)
      | none => ([], .function number name parameters (lineUnlessBlank (Text.trim rest)))
    | .template rest =>
      if closesTemplate rest then
        ([.token ⟨number, .template (Text.trim (beforeClosing rest))⟩], .outside)
      else ([], .template number (lineUnlessBlank rest))

/-- The events of the lines from a line number on. -/
def scanFrom (number : Int) (block : Block) : List Text → List Event
  | [] => block.finish
  | line :: rest =>
    let (events, next) := step number block line
    events ++ scanFrom (number + 1) next rest

/-- The events of a body that `offset` lines precede. -/
def scan (offset : Int) (body : Text) : List Event :=
  scanFrom (offset + 1) .outside (Text.lines body)

def tokensOf (events : List Event) : List Token :=
  events.filterMap fun
    | .token t => some t
    | _ => none

/-! ## Finding the imports -/

/-- What came of looking for the file of an import: the file, if it was looked for and found, or the
problem that ends the run. -/
structure Lookup (E : Type) where
  /-- The file. -/
  found : Except E (Option Text)
  /-- What there is to say about the search. -/
  notes : List Note := []
  /-- What is wrong with the import but does not end the run. -/
  warnings : List Diagnostic := []

/-- Looks for the file of an import on a line. -/
abbrev Locator (E : Type) := (path : Text) → (line : Int) → Lookup E

/-- The locator that never looks. -/
def noLookup {E : Type} : Locator E := fun _ _ ↦ { found := .ok none }

/-- The tokens of a source after its imports were looked for. -/
structure Scanned (E : Type) where
  /-- The tokens, or the problem with an import. -/
  tokens : Except E (List Token)
  /-- What there was to say, in the order of the source. -/
  notes : List Note
  /-- What is wrong with imports but does not end the run. -/
  warnings : List Diagnostic

def Event.notes (file : Text) : Event → List Note
  | .token _ => []
  | .unclosedFunction line name =>
    [.warning (file ++ ":" ++ Numeral.ofInt line ++ ": function $" ++ name ++ " is never closed")]
  | .unclosedTemplate line =>
    [.warning (file ++ ":" ++ Numeral.ofInt line ++ ": <template> is never closed")]
  | .skipped line text =>
    [.debug (file ++ ":" ++ Numeral.ofInt line ++ ": skipping unrecognized line " ++
      Text.quoted text)]

/-- Looks for the imports among the events, in order, and stops at the first problem. -/
def locate {E : Type} (file : Text) (locator : Locator E) : List Event → Scanned E
  | [] => ⟨.ok [], [], []⟩
  | .token ⟨line, .imported name path _⟩ :: rest =>
    let lookup := locator path line
    match lookup.found with
    | .error e => ⟨.error e, lookup.notes, lookup.warnings⟩
    | .ok resolved =>
      let scanned := locate file locator rest
      ⟨scanned.tokens.map (⟨line, .imported name path resolved⟩ :: ·),
        lookup.notes ++ scanned.notes, lookup.warnings ++ scanned.warnings⟩
  | .token t :: rest =>
    let scanned := locate file locator rest
    { scanned with tokens := scanned.tokens.map (t :: ·) }
  | event :: rest =>
    let scanned := locate file locator rest
    { scanned with notes := event.notes file ++ scanned.notes }

/-- The tokens of a body that `offset` lines precede, with its imports looked for. -/
def tokenize {E : Type} (file : Text) (offset : Int) (locator : Locator E) (body : Text) :
    Scanned E :=
  locate file locator (scan offset body)

end Source

end PageCompiler
