import PageCompiler.CommandLine.Outcome
import PageCompiler.Component.Outline

/-!
# The page command

Compiles one source and writes its artifacts, or prints its tokens or its outline.
-/

namespace PageCompiler

namespace CommandLine

def pageCommand : Command where
  name := "mtmc"
  operands := "INPUT_FILE"
  spellings :=
    [⟨"-o", .outputDirectory, .value⟩, ⟨"--output-dir", .outputDirectory, .value⟩,
     ⟨"--production", .production, .on⟩, ⟨"--development", .production, .off⟩,
     ⟨"--resolve-imports", .resolveImports, .on⟩, ⟨"--tokens", .tokens, .on⟩,
     ⟨"--ast", .outline, .on⟩, ⟨"-v", .verbose, .on⟩, ⟨"--verbose", .verbose, .on⟩,
     ⟨"--version", .version, .on⟩, ⟨"--help", .help, .on⟩]

/-- What the page command is asked to do. -/
structure PageSettings where
  /-- The source. -/
  input : Path
  /-- The directory that artifacts are written to. -/
  outputDirectory : Path
  production : Bool
  /-- Whether imports are looked for. -/
  resolveImports : Bool
  tokens : Bool
  outline : Bool
  /-- Whether everything there is to say is printed. -/
  verbose : Bool

namespace PageSettings

/-- Checks that the operand is a file. -/
def checkInput (tree : FileTree) (input : Text) : Except UsageError Unit :=
  let invalid (reason : Text) : Except UsageError Unit :=
    .error (.valueInvalid (Text.quoted pageCommand.operands)
      ("File " ++ Text.quoted input ++ " " ++ reason))
  match tree.findText? input with
  | none => invalid "does not exist."
  | some .directory => invalid "is a directory."
  | some (.file _) => .ok ()

def ofArguments (tree : FileTree) (arguments : Arguments) : Except UsageError PageSettings :=
  match arguments.operands with
  | [] => .error (.operandMissing pageCommand.operands)
  | input :: left =>
    match checkInput tree input with
    | .error e => .error e
    | .ok _ =>
      if !left.isEmpty then .error (.operandsLeft left)
      else
        .ok
          { input := Path.ofText input
            outputDirectory := Path.ofText ((arguments.value? .outputDirectory).getD "dist")
            production := arguments.isOn .production
            resolveImports := arguments.isOn .resolveImports
            tokens := arguments.isOn .tokens
            outline := arguments.isOn .outline
            verbose := arguments.isOn .verbose }

def options (s : PageSettings) (tree : FileTree) : CompileOptions :=
  { preference := ⟨!s.production, s.production⟩
    resolveImports := s.resolveImports
    base := (⟨['/'], tree.cwd⟩ : Path).toText }

/-- The lines that come first. -/
def heading (s : PageSettings) : List Text :=
  let kind : Text := if s.production then "production" else "development"
  if s.verbose then ["Compiling " ++ s.input.toText ++ "...", "Build mode: " ++ kind] else []

/-- The route of a page as it is shown. -/
def routeLabel (page : Compiled) : Text :=
  match page.component.route? with
  | none | some [] => "(none)"
  | some route => route

def writtenLines (written : List Path) : List Text :=
  written.map fun path ↦ "Wrote " ++ path.toText

/-- The lines about a page that was written. -/
def details (s : PageSettings) (page : Compiled) (written : List Path) : List Text :=
  if s.verbose then
    ["Route: " ++ routeLabel page, "Script mode: " ++ page.mode.label,
     "Tokenized: " ++ Numeral.ofNat page.tokens.length ++ " tokens"] ++ writtenLines written
  else []

def closing (s : PageSettings) (written : List Path) : List Text :=
  written.head?.toList.map fun path ↦ "Compiled " ++ s.input.toText ++ " -> " ++ path.toText

/-- What begins messages about failures. -/
def activity : Text := "Compilation"

def write (s : PageSettings) (outcome : Outcome) (page : Compiled) : Outcome :=
  match page.write s.outputDirectory outcome.tree with
  | (tree, .error e) => { outcome with tree }.fail (some activity) (Failure.ofFileError e)
  | (tree, .ok written) =>
    let told := { outcome with tree }.record s.verbose (writtenNotes written)
    (told.complain (page.warnings.map Diagnostic.report)).say
      (s.details page written ++ s.closing written)

/-- Compiles the page and does with it what is asked. -/
def run (s : PageSettings) (tree : FileTree) : Outcome :=
  let (result, notes) := Compile.file (s.options tree) tree s.input.toText
  let outcome := (({ tree } : Outcome).say s.heading).record s.verbose notes
  match result with
  | .error e => outcome.fail (some activity) (Failure.ofPageError e)
  | .ok page =>
    if s.tokens then outcome.say (page.tokens.map (·.shown))
    else if s.outline then outcome.say [page.component.outline]
    else s.write outcome page

end PageSettings

def runPageCommand (tree : FileTree) (arguments : List Text) : Outcome :=
  pageCommand.invoke tree arguments (PageSettings.ofArguments tree) (·.run tree)

end CommandLine

end PageCompiler
