import PageCompiler.Document
import PageCompiler.Import.Resolution
import PageCompiler.Property.Extract
import PageCompiler.Route.Registry
import PageCompiler.Script.Program

/-!
# Compiling a page

From the source of a page to its document and its script. The steps come in a fixed order: the
metadata is checked, the component is read and its imports are looked for, the route is claimed, the
script mode is chosen, the program is generated and the document is rendered.

A page that is rejected leaves the registry of routes as it was. Only what no page should hold ends
a run after the route was claimed: a numeral that is too long to be read, or the name of a package
that is too long to be a path.
-/

namespace PageCompiler

structure CompileOptions where
  /-- What the build asks for when a page does not name a script mode. -/
  preference : ScriptMode.Preference := {}
  /-- Whether the program carries its library. -/
  withLibrary : Bool := true
  /-- Whether imports are looked for. -/
  resolveImports : Bool := false
  /-- The directory that aliases and absolute imports start from. -/
  base : Text := "."
  aliases : OrderedMap (List Text) := []
  /-- Whether an import that is not found rejects the page. -/
  strictImports : Bool := true

structure Compiled where
  /-- The name of the source. -/
  file : Text
  /-- The tokens of the source. -/
  tokens : List Source.Token
  /-- What the source declares. -/
  component : Component
  /-- Where the script goes. -/
  mode : ScriptMode
  /-- The program. -/
  script : Text
  /-- The template the program drives. -/
  template : Lowered
  /-- The document. -/
  html : Text
  /-- The file name of the document. -/
  outputName : Text
  /-- What is wrong with the page but does not reject it. -/
  warnings : List Diagnostic

namespace Compiled

/-- The script file, if the script has one. -/
def externalFile? (page : Compiled) : Option Text :=
  if page.mode.isInline then none else page.mode.file

/-- The artifacts with their contents, the document first. -/
def artifacts (page : Compiled) : List (Text × Text) :=
  (page.outputName, page.html) :: page.externalFile?.toList.map fun name ↦ (name, page.script)

/-- The names of the artifacts below the output directory. -/
def artifactNames (page : Compiled) : List Text :=
  page.artifacts.map fun (name, _) ↦ (Path.ofText name).toText

end Compiled

inductive CompileError where
  /-- There is a problem with the page. -/
  | rejected (d : Diagnostic)
  /-- A numeral of a condition is too long to be read. -/
  | numeral (e : NumeralTooLong)
  /-- The path of an import could not be asked about. -/
  | file (e : FileError)
  deriving DecidableEq, Repr

structure CompileOutcome where
  /-- The page, or why there is none. -/
  result : Except CompileError Compiled
  /-- The claimed routes afterwards. -/
  registry : Route.Registry
  notes : List Note

namespace CompileOptions

/-- Looks for the imports of a file. -/
def locator (options : CompileOptions) (tree : FileTree) (file : Text) :
    Source.Locator CompileError :=
  let rules := ImportRules.standard (Path.ofText options.base) options.aliases
  fun path line ↦
    if !options.resolveImports then { found := .ok none }
    else
      match rules.resolve tree path file with
      | .error e => { found := .error (.file e) }
      | .ok (.missing searched) =>
        let problem : Diagnostic :=
          { cause := .importMissing path searched, file := some file, line := some line }
        if options.strictImports then { found := .error (.rejected problem) }
        else
          { found := .ok none
            notes := [.warning (file ++ ":" ++ Numeral.ofInt line ++
              ": cannot resolve import " ++ Text.quoted path)]
            warnings := [{ problem with severity := .warning }] }
      | .ok resolution => { found := .ok resolution.found?, notes := resolution.notesOn path }

end CompileOptions

namespace Compile

/-! ## Imported components -/

/-- What a file says about the component of an import. A file that cannot be read says nothing. -/
def importedProperties (tree : FileTree) (i : Import) : Noted FileError (List Property) :=
  match i.resolved with
  | none | some [] => (.ok [], [])
  | some path =>
    match tree.askFile (Path.ofText path) with
    | .error e => (.error e, [])
    | .ok false => (.ok [], [])
    | .ok true =>
      match tree.readText (Path.ofText path) with
      | .ok source => (.ok (i.framework.properties source), [])
      | .error e =>
        (.ok [], [.debug ("Could not read " ++ path ++ " for props: " ++ e.message)])

/-- What is known of an import from its file. -/
def definition (tree : FileTree) (i : Import) : Noted FileError Definition :=
  let (known, notes) := importedProperties tree i
  (known.map fun properties ↦
    { name := i.name, framework := i.framework, path := i.path, resolved := i.resolved
      properties }, notes)

/-- What is known of the imports of a component from their files. -/
def definitions (tree : FileTree) (c : Component) : Noted FileError (List Definition) :=
  Noted.each (definition tree) c.imports

/-! ## Routes -/

/-- Claims the route of a component, if it has one, and gives the registry after it. -/
def claimRoute (registry : Route.Registry) (c : Component) :
    Except Diagnostic (List Note) × Route.Registry :=
  match c.route? with
  | none => (.ok [], registry)
  | some route =>
    let (claim, after) := registry.register route c.file
    (claim.map registry.notesOn, after)

/-! ## The whole -/

/-- The page of a component in a script mode, given what is known of its imports. -/
def generate (options : CompileOptions) (tokens : List Source.Token) (warnings : List Diagnostic)
    (c : Component) (mode : ScriptMode) (known : List Definition) : Noted CompileError Compiled :=
  let generation := c.generate mode known options.withLibrary
  match generation.result with
  | .error e => (.error (.numeral e), generation.notes)
  | .ok generated =>
    let page : Compiled :=
      { file := c.file, tokens, component := c, mode, script := generated.script
        template := generated.template
        html := Document.render c.fields generated.template.html (mode.scriptTag generated.script)
        outputName := Document.fileName c.route?
        warnings := warnings ++ generation.warnings }
    (.ok page, generation.notes ++ [.info ("Compiled " ++ c.file ++ " (" ++ mode.label ++ ", " ++
      Numeral.ofNat page.warnings.length ++ " warnings)")])

/-- The page of a component in a script mode. -/
def finish (options : CompileOptions) (tree : FileTree) (tokens : List Source.Token)
    (warnings : List Diagnostic) (c : Component) (mode : ScriptMode) :
    Noted CompileError Compiled :=
  match definitions tree c with
  | (.error e, notes) => (.error (.file e), notes)
  | (.ok known, notes) =>
    let (result, more) := generate options tokens warnings c mode known
    (result, notes ++ more)

/-- Compiles the component of a source that was read. -/
def component (options : CompileOptions) (tree : FileTree) (registry : Route.Registry)
    (reading : Reading CompileError) (c : Component) : CompileOutcome :=
  match claimRoute registry c with
  | (.error d, refused) => ⟨.error (.rejected d), refused, reading.notes⟩
  | (.ok routeNotes, claimed) =>
    match ScriptMode.choose c.fields options.preference c.name (some c.file) with
    | .error d => ⟨.error (.rejected d), claimed, reading.notes ++ routeNotes⟩
    | .ok mode =>
      let (result, notes) := finish options tree reading.tokens reading.warnings c mode
      ⟨result, claimed, reading.notes ++ routeNotes ++ notes⟩

def source (options : CompileOptions) (tree : FileTree) (registry : Route.Registry)
    (file source : Text) : CompileOutcome :=
  let parts := FrontMatter.extract source
  let outcome : CompileOutcome :=
    match parts.fields.problems (some file) with
    | d :: _ => ⟨.error (.rejected d), registry, []⟩
    | [] =>
      let reading := Component.read file (options.locator tree file) parts
      match reading.component with
      | .error e => ⟨.error e, registry, reading.notes⟩
      | .ok c => component options tree registry reading c
  { outcome with notes := parts.notes ++ outcome.notes }

end Compile

/-! ## Files -/

inductive PageError where
  | missing (path : Text)
  | unreadable (e : ReadError)
  | compile (e : CompileError)
  | unwritable (e : FileError)
  deriving DecidableEq, Repr

def Compile.file (options : CompileOptions) (tree : FileTree) (path : Text) :
    Noted PageError Compiled :=
  let place := Path.ofText path
  match tree.readText place with
  | .error e => (.error (if e.isAbsence then .missing path else .unreadable e), [])
  | .ok text =>
    let outcome := Compile.source options tree {} place.toText text
    (outcome.result.mapError .compile, outcome.notes)

/-- Writes one artifact below a directory, making directories as needed. What was made before a
failure stays. -/
def FileTree.writeArtifact (tree : FileTree) (directory : Path) (name content : Text) :
    FileTree × Except FileError Path :=
  let path := directory.appendText name
  match tree.makeDirectories path.parent with
  | (made, some e) => (made, .error e)
  | (made, none) =>
    match made.writeText path content with
    | .error e => (made, .error e)
    | .ok written => (written, .ok path)

/-- Writes artifacts below a directory, up to the first that cannot be written. -/
def FileTree.writeArtifacts (tree : FileTree) (directory : Path) :
    List (Text × Text) → FileTree × Except FileError (List Path)
  | [] => (tree, .ok [])
  | (name, content) :: rest =>
    match tree.writeArtifact directory name content with
    | (after, .error e) => (after, .error e)
    | (after, .ok path) =>
      let (last, paths) := after.writeArtifacts directory rest
      (last, paths.map (path :: ·))

def Compiled.write (page : Compiled) (directory : Path) (tree : FileTree) :
    FileTree × Except FileError (List Path) :=
  tree.writeArtifacts directory page.artifacts

def writtenNotes (paths : List Path) : List Note :=
  paths.map fun path ↦ .debug ("Wrote " ++ path.toText)

/-- The problem with writing the artifacts of a page that was not compiled. -/
def nothingToWrite (file : Text) : Diagnostic :=
  .general "cannot write artifacts for a failed compilation" (some file) []

end PageCompiler
