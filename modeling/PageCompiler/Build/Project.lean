import PageCompiler.Build.Config
import PageCompiler.Build.Dependencies
import PageCompiler.Build.Schedule

/-!
# Building a project

Compiles many files as one build. The files share one registry of routes, and every artifact belongs
to the first file that produces it: a later file that produces it too fails and writes nothing. A
file that fails does not stop the build. Everything that is wrong is collected.

Files are compiled in batches. A batch is everything that is ready; it is compiled in order and then
recorded in order, and what recording makes ready is the next batch.
-/

namespace PageCompiler

/-- What became of a file of a build. -/
structure FileResult where
  file : Text
  /-- The page, if the source compiled. -/
  page : Option Compiled := none
  /-- What made it fail. -/
  errors : List Diagnostic := []

namespace FileResult

def success (r : FileResult) : Bool := r.page.isSome && r.errors.isEmpty

/-- The names of the artifacts of a file; a file that did not compile would have a document. -/
def artifactNames (r : FileResult) : List Text :=
  (r.page.map Compiled.artifactNames).getD [Document.fileName none]

/-- The warnings about a file. -/
def warnings (r : FileResult) : List Diagnostic := (r.page.map Compiled.warnings).getD []

end FileResult

/-- Why a build was given up. -/
inductive BuildError where
  | noWorkers
  /-- A numeral of a condition is too long to be read. -/
  | numeral (e : NumeralTooLong)
  /-- What a source, an artifact or an import is called by is not a path, or not one that can be
  asked about. -/
  | path (e : FileError)
  deriving DecidableEq, Repr

def BuildError.message : BuildError → Text
  | .noWorkers => "max_workers must be greater than 0"
  | .numeral e => e.message
  | .path e => e.message

/-- A build as far as it has come. -/
structure Build where
  tree : FileTree
  /-- The progress through the sources. -/
  schedule : Schedule := {}
  registry : Route.Registry := {}
  /-- What became of the files that are recorded, in that order. -/
  results : OrderedMap FileResult := []
  /-- Everything that is wrong. -/
  findings : Findings := {}
  /-- The artifacts, each with the file that owns it. -/
  outputs : OrderedMap Text := []
  written : List Path := []
  notes : List Note := []
  /-- Why the build was given up, if it was. -/
  failure : Option BuildError := none

namespace Build

/-! ## Sources -/

/-- The error about a source that cannot be read. -/
def unreadable (file : Text) (e : ReadError) : Diagnostic :=
  .general ("cannot read source file: " ++ e.message) (some file)
    ["Check that the file exists and is UTF-8 text"]

/-- Reads a source, or records that it cannot be read. A path that is none gives the build up. -/
def readSource (state : Build × OrderedMap Text) (path : Path) : Build × OrderedMap Text :=
  let (b, sources) := state
  let file := path.toText
  match b.tree.readText path with
  | .ok source => (b, OrderedMap.put file source sources)
  | .error (.file ⟨.nullCharacter, place⟩) =>
    ({ b with failure := some (.path ⟨.nullCharacter, place⟩) }, sources)
  | .error e =>
    let problem := unreadable file e
    ({ b with
        findings := b.findings.add problem
        results := OrderedMap.put file { file, errors := [problem] } b.results }, sources)

/-! ## Recording -/

/-- Adds a note. -/
def say (b : Build) (note : Note) : Build := { b with notes := b.notes ++ [note] }

def errorNote (file : Text) (d : Diagnostic) : Note := .error (file ++ ": " ++ d.message)

/-- Records that a file failed, whether it compiled or not. -/
def fail (b : Build) (file : Text) (page : Option Compiled) (d : Diagnostic) : Build :=
  { b with
    results := OrderedMap.put file { file, page, errors := [d] } b.results
    findings := b.findings.add d
    notes := b.notes ++ [errorNote file d] }

/-- The first artifact of a page that another file owns, with its owner. -/
def clash? (b : Build) (page : Compiled) : Option (Text × Text) :=
  page.artifactNames.findSome? fun name ↦
    match OrderedMap.get? b.outputs name with
    | some owner => if owner = page.file then none else some (name, owner)
    | none => none

/-- The error about an artifact that another file owns. -/
def clashError (file name owner : Text) : Diagnostic :=
  .general ("output file '" ++ name ++ "' is already produced by " ++ owner) (some file)
    ["Give each page a distinct route",
     "Name each component with 'export default function' or set compileJsMode"]

/-- The error about an artifact that cannot be written. -/
def writeError (file : Text) (directory : Path) (e : FileError) : Diagnostic :=
  .general ("cannot write output: " ++ e.message) (some file)
    ["Check that " ++ directory.toText ++ " is writable"]

/-- Gives the artifacts of a page to its file. -/
def own (b : Build) (page : Compiled) : Build :=
  let owned := page.artifactNames.foldl (fun m name ↦ OrderedMap.put name page.file m) b.outputs
  { b with outputs := owned }

/-- Writes the artifacts of a page. A path that is none gives the build up. -/
def writePage (b : Build) (directory : Path) (page : Compiled) : Build :=
  match page.write directory b.tree with
  | (tree, .ok paths) =>
    { b with tree, written := b.written ++ paths, notes := b.notes ++ writtenNotes paths }
  | (tree, .error e) =>
    if e.fault = .nullCharacter then { b with tree, failure := some (.path e) }
    else { b with tree }.fail page.file (some page) (writeError page.file directory e)

/-- Takes a page that compiled, with its warnings. -/
def collect (b : Build) (page : Compiled) : Build :=
  { b with
    results := OrderedMap.put page.file { file := page.file, page := some page } b.results
    findings := b.findings.addAll page.warnings }

def recordPage (config : BuildConfig) (write : Bool) (b : Build) (page : Compiled) : Build :=
  let collected := b.collect page
  match collected.clash? page with
  | some (name, owner) => collected.fail page.file (some page) (clashError page.file name owner)
  | none =>
    let owned := collected.own page
    if write then owned.writePage config.outputDirectory page else owned

/-- Records what came of compiling a file. A numeral that cannot be read gives the build up, and so
does a path that is none. -/
def record (config : BuildConfig) (write : Bool) (b : Build) (file : Text)
    (result : Except CompileError Compiled) : Build :=
  match result with
  | .ok page => recordPage config write b page
  | .error (.rejected d) => b.fail file none d
  | .error (.numeral e) => { b with failure := some (.numeral e) }
  | .error (.file e) => { b with failure := some (.path e) }

/-- Records what came of compiling a file and, unless the build is given up over it, lets the files
go on that waited for this one. -/
def recordNext (config : BuildConfig) (write : Bool) (g : ImportGraph) (b : Build) (file : Text)
    (result : Except CompileError Compiled) : Build :=
  let after := record config write b file result
  if after.failure.isSome then after
  else { after with schedule := after.schedule.record g file }

/-- Records the files of a batch in order, unless the build is given up. -/
def recordAll (config : BuildConfig) (write : Bool) (g : ImportGraph) (b : Build) :
    List (Text × Except CompileError Compiled) → Build
  | [] => b
  | (file, result) :: rest =>
    let after := recordNext config write g b file result
    if after.failure.isSome then after else recordAll config write g after rest

/-! ## Compiling -/

def compileOne (config : BuildConfig) (sources : OrderedMap Text) (b : Build) (file : Text) :
    Build × Except CompileError Compiled :=
  let source := (OrderedMap.get? sources file).getD []
  let outcome := Compile.source config.options b.tree b.registry file source
  ({ b with registry := outcome.registry, notes := b.notes ++ outcome.notes }, outcome.result)

/-- Compiles the files of a batch in order. -/
def compileAll (config : BuildConfig) (sources : OrderedMap Text) (b : Build) :
    List Text → Build × List (Text × Except CompileError Compiled)
  | [] => (b, [])
  | file :: rest =>
    let (after, result) := compileOne config sources b file
    let (last, results) := compileAll config sources after rest
    (last, (file, result) :: results)

/-- Compiles and records all ready files. -/
def batch (config : BuildConfig) (write : Bool) (g : ImportGraph) (sources : OrderedMap Text)
    (b : Build) : Build :=
  let ready := b.schedule.ready
  let (compiled, results) :=
    compileAll config sources { b with schedule := b.schedule.submit } ready
  recordAll config write g compiled results

/-- Goes on batch by batch, at most `fuel` times, until nothing is ready or the build is given
up. -/
def batches (config : BuildConfig) (write : Bool) (g : ImportGraph) (sources : OrderedMap Text) :
    (fuel : Nat) → Build → Build
  | 0, b => b
  | fuel + 1, b =>
    if b.schedule.ready.isEmpty || b.failure.isSome then b
    else batches config write g sources fuel (b.batch config write g sources)

/-! ## Results -/

def succeeded (b : Build) : List Text :=
  (b.results.filter fun (_, r) ↦ r.success).map Prod.fst

def failed (b : Build) : List Text :=
  (b.results.filter fun (_, r) ↦ !r.success).map Prod.fst

/-- Whether nothing is wrong but warnings. -/
def success (b : Build) : Bool := b.failed.isEmpty && b.findings.errors.isEmpty

/-- The routes of the build with the files that own them. -/
def routes (b : Build) : List (Text × Text) := b.registry.entries.map fun e ↦ (e.path, e.file)

/-- The counts of a build and everything that is wrong, for other programs to read. -/
def summary (b : Build) : List (Text × Json) :=
  let owners := b.routes.map fun (path, file) ↦ (path, Json.text file)
  let counts : List (Text × Json) :=
    [("files", .int b.results.length), ("succeeded", .int b.succeeded.length),
     ("failed", .int b.failed.length), ("routes", .object owners)]
  counts ++ b.findings.summary

/-! ## The whole -/

def cycleNotes (cycles : List (List Text)) : List Note :=
  cycles.map fun cycle ↦ .warning (ImportGraph.cycleMessage cycle)

def startNote (config : BuildConfig) (sources : OrderedMap Text) : Note :=
  .info ("Building " ++ Numeral.ofNat sources.length ++ " files (" ++ config.kindLabel ++ ")")

def endNote (b : Build) : Note :=
  .info ("Build finished: " ++ Numeral.ofNat b.succeeded.length ++ " succeeded, " ++
    Numeral.ofNat b.failed.length ++ " failed, " ++ Numeral.ofNat b.findings.warnings.length ++
    " warnings")

/-- Puts a build before its first batch, given the imports that are kept and the cycles that were
dropped. -/
def prepare (config : BuildConfig) (sources : OrderedMap Text) (g : ImportGraph)
    (cycles : List (List Text)) (b : Build) : Build :=
  { b with
    schedule := .start g
    findings := b.findings.addAll (cycles.map ImportGraph.cycleWarning)
    notes := b.notes ++ cycleNotes cycles ++ [startNote config sources] }

/-- Builds the sources that could be read, given which import which. -/
def runGraph (config : BuildConfig) (write : Bool) (b : Build) (sources : OrderedMap Text)
    (graph : ImportGraph) : Build :=
  let (g, cycles) := graph.untangle
  let prepared := prepare config sources g cycles b
  if config.workers.any (· ≤ 0) then { prepared with failure := some .noWorkers }
  else
    let done := batches config write g sources sources.length prepared
    if done.failure.isSome then done else done.say done.endNote

/-- Builds the sources that could be read. -/
def runSources (config : BuildConfig) (write : Bool) (b : Build) (sources : OrderedMap Text) :
    Build :=
  let rules := ImportRules.standard config.base config.aliases
  let (found, notes) := Dependencies.graph rules b.tree sources
  let noted : Build := { b with notes := b.notes ++ notes }
  match found with
  | .error e => { noted with failure := some (.path e) }
  | .ok graph => noted.runGraph config write sources graph

/-- Builds files, writing their artifacts if asked to. -/
def run (config : BuildConfig) (write : Bool) (tree : FileTree) (files : List Path) : Build :=
  let (b, sources) := files.foldl readSource ({ tree }, [])
  if b.failure.isSome then b else runSources config write b sources

end Build

end PageCompiler
