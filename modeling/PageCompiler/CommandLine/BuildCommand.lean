import PageCompiler.Build.Project
import PageCompiler.CommandLine.Outcome

/-!
# The build command

Builds all sources that its operands stand for, or those of the configured directory.
-/

namespace PageCompiler

namespace CommandLine

def buildCommand : Command where
  name := "mtmbuild"
  operands := "[PATHS]..."
  spellings :=
    [⟨"-o", .outputDirectory, .value⟩, ⟨"--output-dir", .outputDirectory, .value⟩,
     ⟨"--production", .production, .on⟩, ⟨"--development", .production, .off⟩,
     ⟨"-j", .jobs, .value⟩, ⟨"--jobs", .jobs, .value⟩,
     ⟨"--resolve-imports", .resolveImports, .on⟩, ⟨"--dry-run", .dryRun, .on⟩,
     ⟨"--json", .json, .on⟩, ⟨"-v", .verbose, .on⟩, ⟨"--verbose", .verbose, .on⟩,
     ⟨"--version", .version, .on⟩, ⟨"--help", .help, .on⟩]

/-- What the build command is asked to do. -/
structure BuildSettings where
  /-- The files and directories to build; none for the configured directory. -/
  paths : List Path
  config : BuildConfig
  dryRun : Bool
  /-- Whether the summary is printed for other programs. -/
  json : Bool
  /-- Whether everything there is to say is printed. -/
  verbose : Bool

namespace BuildSettings

/-- Checks that an operand exists. -/
def checkPath (tree : FileTree) (path : Text) : Except UsageError Unit :=
  if (tree.findText? path).isSome then .ok ()
  else
    .error (.valueInvalid (Text.quoted buildCommand.operands)
      ("Path " ++ Text.quoted path ++ " does not exist."))

/-- The configuration from the environment, with what the arguments say instead. -/
def configOf (environment : OrderedMap Text) (arguments : Arguments) : BuildConfig :=
  let config := BuildConfig.ofEnvironment environment
  { config with
    outputDirectory :=
      ((arguments.value? .outputDirectory).map Path.ofText).getD config.outputDirectory
    production := (arguments.switch? .production).getD config.production
    workers := ((arguments.value? .jobs).bind Numeral.toInt?).or config.workers
    resolveImports := arguments.isOn .resolveImports }

def ofArguments (tree : FileTree) (environment : OrderedMap Text) (arguments : Arguments) :
    Except UsageError BuildSettings :=
  (arguments.operands.forM (checkPath tree)).map fun _ ↦
    { paths := arguments.operands.map Path.ofText
      config := configOf environment arguments
      dryRun := arguments.isOn .dryRun
      json := arguments.isOn .json
      verbose := arguments.isOn .verbose }

/-- What begins messages about failures. -/
def activity : Text := "Build"

/-- The files and directories to build. -/
def roots (s : BuildSettings) : List Path :=
  if s.paths.isEmpty then [s.config.sourceDirectory] else s.paths

/-- Checks that there is something to build at a path. -/
def checkRoot (tree : FileTree) (root : Path) : Except Failure Unit :=
  match tree.ask root with
  | .error e => .error (.ofFileError e)
  | .ok none => .error (.input ("Source path not found: " ++ root.toText))
  | .ok (some _) => .ok ()

def sources (s : BuildSettings) (tree : FileTree) : Except Failure (List Path) :=
  match s.roots.forM (checkRoot tree) with
  | .error failure => .error failure
  | .ok _ =>
    match Discovery.sources tree s.roots s.config.extensions with
    | .error e => .error (.internal e.message)
    | .ok [] =>
      .error (.input ("no MTM files found in " ++ Text.join ", " (s.roots.map Path.toText)))
    | .ok files => .ok files

/-- The lines that come first. -/
def heading (s : BuildSettings) (files : List Path) : List Text :=
  if s.verbose then
    ["Building " ++ Numeral.ofNat files.length ++ " files (" ++ s.config.kindLabel ++ ")",
     "Output directory: " ++ s.config.outputDirectory.toText]
  else []

/-- The lines about a build that came to its end. -/
def details (s : BuildSettings) (b : Build) : List Text :=
  if s.json then [(Json.object b.summary).write .indented]
  else if s.verbose then b.written.map fun path ↦ "Wrote " ++ path.toText
  else []

/-- The lines about what is wrong. -/
def complaints (s : BuildSettings) (b : Build) : List Text :=
  if s.json || (b.findings.errors.isEmpty && b.findings.warnings.isEmpty) then []
  else [b.findings.report]

/-- The last line of a build without errors. -/
def closing (s : BuildSettings) (b : Build) : List Text :=
  if s.json then []
  else
    ["Built " ++ Numeral.ofNat b.succeeded.length ++ " pages -> " ++
      s.config.outputDirectory.toText]

/-- The last line of a build with errors. -/
def failureLine (b : Build) : Text :=
  "Build failed: " ++ Numeral.ofNat b.failed.length ++ " of " ++ Numeral.ofNat b.results.length ++
    " files failed"

/-- Tells how a build came out. -/
def conclude (s : BuildSettings) (outcome : Outcome) (b : Build) : Outcome :=
  let told := (outcome.say (s.details b)).complain (s.complaints b)
  if b.success then told.say (s.closing b)
  else { told with status := .sourceError }.complain [failureLine b]

def run (s : BuildSettings) (tree : FileTree) : Outcome :=
  match s.sources tree with
  | .error failure => ({ tree } : Outcome).fail (some activity) failure
  | .ok files =>
    let b := Build.run s.config (!s.dryRun) tree files
    let outcome :=
      (({ tree := b.tree } : Outcome).say (s.heading files)).record s.verbose b.notes
    match b.failure with
    | some e => outcome.fail (some activity) (.internal e.message)
    | none => s.conclude outcome b

end BuildSettings

def runBuildCommand (tree : FileTree) (environment : OrderedMap Text) (arguments : List Text) :
    Outcome :=
  buildCommand.invoke tree arguments (BuildSettings.ofArguments tree environment) (·.run tree)

end CommandLine

end PageCompiler
