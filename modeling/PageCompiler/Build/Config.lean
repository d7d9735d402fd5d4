import PageCompiler.Compile

/-!
# Build configuration

What a build is told besides its files. The environment may name the directories, the kind of build
and the number of workers; values that make no sense are passed over.
-/

namespace PageCompiler

structure BuildConfig where
  /-- The directory that is searched for sources. -/
  sourceDirectory : Path := Path.ofText "src/pages"
  /-- The directory that artifacts are written to. -/
  outputDirectory : Path := Path.ofText "dist"
  production : Bool := false
  /-- The number of workers, if it is fixed. -/
  workers : Option Int := none
  /-- Whether imports are looked for. -/
  resolveImports : Bool := false
  /-- The directory that aliases and absolute imports start from. -/
  base : Path := {}
  aliases : OrderedMap (List Text) := []
  extensions : List Text := [".mtm"]

namespace BuildConfig

def development (config : BuildConfig) : Bool := !config.production

def kindLabel (config : BuildConfig) : Text :=
  if config.production then "production" else "development"

/-- A variable of the environment that has a value. -/
def named? (environment : OrderedMap Text) (name : Text) : Option Text :=
  (OrderedMap.get? environment name).filter (!·.isEmpty)

/-- The kind of build that a word names. -/
def production? (word : Text) : Option Bool :=
  if word = ("production" : Text) then some true
  else if word = ("development" : Text) then some false
  else none

/-- The number of workers that a text stands for. -/
def workers? (t : Text) : Option Int := (Numeral.toInt? t).filter (0 < ·)

def ofEnvironment (environment : OrderedMap Text) : BuildConfig :=
  let standard : BuildConfig := {}
  { standard with
    sourceDirectory :=
      ((named? environment "MTM_SOURCE_DIR").map Path.ofText).getD standard.sourceDirectory
    outputDirectory :=
      ((named? environment "MTM_OUTPUT_DIR").map Path.ofText).getD standard.outputDirectory
    production :=
      ((named? environment "MTM_BUILD_MODE").bind production?).getD standard.production
    workers := (named? environment "MTM_MAX_WORKERS").bind workers? }

/-- How the pages of a build are compiled. -/
def options (config : BuildConfig) : CompileOptions :=
  { preference := ⟨config.development, config.production⟩
    resolveImports := config.resolveImports
    base := config.base.toText
    aliases := config.aliases }

end BuildConfig

end PageCompiler
