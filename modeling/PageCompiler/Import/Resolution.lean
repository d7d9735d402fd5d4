import PageCompiler.Diagnostic
import PageCompiler.Files.Tree
import PageCompiler.Note
import PageCompiler.OrderedMap

/-!
# Resolving imports

The file that an import stands for. The way the path of the import is written decides where to look:

* `./` or `../`: in the directory of the importing file;
* an alias: at the targets of the first alias that matches, below the base directory;
* `/`: below the base directory;
* anything else is the name of a package, which is not looked for.

At every place the path itself is tried first, then the path with each known extension, then an
index file in the directory of that name. The first of these candidates that is a file is taken. A
candidate before it whose path is too long to ask about ends the search.
-/

namespace PageCompiler

/-- Where imports are looked for. -/
structure ImportRules where
  /-- The directory that aliases and absolute imports start from. -/
  base : Path := {}
  /-- The aliases, tried in order, with their targets. An asterisk at the end of an alias matches
  anything, which then stands for every asterisk of the targets. -/
  aliases : OrderedMap (List Text)
  /-- The extensions, tried in order. -/
  extensions : List Text

/-- What became of an import. -/
inductive Resolution where
  /-- It is the name of a package. -/
  | package (name : Text)
  /-- It stands for a file, the last of the paths that were tried. -/
  | file (path : Text) (searched : List Text)
  /-- None of the paths that were tried is a file. -/
  | missing (searched : List Text)
  deriving DecidableEq, Repr

namespace Resolution

/-- What an import stands for, if anything. -/
def found? : Resolution → Option Text
  | package name => some name
  | file path _ => some path
  | missing _ => none

/-- The paths that were tried, in order. -/
def searched : Resolution → List Text
  | package _ => []
  | file _ searched => searched
  | missing searched => searched

def isPackage : Resolution → Bool
  | package _ => true
  | _ => false

end Resolution

/-- Why an import that has to be found was not. -/
inductive ImportError where
  /-- None of the paths that were tried is a file. -/
  | missing (d : Diagnostic)
  | file (e : FileError)
  deriving DecidableEq, Repr

namespace ImportRules

def defaultExtensions : List Text :=
  List.map String.toList [".tsx", ".ts", ".jsx", ".js", ".vue", ".svelte", ".mtm"]

/-- The aliases of the usual layout of a project. -/
def defaultAliases : OrderedMap (List Text) :=
  [("@components/*", ["src/components/*", "components/*"]),
   ("@pages/*", ["src/pages/*", "pages/*"]),
   ("@utils/*", ["src/utils/*", "utils/*"]),
   ("@/*", ["src/*"])]

/-- The rules for a base directory and further aliases, which come before the default ones and
replace those of the same name. -/
def standard (base : Path) (aliases : OrderedMap (List Text)) : ImportRules where
  base := base
  aliases :=
    defaultAliases.foldl (fun m (pattern, targets) ↦ OrderedMap.putNew pattern targets m) aliases
  extensions := defaultExtensions

/-- Whether an import is relative to the importing file. -/
def isRelative (path : Text) : Bool := Text.startsWith path "./" || Text.startsWith path "../"

/-- What the asterisk of an alias stands for, when the alias matches a path. An alias without one
matches only itself. -/
def capture? (pattern path : Text) : Option Text :=
  match Text.before? ['*'] pattern with
  | some start => Text.after? start path
  | none => if path = pattern then some [] else none

/-- The targets of the first alias that matches a path. -/
def aliasTargets? (aliases : OrderedMap (List Text)) (path : Text) : Option (List Text) :=
  aliases.findSome? fun (pattern, targets) ↦
    (capture? pattern path).map fun captured ↦ targets.map (Text.replace ['*'] captured)

/-- The places where an import of a file is looked for; none for the name of a package. -/
def places? (rules : ImportRules) (path file : Text) : Option (List Path) :=
  if isRelative path then
    let directory := if file.isEmpty then rules.base else (Path.ofText file).parent
    some [directory.appendText path]
  else
    match aliasTargets? rules.aliases path with
    | some targets => some (targets.map rules.base.appendText)
    | none =>
      if Text.startsWith path "/" then some [rules.base.appendText (path.dropWhile (· == '/'))]
      else none

def candidatesAt (rules : ImportRules) (place : Path) : List Path :=
  place :: (rules.extensions.map fun extension ↦ Path.ofText (place.toText ++ extension)) ++
    rules.extensions.map fun extension ↦ place.appendText ("index" ++ extension)

/-- The first candidate that is a file, and the candidates that were tried: those up to it, or
all. -/
def search (tree : FileTree) : List Path → Except FileError (Option Text × List Text)
  | [] => .ok (none, [])
  | candidate :: rest =>
    let tried := candidate.toText
    match tree.askFile candidate with
    | .error e => .error e
    | .ok true => .ok (some tried, [tried])
    | .ok false => (search tree rest).map fun (found, searched) ↦ (found, tried :: searched)

/-- What became of an import after a search. -/
def conclude : Option Text × List Text → Resolution
  | (some found, searched) => .file found searched
  | (none, searched) => .missing searched

def resolve (rules : ImportRules) (tree : FileTree) (path file : Text) :
    Except FileError Resolution :=
  match rules.places? path file with
  | none => .ok (.package path)
  | some places => (search tree (places.flatMap rules.candidatesAt)).map conclude

/-- Resolves an import that has to be found. -/
def require (rules : ImportRules) (tree : FileTree) (path file : Text) (line : Option Int) :
    Except ImportError Resolution :=
  match rules.resolve tree path file with
  | .error e => .error (.file e)
  | .ok (.missing searched) =>
    .error (.missing
      { cause := .importMissing path searched
        file := if file.isEmpty then none else some file
        line := line })
  | .ok resolution => .ok resolution

end ImportRules

/-- What there is to say about the resolution of an import. -/
def Resolution.notesOn (path : Text) (resolution : Resolution) : List Note :=
  let kind : List Note :=
    if resolution.isPackage then
      [.debug ("Treating " ++ Text.quoted path ++ " as a package import")]
    else []
  kind ++ resolution.found?.toList.map fun found ↦
    .debug ("Resolved " ++ Text.quoted path ++ " -> " ++ found)

end PageCompiler
