import PageCompiler.Build.Graph
import PageCompiler.Component
import PageCompiler.Import.Resolution

/-!
# Dependencies of a build

Which files of a build import which other files of it, found by scanning their sources for imports
and resolving them. Only imports that lead to another file of the same build count. A path that
cannot be asked about ends the search.
-/

namespace PageCompiler

/-- The imports of a source, with their lines. -/
def scanImports (source : Text) : List (Text × Int) :=
  let parts := FrontMatter.extract source
  (Source.tokensOf (Source.scan parts.bodyOffset parts.body)).filterMap fun token ↦
    match token.declaration with
    | .imported _ path _ => some (path, token.line)
    | _ => none

/-- The notes made while a source is searched for imports. -/
def scanNotes (file source : Text) : List Note :=
  let parts := FrontMatter.extract source
  let locator : Source.Locator Empty := Source.noLookup
  parts.notes ++ (Source.tokenize file parts.bodyOffset locator parts.body).notes

namespace Dependencies

/-- The file of a build that an import of another file leads to. Of several names of one file the
last one counts. -/
def target? (tree : FileTree) (names : List Text) (file : Text) : Resolution → Option Text
  | .file found _ =>
    let place := Path.absoluteParts tree.cwd (Path.ofText found)
    (names.reverse.find? fun name ↦ Path.absoluteParts tree.cwd (Path.ofText name) == place).filter
      (· != file)
  | _ => none

/-- The file of a build that an import of another file stands for. -/
def ofImport (rules : ImportRules) (tree : FileTree) (names : List Text) (file path : Text) :
    Noted FileError (Option Text) :=
  match rules.resolve tree path file with
  | .error e => (.error e, [])
  | .ok resolution => (.ok (target? tree names file resolution), resolution.notesOn path)

/-- The files of a build that a file imports, sorted. -/
def ofFile (rules : ImportRules) (tree : FileTree) (names : List Text) (file source : Text) :
    Noted FileError (List Text) :=
  let (targets, notes) :=
    Noted.each (fun (path, _) ↦ ofImport rules tree names file path) (scanImports source)
  (targets.map fun ts ↦ Text.sort (distinct (ts.filterMap id)), scanNotes file source ++ notes)

/-- Which of the sources import which. A name with a null character in it is no path, and then
nothing can be told. -/
def graph (rules : ImportRules) (tree : FileTree) (sources : OrderedMap Text) :
    Noted FileError ImportGraph :=
  let names := OrderedMap.keys sources
  match names.find? ('\x00' ∈ ·) with
  | some name => (.error ⟨.nullCharacter, name⟩, [])
  | none =>
    Noted.each (fun (file, source) ↦
      let (imported, notes) := ofFile rules tree names file source
      (imported.map (file, ·), notes)) sources

end Dependencies

end PageCompiler
