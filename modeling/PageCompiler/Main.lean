import PageCompiler.CommandLine.BuildCommand
import PageCompiler.CommandLine.PageCommand

/-!
# The commands as a program

The first argument names the command, and the others are its arguments. The working directory is
read before the command runs, and so are operands outside of it; what the command changed is written
afterwards.
-/

namespace PageCompiler

namespace Program

/-- The name of a location for the operating system. -/
def nameOf (location : List Text) : String := String.ofList ((⟨['/'], location⟩ : Path).toText)

/-- The locations above a location, and the location itself. -/
def steps (location : List Text) : List (List Text) :=
  (List.range location.length).map fun n ↦ location.take (n + 1)

/-- Reads what is at a location and below it. -/
partial def load (tree : FileTree) (location : List Text) : IO FileTree := do
  let place ← IO.FS.realPath (nameOf location)
  if ← place.isDir then
    let entries ← place.readDir
    entries.foldlM (fun tree entry ↦ load tree (location ++ [entry.fileName.toList]))
      (tree.put location .directory)
  else if ← place.pathExists then
    let bytes ← IO.FS.readBinFile place
    return tree.put location (.file bytes.toList)
  else return tree

/-- Reads the working directory and the operands outside of it. -/
def loadAll (arguments : List Text) : IO FileTree := do
  let cwd := (Path.ofText (← IO.currentDir).toString.toList).parts
  let operands := (arguments.filter (!·.isEmpty)).map fun a ↦ Path.absoluteParts cwd (Path.ofText a)
  let locations := cwd :: operands.filter (!cwd.isPrefixOf ·)
  let above := (locations.flatMap fun l ↦ steps l.dropLast).eraseDups
  let there ← above.filterM fun l ↦ do (← IO.FS.realPath (nameOf l)).isDir
  locations.foldlM load { cwd, nodes := there.map (·, .directory) }

/-- Writes what differs between two trees. -/
def save (before after : FileTree) : IO Unit :=
  after.nodes.forM fun (location, node) ↦
    if before.at? location == some node then pure ()
    else
      match node with
      | .directory => IO.FS.createDirAll (nameOf location)
      | .file bytes => IO.FS.writeBinFile (nameOf location) ⟨bytes.toArray⟩

/-- The variables of the environment that a build looks at. -/
def environment : IO (OrderedMap Text) := do
  let names := ["MTM_SOURCE_DIR", "MTM_OUTPUT_DIR", "MTM_BUILD_MODE", "MTM_MAX_WORKERS"]
  names.filterMapM fun name ↦ do
    return (← IO.getEnv name).map fun value ↦ (name.toList, value.toList)

/-- Runs a command and prints what it says. -/
def perform (run : FileTree → OrderedMap Text → List Text → CommandLine.Outcome)
    (arguments : List Text) : IO UInt32 := do
  let before ← loadAll arguments
  let outcome := run before (← environment) arguments
  save before outcome.tree
  IO.print (String.ofList (CommandLine.printed outcome.output))
  IO.eprint (String.ofList (CommandLine.printed outcome.errors))
  return outcome.status.code.toUInt32

end Program

end PageCompiler

open PageCompiler in
/-- Runs the command that the first argument names. -/
def main (arguments : List String) : IO UInt32 := do
  match arguments.map String.toList with
  | [] => return 2
  | name :: rest =>
    if name = CommandLine.pageCommand.name then
      Program.perform (fun tree _ ↦ CommandLine.runPageCommand tree) rest
    else if name = CommandLine.buildCommand.name then
      Program.perform CommandLine.runBuildCommand rest
    else
      IO.eprintln "Usage: (mtmc | mtmbuild) [ARGUMENTS]..."
      return 2
