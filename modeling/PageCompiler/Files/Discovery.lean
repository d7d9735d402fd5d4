import PageCompiler.Files.Glob

/-!
# Finding sources

The sources that a build is asked for: files are taken as they are given, and directories are
searched at all depths for the files with a known extension.
-/

namespace PageCompiler

/-- Why sources could not be looked for. -/
inductive DiscoveryError where
  /-- A pattern has two asterisks next to each other and something else beside them. -/
  | pattern
  | file (e : FileError)
  deriving DecidableEq, Repr

def DiscoveryError.message : DiscoveryError → Text
  | .pattern => "Invalid pattern: '**' can only be an entire path component"
  | .file e => e.message

namespace Discovery

/-- The components of the pattern for an extension. -/
def patterns (extension : Text) : Except DiscoveryError (List Text) :=
  let parts := (Path.ofText ('*' :: extension)).parts
  if parts.any fun p ↦ Text.contains p Glob.anyDepth && p != Glob.anyDepth then .error .pattern
  else .ok (Glob.anyDepth :: parts)

def below (directory : Path) (parts : List Text) : Path :=
  ⟨directory.root, directory.parts ++ parts⟩

/-- What is below a directory and matches patterns. -/
def matching (tree : FileTree) (directory : Path) (patterns : List Text) :
    Except DiscoveryError (List Path) :=
  match tree.locate directory with
  | .error _ => .ok []
  | .ok location =>
    match tree.select patterns location with
    | .ok rows => .ok (rows.map (below directory))
    | .error row => .error (.file ⟨.nameTooLong, (below directory row).toText⟩)

/-- The files below a directory that have an extension, in order. A pattern that ends with a slash
matches no file. -/
def filesWith (tree : FileTree) (directory : Path) (extension : Text) :
    Except DiscoveryError (List Path) :=
  match patterns extension with
  | .error e => .error e
  | .ok ps =>
    (matching tree directory ps).map fun paths ↦
      if Text.endsWith extension ['/'] then []
      else (paths.filter tree.isFile).mergeSort Path.notAfter

/-- The files below a directory that have one of the extensions, extension by extension. -/
def filesWithAny (tree : FileTree) (directory : Path) (extensions : List Text) :
    Except DiscoveryError (List Path) :=
  (extensions.mapM (filesWith tree directory)).map List.flatten

/-- What a path that a build is asked for stands for. -/
def expand (tree : FileTree) (extensions : List Text) (path : Path) :
    Except DiscoveryError (List Path) :=
  match tree.ask path with
  | .error e => .error (.file e)
  | .ok (some .directory) => filesWithAny tree path extensions
  | .ok _ => .ok [path]

/-- The sources that the paths of a build stand for, each once. -/
def sources (tree : FileTree) (paths : List Path) (extensions : List Text) :
    Except DiscoveryError (List Path) :=
  (paths.mapM (expand tree extensions)).map fun found ↦ found.flatten.eraseDups

end Discovery

end PageCompiler
