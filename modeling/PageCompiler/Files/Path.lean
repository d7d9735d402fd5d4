import PageCompiler.Text.Pieces

/-!
# Paths

A path is a root, which is empty for a relative path, and a row of components. Reading a path drops
empty components and single points; double points stay, since what they lead to depends on the files
that are there.
-/

namespace PageCompiler

structure Path where
  /-- The root: nothing, one slash or two. -/
  root : Text := []
  /-- The components. -/
  parts : List Text := []
  deriving DecidableEq, Repr

namespace Path

/-- The component that leads to the directory above. -/
def up : Text := ".."

def ofText (t : Text) : Path :=
  let slashes := t.takeWhile (· == '/')
  let root : Text :=
    if slashes.isEmpty then [] else if slashes.length = 2 then ['/', '/'] else ['/']
  ⟨root, (Text.splitOn '/' t).filter fun p ↦ !p.isEmpty && p != ['.']⟩

/-- A path as text. The empty path is a point. -/
def toText (p : Path) : Text :=
  if p.root.isEmpty && p.parts.isEmpty then ['.'] else p.root ++ Text.join ['/'] p.parts

/-- Whether a path does not depend on a working directory. -/
def isAbsolute (p : Path) : Bool := !p.root.isEmpty

/-- A path seen from another; an absolute path stays what it is. -/
def append (p q : Path) : Path := if q.isAbsolute then q else ⟨p.root, p.parts ++ q.parts⟩

/-- A path seen from another, as text. -/
def appendText (p : Path) (t : Text) : Path := p.append (ofText t)

def parent (p : Path) : Path := ⟨p.root, p.parts.dropLast⟩

/-- Resolves double points without looking at files. -/
def normalParts : (above : List Text) → List Text → List Text
  | above, [] => above.reverse
  | above, p :: ps => if p = up then normalParts (above.drop 1) ps else normalParts (p :: above) ps

/-- The components of a path from the root on, with double points resolved without looking at files.
-/
def absoluteParts (cwd : List Text) (p : Path) : List Text :=
  normalParts [] (if p.isAbsolute then p.parts else cwd ++ p.parts)

/-- Whether one row of components comes no later than another, compared component by component. -/
def notAfterParts : List Text → List Text → Bool
  | [], _ => true
  | _ :: _, [] => false
  | p :: ps, q :: qs => if p = q then notAfterParts ps qs else Text.before p q

/-- Whether one path comes no later than another. Paths are compared component by component, the
root being the first component. -/
def notAfter (p q : Path) : Bool :=
  notAfterParts ((if p.root.isEmpty then [] else [p.root]) ++ p.parts)
    ((if q.root.isEmpty then [] else [q.root]) ++ q.parts)

end Path

end PageCompiler
