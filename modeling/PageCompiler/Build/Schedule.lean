import PageCompiler.Build.Graph

/-!
# Schedules

The progress of a build through its files. A file is ready once all files it imports are recorded;
ready files are submitted, and a submitted file is recorded when its compilation is done. Which of
the submitted files is recorded next is left open here: every order is a legal run.
-/

namespace PageCompiler

/-- How far a build has come. -/
structure Schedule where
  /-- The files that wait for nothing but to be submitted. -/
  ready : List Text := []
  /-- The files that were submitted and are not recorded. -/
  pending : List Text := []
  recorded : List Text := []
  /-- The files that were submitted, in that order. -/
  order : List Text := []
  deriving DecidableEq, Repr

namespace Schedule

/-- The beginning of a build: files without imports are ready. -/
def start (g : ImportGraph) : Schedule :=
  { ready := g.files.filter fun file ↦ (g.imports file).isEmpty }

/-- Submits all ready files. -/
def submit (s : Schedule) : Schedule :=
  { s with ready := [], pending := s.pending ++ s.ready, order := s.order ++ s.ready }

/-- The files that become ready when a file is recorded: its importers whose other imports are all
recorded. -/
def released (g : ImportGraph) (recorded : List Text) (file : Text) : List Text :=
  (g.importers file).filter fun importer ↦ (g.imports importer).all (· ∈ file :: recorded)

/-- Records a submitted file. -/
def record (g : ImportGraph) (s : Schedule) (file : Text) : Schedule :=
  { s with
    ready := s.ready ++ released g s.recorded file
    pending := s.pending.erase file
    recorded := s.recorded ++ [file] }

end Schedule

end PageCompiler
