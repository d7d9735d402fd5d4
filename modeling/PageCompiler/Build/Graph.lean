import PageCompiler.Diagnostic
import PageCompiler.OrderedMap

/-!
# Import graphs

Which files of a build import which other files of it. A build compiles a file after the files it
imports, so the graph must have no cycles; where it has one, all imports among the files of the
cycle are dropped, and the search starts over until there is none.

A cycle is searched for depth first, from imported files to the files that import them. The search
remembers the files it has seen, so it comes to an end after as many steps down as there are files.
-/

namespace PageCompiler

/-- The files of a build, each with the files it imports. -/
abbrev ImportGraph := OrderedMap (List Text)

namespace ImportGraph

def imports (g : ImportGraph) (file : Text) : List Text := (OrderedMap.get? g file).getD []

/-- The files, each followed by those it imports that were not named before. -/
def files (g : ImportGraph) : List Text := distinct (g.flatMap fun (file, used) ↦ file :: used)

def importers (g : ImportGraph) (file : Text) : List Text :=
  (g.filter fun (_, used) ↦ file ∈ used).map Prod.fst

/-- The number of imports. -/
def size (g : ImportGraph) : Nat := (g.flatMap Prod.snd).length

/-! ## Cycles -/

/-- What a search for a cycle comes to: a closed walk, or the files it has seen. -/
abbrev Search := Except (List Text) (List Text)

/-- Visits files one after the other until a cycle is found. -/
def visitAll (visit : (seen : List Text) → Text → Search) : (seen files : List Text) → Search
  | seen, [] => .ok seen
  | seen, file :: rest =>
    match visit seen file with
    | .error cycle => .error cycle
    | .ok more => visitAll visit more rest

/-- Visits a file and all files that import it, where `walk` leads to the file. -/
def visit (g : ImportGraph) : (depth : Nat) → (walk seen : List Text) → Text → Search
  | 0, _, seen, _ => .ok seen
  | depth + 1, walk, seen, file =>
    if file ∈ seen then
      if file ∈ walk then .error (walk.dropWhile (· != file) ++ [file]) else .ok seen
    else visitAll (visit g depth (walk ++ [file])) (seen ++ [file]) (g.importers file)

/-- A closed walk from imported files to the files that import them, if there is one. -/
def cycle? (g : ImportGraph) : Option (List Text) :=
  match visitAll (visit g (g.files.length + 1) []) [] g.files with
  | .error cycle => some cycle
  | .ok _ => none

/-- The graph without the imports among the given files. -/
def without (g : ImportGraph) (members : List Text) : ImportGraph :=
  g.map fun (file, used) ↦
    (file, if file ∈ members then used.filter (· ∉ members) else used)

/-- Drops cycles, at most `fuel` of them, and lists them. -/
def dropCycles : (fuel : Nat) → ImportGraph → ImportGraph × List (List Text)
  | 0, g => (g, [])
  | fuel + 1, g =>
    match g.cycle? with
    | none => (g, [])
    | some cycle =>
      let (rest, cycles) := dropCycles fuel (g.without cycle)
      (rest, cycle :: cycles)

/-- The graph without its cycles, and the cycles that were dropped. With every cycle at least one
of the imports goes. -/
def untangle (g : ImportGraph) : ImportGraph × List (List Text) := dropCycles g.size g

def cycleMessage (cycle : List Text) : Text := "import cycle: " ++ Text.join " -> " cycle

def cycleWarning (cycle : List Text) : Diagnostic :=
  { cause := .general (cycleMessage cycle)
      ["Break the cycle; these files are compiled in arbitrary order"]
    file := cycle.head?
    severity := .warning }

end ImportGraph

end PageCompiler
