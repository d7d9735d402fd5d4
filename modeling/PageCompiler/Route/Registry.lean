import PageCompiler.Diagnostic
import PageCompiler.Note
import PageCompiler.Route.Address
import PageCompiler.Route.Pattern

/-!
# Route registry

Which source owns which route during one build. A route is claimed by the first source that asks for
it, and for good. Another source may not claim the same route, nor a route with parameters of the
same shape, since no address could tell the two apart.
-/

namespace PageCompiler

namespace Route

/-- A claimed route. -/
structure Entry where
  /-- The route as written. -/
  path : Text
  /-- The source that owns it. -/
  file : Text
  deriving DecidableEq, Repr

namespace Entry

/-- Whether the route has parameters. -/
def isDynamic (e : Entry) : Bool := Route.isDynamic e.path

def segments (e : Entry) : List Text := Route.segments e.path

def parameters (e : Entry) : List Text := Route.parameters e.path

/-- The values of the parameters, when the route matches a path. -/
def match? (e : Entry) (path : Text) : Option (OrderedMap Text) :=
  matchSegments e.segments (Route.segments path) []

end Entry

/-- The claimed routes, in the order in which they were claimed. -/
structure Registry where
  entries : List Entry := []
  /-- Those of them that have parameters, which are the ones to try on an address. -/
  dynamic : List Entry := []
  deriving DecidableEq, Repr

/-- What an address leads to. -/
structure Match where
  entry : Entry
  /-- The values of its parameters. -/
  parameters : OrderedMap Text
  query : OrderedMap Text

namespace Registry

def get? (r : Registry) (path : Text) : Option Entry := r.entries.find? (·.path == path)

def add (r : Registry) (e : Entry) : Registry where
  entries := r.entries ++ [e]
  dynamic := if e.isDynamic then r.dynamic ++ [e] else r.dynamic

/-- An entry of another source whose route has the shape of the given one. -/
def rival? (r : Registry) (path file : Text) : Option Entry :=
  if Route.isDynamic path then
    r.dynamic.find? fun e ↦ e.file != file && Route.shape e.path == Route.shape path
  else none

/-- Claims a route for a source, and gives the registry after it. A source may claim a route it owns
again, to no effect. -/
def register (r : Registry) (path file : Text) : Except Diagnostic Entry × Registry :=
  match problems path with
  | p :: ps =>
    (.error
      { cause := .fieldInvalid "route" path
          ((p :: ps).map fun problem ↦ "pattern problem: " ++ problem.message)
        file := some file }, r)
  | [] =>
    let fresh : Entry := ⟨path, file⟩
    match r.get? path, r.rival? path file with
    | some existing, rival =>
      if existing.file = file then (.ok existing, r)
      else
        match rival with
        | some other => (.error (.routeAmbiguous path other.path file other.file), r)
        | none => (.error (.routeTaken path existing.file file), r)
    | none, some other => (.error (.routeAmbiguous path other.path file other.file), r)
    | none, none => (.ok fresh, r.add fresh)

/-- What there is to say about a route that was claimed. -/
def notesOn (before : Registry) (entry : Entry) : List Note :=
  if (before.get? entry.path).isSome then []
  else [.debug ("Registered route " ++ entry.path ++ " -> " ++ entry.file)]

/-- The first route with parameters that matches a path. -/
def dynamicMatch (r : Registry) (path : Text) (query : OrderedMap Text) : Option Match :=
  r.dynamic.findSome? fun entry ↦
    (entry.match? path).map fun parameters ↦ ⟨entry, parameters, query⟩

/-- What a path and a query lead to: a route without parameters that is that path, or else the first
route with parameters that matches it. -/
def lookup (r : Registry) (path : Text) (query : OrderedMap Text) : Option Match :=
  match r.get? path with
  | some entry => if entry.isDynamic then r.dynamicMatch path query else some ⟨entry, [], query⟩
  | none => r.dynamicMatch path query

def resolve (r : Registry) (url : Text) : Except Address.Error (Option Match) :=
  (Address.split url).map fun parts ↦
    r.lookup (if parts.path.isEmpty then ['/'] else parts.path) (Address.queryPairs parts.query)

end Registry

end Route

end PageCompiler
