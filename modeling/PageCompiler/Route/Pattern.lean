import PageCompiler.Number.Numeral
import PageCompiler.OrderedMap

/-!
# Route patterns

A route is a row of segments divided by slashes. A segment `[name]` is a parameter and matches
anything; any other segment matches itself. Empty segments do not count.

Two routes with parameters have the same shape when they agree after every parameter has been
replaced by a wildcard.
-/

namespace PageCompiler

namespace Route

def segments (path : Text) : List Text := (Text.splitOn '/' path).filter (!·.isEmpty)

/-- The name of the parameter that a segment is: word characters between brackets. A line feed may
follow. -/
def parameter? (segment : Text) : Option Text := do
  let (name, rest) ← Text.word? (← Text.after? ['['] segment)
  let rest ← Text.after? [']'] rest
  if rest = [] ∨ rest = ['\n'] then some name else none

/-- Whether a path has parameters. -/
def isDynamic (path : Text) : Bool := (segments path).any fun s ↦ (parameter? s).isSome

/-- What stands for a parameter in a shape. -/
def wildcard : Text := "*"

/-- A path with a wildcard for every parameter. -/
def shape (path : Text) : Text :=
  '/' :: Text.join ['/'] ((segments path).map fun s ↦ if (parameter? s).isSome then wildcard else s)

/-- The names of the parameters, in order. -/
def parameters (path : Text) : List Text := (segments path).filterMap parameter?

/-! ## Brackets -/

inductive BracketProblem where
  /-- A bracket that opens inside another. -/
  | nested (offset : Nat)
  /-- A bracket that closes none. -/
  | unmatched (offset : Nat)
  /-- Brackets with nothing between them. -/
  | blank (offset : Nat)
  /-- A bracket that is not closed. -/
  | unclosed
  deriving DecidableEq, Repr

def BracketProblem.message : BracketProblem → Text
  | .nested offset => "nested brackets at offset " ++ Numeral.ofNat offset
  | .unmatched offset => "unmatched ']' at offset " ++ Numeral.ofNat offset
  | .blank offset => "empty parameter name at offset " ++ Numeral.ofNat offset
  | .unclosed => "unclosed '['"

/-- The problems from an offset on, where `depth` brackets are open and the last one that opened did
so at `start`, with `inside` after it so far. -/
def problemsFrom (offset depth start : Nat) (inside : Text) : Text → List BracketProblem
  | [] => if depth = 0 then [] else [.unclosed]
  | c :: rest =>
    if c = '[' then
      (if depth = 0 then [] else [.nested offset]) ++
        problemsFrom (offset + 1) (depth + 1) offset [] rest
    else if c = ']' then
      if depth = 0 then .unmatched offset :: problemsFrom (offset + 1) 0 start (inside ++ [c]) rest
      else
        (if Text.isBlankText inside then [.blank start] else []) ++
          problemsFrom (offset + 1) (depth - 1) start (inside ++ [c]) rest
    else problemsFrom (offset + 1) depth start (inside ++ [c]) rest

def problems (path : Text) : List BracketProblem := problemsFrom 0 0 0 [] path

/-! ## Matching -/

/-- The values that the parameters of a pattern take on segments it matches. Of two parameters with
the same name the later one counts. -/
def matchSegments : (pattern actual : List Text) → OrderedMap Text → Option (OrderedMap Text)
  | [], [], values => some values
  | p :: ps, a :: as, values =>
    match parameter? p with
    | some name => matchSegments ps as (OrderedMap.put name a values)
    | none => if p = a then matchSegments ps as values else none
  | _, _, _ => none

end Route

end PageCompiler
