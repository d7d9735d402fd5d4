import PageCompiler.Text.Basic

/-!
# Maps that keep their order

A map from texts that lists its keys in the order in which they were first put. Putting a key again
replaces its value in place.
-/

namespace PageCompiler

/-- A map from texts to values, in the order of first insertion. -/
abbrev OrderedMap (β : Type) := List (Text × β)

namespace OrderedMap

variable {β : Type}

def get? (m : OrderedMap β) (key : Text) : Option β := List.lookup key m

def contains (m : OrderedMap β) (key : Text) : Bool := (get? m key).isSome

/-- Gives a key a value: in place when it has one already, and at the end otherwise. -/
def put (key : Text) (value : β) : OrderedMap β → OrderedMap β
  | [] => [(key, value)]
  | (k, v) :: rest => if k = key then (k, value) :: rest else (k, v) :: put key value rest

/-- The keys in order. -/
def keys (m : OrderedMap β) : List Text := m.map Prod.fst

/-- The map of a list of pairs; a later value of a key replaces an earlier one. -/
def ofPairs (pairs : List (Text × β)) : OrderedMap β :=
  pairs.foldl (fun m (key, value) ↦ put key value m) []

/-- Puts a pair only when its key has no value yet. -/
def putNew (key : Text) (value : β) (m : OrderedMap β) : OrderedMap β :=
  if contains m key then m else put key value m

end OrderedMap

/-- A list without later repetitions of what it holds already. -/
def distinct (ts : List Text) : List Text :=
  ts.foldl (fun seen t ↦ if t ∈ seen then seen else seen ++ [t]) []

end PageCompiler
