import PageCompiler.Text.Basic

/-!
# Properties of components

What a component lets its user set, as far as its source says.
-/

namespace PageCompiler

structure Property where
  name : Text
  /-- Its type as written; anything when none is. -/
  type : Text := "any"
  required : Bool := true
  default : Option Text := none
  deriving DecidableEq, Repr

/-- The properties without later ones of a name that came before. -/
def Property.distinct (properties : List Property) : List Property :=
  properties.foldl
    (fun seen p ↦ if seen.any (·.name == p.name) then seen else seen ++ [p]) []

end PageCompiler
