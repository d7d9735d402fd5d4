import PageCompiler.Text.Basic

/-!
# Frameworks

The frameworks that imported components may be written for, told apart by the path of the import.
-/

namespace PageCompiler

/-- A framework that components are written for. -/
inductive Framework where
  | react
  | vue
  | solid
  | svelte
  /-- None that is known. -/
  | unknown
  deriving DecidableEq, Repr

namespace Framework

def label : Framework → Text
  | react => "react"
  | vue => "vue"
  | solid => "solid"
  | svelte => "svelte"
  | unknown => "unknown"

def all : List Framework := [react, vue, solid, svelte, unknown]

/-- The framework of the component at a path. An extension that belongs to one framework decides
before a path that mentions another. -/
def ofPath (path : Text) : Framework :=
  if Text.endsWith path ".vue" then vue
  else if Text.endsWith path ".svelte" then svelte
  else if Text.endsWith path ".solid.tsx" || Text.contains path "solid" then solid
  else if Text.endsWith path ".tsx" || Text.endsWith path ".jsx" then react
  else unknown

end Framework

end PageCompiler
