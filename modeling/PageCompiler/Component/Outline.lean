import PageCompiler.Component

/-!
# Outlines

A component as an indented list of what it declares.
-/

namespace PageCompiler

def outlineLine (depth : Nat) (t : Text) : Text := List.replicate (2 * depth) ' ' ++ t

def Import.outline (depth : Nat) (i : Import) : List Text :=
  [outlineLine depth ("Import: " ++ i.name ++ " from " ++ Text.quoted i.path ++ " [" ++
    i.framework.label ++ "]")]

def Variable.outline (depth : Nat) (v : Variable) : List Text :=
  [outlineLine depth ("Variable (" ++ v.kind ++ "): $" ++ v.name ++ " = " ++ v.expression)]

/-- The lines of a function: its head, and below it the lines of its body that are not blank. -/
def Function.outline (depth : Nat) (f : Function) : List Text :=
  outlineLine depth ("Function: $" ++ f.name ++ "(" ++ f.parameters ++ ")") ::
    (((Text.lines f.body).map Text.trim).filter (!·.isEmpty)).map (outlineLine (depth + 1))

/-- The line of a template: the beginning of its first line. -/
def Template.outline (depth : Nat) (t : Template) : List Text :=
  let first := (Text.lines (Text.trim t.content)).headD []
  [outlineLine depth ("Template: " ++ Text.abbreviate 60 57 first)]

namespace Component

def fieldsOutline (c : Component) : List Text :=
  if c.fields.isEmpty then []
  else
    outlineLine 1 "Frontmatter" ::
      c.fields.map fun (key, value) ↦ outlineLine 2 (key ++ ": " ++ Text.quoted value)

def outline (c : Component) : Text :=
  Text.unlines
    ([("Component: " ++ c.name ++ " (" ++ c.framework.label ++ ")" : Text)] ++ c.fieldsOutline ++
      c.imports.flatMap (Import.outline 1) ++ c.vars.flatMap (Variable.outline 1) ++
      c.functions.flatMap (Function.outline 1) ++
      (c.template.toList.flatMap (Template.outline 1)))

end Component

end PageCompiler
