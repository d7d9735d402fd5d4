import PageCompiler.Text.Pieces

/-!
# Lines of a source

The body of a source is read line by line. What a line says is decided by its shape alone, and the
first of these shapes that fits is taken:

* nothing: a blank line, or one that begins with `//`;
* an import: `import Name from "path"`;
* a reactive variable: `$name! = expression`;
* a computed variable: `$name = expression`, where the expression has no `=>`;
* the beginning of a function: `$name = (parameters) => {`;
* the beginning of the template: `<template>`;
* the name of the component: `export default function Name`, anywhere in the line.

Any other line says nothing that is understood.
-/

namespace PageCompiler

namespace Source

/-- What a line says. -/
inductive LineForm where
  /-- Nothing: it is blank or a remark. -/
  | empty
  /-- An import of a component. -/
  | imported (name path : Text)
  /-- A reactive variable and its first value. -/
  | reactive (name expression : Text)
  /-- A computed variable and its value. -/
  | computed (name expression : Text)
  /-- The beginning of a function: what follows the opening brace is part of the body. -/
  | function (name parameters rest : Text)
  /-- The beginning of the template: what follows the tag is part of the markup. -/
  | template (rest : Text)
  | componentName (name : Text)
  /-- Something that is not understood. -/
  | other
  deriving DecidableEq, Repr

def isQuote (c : Char) : Bool := c == '"' || c == '\''

def templateOpening : Text := "<template>"

def templateClosing : Text := "</template>"

/-- An import: either kind of quote may stand on either side of the path. -/
def import? (line : Text) : Option (Text × Text) := do
  let rest ← Text.after? "import" (Text.trimLeft line)
  let (name, rest) ← Text.word? (← Text.blanks? rest)
  let rest ← Text.after? "from" (← Text.blanks? rest)
  let (_, rest) ← Text.char? isQuote (← Text.blanks? rest)
  let (path, rest) ← Text.run? (fun c ↦ !isQuote c) rest
  let (_, rest) ← Text.char? isQuote rest
  let rest := Text.trimLeft rest
  let rest := (Text.after? [';'] rest).getD rest
  if Text.isBlankText rest then some (name, path) else none

/-- The name after a dollar sign at the beginning of a line, and the rest. -/
def declared? (line : Text) : Option (Text × Text) := do
  Text.word? (← Text.after? ['$'] (Text.trimLeft line))

/-- What follows an equals sign, if anything does. -/
def assigned? (rest : Text) : Option Text := do
  let value ← Text.after? ['='] (Text.trimLeft rest)
  if value.isEmpty then none else some value

def reactive? (line : Text) : Option (Text × Text) := do
  let (name, rest) ← declared? line
  let value ← assigned? (← Text.after? ['!'] rest)
  some (name, Text.trim value)

def computed? (line : Text) : Option (Text × Text) := do
  let (name, rest) ← declared? line
  let value ← assigned? rest
  if Text.contains value "=>" then none else some (name, Text.trim value)

/-- The beginning of a function. -/
def function? (line : Text) : Option (Text × Text × Text) := do
  let (name, rest) ← declared? line
  let rest ← Text.after? ['='] (Text.trimLeft rest)
  let rest ← Text.after? ['('] (Text.trimLeft rest)
  let (parameters, rest) ← Text.upTo? ')' rest
  let rest ← Text.after? "=>" (Text.trimLeft rest)
  let rest ← Text.after? ['\x7b'] (Text.trimLeft rest)
  some (name, Text.trim parameters, Text.trimRight rest)

/-- The name of the component, read where the text begins with it. -/
def readComponentName (t : Text) : Option (Text × Text) := do
  let rest ← Text.blanks? (← Text.after? "export" t)
  let rest ← Text.blanks? (← Text.after? "default" rest)
  let rest ← Text.blanks? (← Text.after? "function" rest)
  Text.word? rest

def readLine (line : Text) : LineForm :=
  let trimmed := Text.trim line
  if trimmed.isEmpty || Text.startsWith trimmed "//" then .empty
  else
    match import? line with
    | some (name, path) => .imported name path
    | none =>
      match reactive? line with
      | some (name, expression) => .reactive name expression
      | none =>
        match computed? line with
        | some (name, expression) => .computed name expression
        | none =>
          match function? line with
          | some (name, parameters, rest) => .function name parameters rest
          | none =>
            match Text.after? templateOpening trimmed with
            | some rest => .template rest
            | none =>
              match Text.find? readComponentName line with
              | some name => .componentName name
              | none => .other

end Source

end PageCompiler
