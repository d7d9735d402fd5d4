import PageCompiler.FrontMatter

/-!
# Script modes

Where the generated script goes: into the page itself, into a file named after the component, or
into a file of a chosen name. A page that asks for a mode gets it; otherwise a development build
keeps the script in the page and a production build writes a file.
-/

namespace PageCompiler

inductive ModeKind where
  /-- The script is part of the page. -/
  | inline
  /-- The script has a file named after the component. -/
  | external
  /-- The script has a file of a chosen name. -/
  | custom
  deriving DecidableEq, Repr

def ModeKind.label : ModeKind → Text
  | .inline => "inline"
  | .external => "external"
  | .custom => "custom"

/-- Where the script of a page goes. -/
structure ScriptMode where
  kind : ModeKind
  /-- The file, if the script has one. -/
  file : Option Text := none
  deriving DecidableEq, Repr

namespace ScriptMode

/-- The script is part of the page. -/
def inline : ScriptMode := { kind := .inline }

def isInline (mode : ScriptMode) : Bool := mode.kind == .inline

/-- A mode as messages show it. -/
def label (mode : ScriptMode) : Text :=
  match mode.file with
  | none | some [] => mode.kind.label
  | some file => mode.kind.label ++ "(" ++ file ++ ")"

/-- The tag that holds the script or refers to its file. -/
def scriptTag (mode : ScriptMode) (script : Text) : Text :=
  if mode.isInline then "<script>\n" ++ script ++ "\n</script>"
  else "<script src=\"" ++ mode.file.getD "None" ++ "\"></script>"

/-- What a character contributes to a file name: letters without capitals and digits stay, the
Kelvin sign is a `k`, a capital dotted I is an `i` and a mark, and anything else is a hyphen. -/
def fileChar (c : Char) : Text :=
  if isLatinLetter c then [c.toLower]
  else if isLatinDigit c then [c]
  else if c.toNat = 0x212a then ['k']
  else if c.toNat = 0x130 then ['i', '-']
  else ['-']

def externalFile (componentName : Text) : Text :=
  "js/" ++ componentName.flatMap fileChar ++ ".js"

/-- The mode with a file named after the component. -/
def external (componentName : Text) : ScriptMode :=
  { kind := .external, file := some (externalFile componentName) }

/-- What a build asks for when a page does not. -/
structure Preference where
  development : Bool := false
  production : Bool := false

/-- The mode of a page. -/
def choose (fields : FrontMatter) (preference : Preference) (componentName : Text)
    (file : Option Text) : Except Diagnostic ScriptMode :=
  match fields.scriptMode? with
  | some requested =>
    if requested = ("inline" : Text) then .ok inline
    else if requested = ("external.js" : Text) then .ok (external componentName)
    else if Text.endsWith requested ".js" then .ok { kind := .custom, file := some requested }
    else .error { cause := .modeInvalid requested, file }
  | none =>
    if preference.development then .ok inline
    else if preference.production then .ok (external componentName)
    else .ok inline

end ScriptMode

end PageCompiler
