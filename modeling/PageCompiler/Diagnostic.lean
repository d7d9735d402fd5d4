import PageCompiler.Json
import PageCompiler.Text.Similar

/-!
# Diagnostics

A diagnostic is a problem reported against one source file: its cause, where it is, and how severe
it is. The wording follows from the cause, and so does the advice, of which there always is some.

A report line is `file:line: severity: message`, followed by the numbered suggestions.
-/

namespace PageCompiler

/-- How severe a problem is. Only warnings leave a file standing. -/
inductive Severity where
  /-- The file cannot be compiled. -/
  | error
  /-- The file can be compiled all the same. -/
  | warning
  /-- A severity with a name of its own, treated like an error. -/
  | named (label : Text)
  deriving DecidableEq, Repr

def Severity.label : Severity → Text
  | .error => "error"
  | .warning => "warning"
  | .named label => label

def Severity.ofLabel (word : Text) : Severity :=
  if word = ("error" : Text) then .error
  else if word = ("warning" : Text) then .warning
  else .named word

/-- What is wrong. -/
inductive Cause where
  /-- A problem described by its message, with its own advice. -/
  | general (message : Text) (advice : List Text)
  /-- A route that another file owns. -/
  | routeTaken (route owner claimant : Text)
  /-- A route with parameters that no address tells apart from the route of another file. -/
  | routeAmbiguous (route other claimant owner : Text)
  /-- An import that no file answers, with the places that were tried. -/
  | importMissing (path : Text) (searched : List Text)
  /-- A front matter field whose value is not allowed, with hints at allowed ones. -/
  | fieldInvalid (field value : Text) (allowed : List Text)
  /-- A script mode that does not exist. -/
  | modeInvalid (value : Text)
  /-- A condition that is not well formed, with the offset at which that shows. -/
  | conditionMalformed (condition reason : Text) (offset : Int)
  /-- A condition on a name that is not declared. -/
  | nameUnknown (name condition : Text) (known : List Text)
  deriving DecidableEq, Repr

/-- A problem reported against a source file. -/
structure Diagnostic where
  cause : Cause
  /-- The file concerned, when it is known. -/
  file : Option Text := none
  /-- The line concerned, when it is known. -/
  line : Option Int := none
  severity : Severity := .error
  deriving DecidableEq, Repr

/-! ## Places -/

/-- A place in a file: the line is left out when it is not known. -/
def placeLabel (file : Text) (line : Int) : Text :=
  if 0 < line then file ++ ":" ++ Numeral.ofInt line else file

/-! ## Causes -/

namespace Cause

/-- The short name of a kind of problem. -/
def kind : Cause → Text
  | general .. => "compilation"
  | routeTaken .. => "route-conflict"
  | routeAmbiguous .. => "dynamic-route-conflict"
  | importMissing .. => "import-resolution"
  | fieldInvalid .. => "frontmatter-validation"
  | modeInvalid .. => "invalid-compilation-mode"
  | conditionMalformed .. => "condition-syntax"
  | nameUnknown .. => "unknown-identifier"

/-- The hints at the values a script mode may have. -/
def modeValues : List Text := ["inline", "external.js", "<name>.js"]

def fieldMessage (field value : Text) : Text :=
  "invalid frontmatter field \"" ++ field ++ "\": \"" ++ value ++ "\""

def message : Cause → Text
  | general text _ => text
  | routeTaken route owner _ =>
    "route \"" ++ route ++ "\" is already registered by \"" ++ owner ++ "\""
  | routeAmbiguous route other claimant owner =>
    "dynamic routes \"" ++ route ++ "\" (" ++ claimant ++ ") and \"" ++ other ++ "\" (" ++ owner ++
      ") conflict - they have the same structure"
  | importMissing path _ => "cannot resolve import \"" ++ path ++ "\""
  | fieldInvalid field value _ => fieldMessage field value
  | modeInvalid value => fieldMessage "compileJsMode" value
  | conditionMalformed condition reason offset =>
    "invalid condition \"" ++ condition ++ "\": " ++ reason ++ " (at offset " ++
      Numeral.ofInt offset ++ ")"
  | nameUnknown name condition _ =>
    "unknown identifier \"" ++ name ++ "\" in condition \"" ++ condition ++ "\""

/-- What the values of a front matter field look like. -/
def fieldHint (field : Text) : List Text :=
  if field = ("route" : Text) then
    ["Routes must start with \"/\" (e.g. \"/home\", \"/user/[id]\")"]
  else if field = ("compileJsMode" : Text) then
    ["Use \"inline\", \"external.js\", or a custom .js filename"]
  else []

def fieldAdvice (field : Text) (allowed : List Text) : List Text :=
  let first : Text := "Check the documentation for valid " ++ field ++ " values"
  let values : List Text :=
    if allowed.isEmpty then [] else ["Valid values: " ++ Text.join ", " allowed]
  first :: values ++ fieldHint field

/-- What to look at first, by the way an import path is written. -/
def importHint (path : Text) (file : Option Text) : Text :=
  if Text.startsWith path "@components/" then "Ensure the component exists in src/components/"
  else if Text.startsWith path "./" || Text.startsWith path "../" then
    let importing : Text :=
      match file with
      | none | some [] => "the importing file"
      | some name => name
    "Check the relative path from " ++ importing
  else "Consider using a relative path (./ComponentName) or the @components/ prefix"

def importAdvice (path : Text) (searched : List Text) (file : Option Text) : List Text :=
  let places : List Text :=
    if searched.isEmpty then [] else ["Searched in: " ++ Text.join ", " searched]
  "Check if the file exists at the specified path" ::
    "Verify the file extension is correct (.tsx, .jsx, .vue, .svelte)" ::
    "Check for typos in the import path" :: importHint path file :: places

/-- The advice on a name that is not declared. -/
def nameAdvice (name : Text) (known : List Text) : List Text :=
  let similar := Similar.names name known
  let guess : List Text :=
    if similar.isEmpty then []
    else ["did you mean " ++ Text.join ", " (similar.map Text.quoted) ++ "?"]
  guess ++ ["Declare \"$" ++ name ++ "\" as a reactive or computed variable"]

def advice (file : Option Text) : Cause → List Text
  | general _ given =>
    if given.isEmpty then ["Check the MTM documentation for the correct syntax"] else given
  | routeTaken _ _ claimant =>
    ["Change the route in \"" ++ claimant ++ "\" to a different path",
     "Remove the duplicate route definition",
     "Use a dynamic route parameter if appropriate (e.g. \"/user/[id]\")",
     "Check if both files should actually use the same route"]
  | routeAmbiguous .. =>
    ["Use different route structures (e.g. \"/user/[id]\" vs \"/admin/[id]\")",
     "Combine the functionality into a single route",
     "Add distinguishing path segments (e.g. \"/user/profile/[id]\")",
     "Consider using query parameters instead of route parameters"]
  | importMissing path searched => importAdvice path searched file
  | fieldInvalid field _ allowed => fieldAdvice field allowed
  | modeInvalid _ => fieldAdvice "compileJsMode" modeValues
  | conditionMalformed .. =>
    ["Conditions may use declared variables, numbers, strings, true/false/null",
     "Supported operators: == != === !== < <= > >= && || ! and parentheses"]
  | nameUnknown name _ known => nameAdvice name known

end Cause

/-! ## Reports -/

namespace Diagnostic

/-- A problem described by its message. -/
def general (message : Text) (file : Option Text) (advice : List Text) : Diagnostic :=
  { cause := .general message advice, file := file }

/-- A route that another file owns. -/
def routeTaken (route owner claimant : Text) : Diagnostic :=
  { cause := .routeTaken route owner claimant, file := some claimant }

/-- A route with parameters that no address tells apart from the route of another file. -/
def routeAmbiguous (route other claimant owner : Text) : Diagnostic :=
  { cause := .routeAmbiguous route other claimant owner, file := some claimant }

def message (d : Diagnostic) : Text := d.cause.message

def suggestions (d : Diagnostic) : List Text := d.cause.advice d.file

/-- Whether a problem leaves its file standing. -/
def isWarning (d : Diagnostic) : Bool := d.severity == .warning

/-- Where a problem is, when its file is known. -/
def location (d : Diagnostic) : Option Text := d.file.map (placeLabel · (d.line.getD 0))

/-- The suggestions as lines, numbered from one. -/
def numbered : (next : Nat) → List Text → List Text
  | _, [] => []
  | n, s :: rest => ("  " ++ Numeral.ofNat n ++ ". " ++ s) :: numbered (n + 1) rest

/-- The report on a problem: a line that says where and what, and the suggestions. -/
def report (d : Diagnostic) : Text :=
  let what := d.severity.label ++ ": " ++ d.message
  let first :=
    match d.location with
    | none => what
    | some place => place ++ ": " ++ what
  Text.unlines (first :: "suggestions:" :: numbered 1 d.suggestions)

/-- A problem as a record, for other programs to read. -/
def toJson (d : Diagnostic) : Json :=
  .object
    [("kind", .text d.cause.kind), ("severity", .text d.severity.label),
     ("message", .text d.message),
     ("file", (d.file.map Json.text).getD .null), ("line", (d.line.map Json.int).getD .null),
     ("suggestions", .list (d.suggestions.map Json.text))]

end Diagnostic

/-! ## Collections -/

/-- The problems found so far, errors and warnings apart, each in the order they were found. -/
structure Findings where
  /-- What is not a warning. -/
  errors : List Diagnostic := []
  warnings : List Diagnostic := []

namespace Findings

/-- Files a problem by its severity. -/
def add (found : Findings) (d : Diagnostic) : Findings :=
  if d.isWarning then { found with warnings := found.warnings ++ [d] }
  else { found with errors := found.errors ++ [d] }

def addAll (found : Findings) (ds : List Diagnostic) : Findings := ds.foldl add found

/-- Everything of two collections. -/
def append (found more : Findings) : Findings :=
  ⟨found.errors ++ more.errors, found.warnings ++ more.warnings⟩

/-- The counts and the records of all problems. -/
def summary (found : Findings) : List (Text × Json) :=
  [("error_count", .int found.errors.length), ("warning_count", .int found.warnings.length),
   ("errors", .list (found.errors.map Diagnostic.toJson)),
   ("warnings", .list (found.warnings.map Diagnostic.toJson))]

/-- A number with the singular or the plural of a word. -/
def counted (n : Nat) (singular plural : Text) : Text :=
  Numeral.ofNat n ++ " " ++ (if n = 1 then singular else plural)

/-- All reports, and a last line that counts them. -/
def report (found : Findings) : Text :=
  Text.unlines (found.errors.map Diagnostic.report ++ found.warnings.map Diagnostic.report ++
    [counted found.errors.length "error" "errors" ++ ", " ++
      counted found.warnings.length "warning" "warnings"])

end Findings

end PageCompiler
