import PageCompiler.Text.Basic

/-!
# Notes

What a run has to say about itself besides its result: remarks for whoever follows it closely, and
warnings and errors for everyone. Notes come in the order in which they were made.
-/

namespace PageCompiler

/-- How much a note matters. -/
inductive NoteLevel where
  /-- A detail of the work. -/
  | debug
  /-- A step of the work. -/
  | info
  /-- Something doubtful. -/
  | warning
  /-- Something wrong. -/
  | error
  deriving DecidableEq, Repr

def NoteLevel.label : NoteLevel → Text
  | .debug => "DEBUG"
  | .info => "INFO"
  | .warning => "WARNING"
  | .error => "ERROR"

/-- A remark made during a run. -/
structure Note where
  /-- How much it matters. -/
  level : NoteLevel
  /-- What it says. -/
  text : Text
  deriving DecidableEq, Repr

namespace Note

/-- A note on a detail. -/
def debug (text : Text) : Note := ⟨.debug, text⟩

/-- A note on a step. -/
def info (text : Text) : Note := ⟨.info, text⟩

/-- A note on something doubtful. -/
def warning (text : Text) : Note := ⟨.warning, text⟩

/-- A note on something wrong. -/
def error (text : Text) : Note := ⟨.error, text⟩

/-- Whether a note is for everyone: a warning or an error. -/
def isPublic (note : Note) : Bool :=
  match note.level with
  | .warning | .error => true
  | .debug | .info => false

def labelled (note : Note) (separator : Text) : Text := note.level.label ++ separator ++ note.text

end Note

/-- A result, or what kept it from coming about, with the notes made on the way. -/
abbrev Noted (E α : Type) := Except E α × List Note

/-- Does something for each element in order, up to the first failure. -/
def Noted.each {E α β : Type} (step : α → Noted E β) : List α → Noted E (List β)
  | [] => (.ok [], [])
  | a :: rest =>
    match step a with
    | (.error e, notes) => (.error e, notes)
    | (.ok b, notes) =>
      let (results, more) := Noted.each step rest
      (results.map (b :: ·), notes ++ more)

end PageCompiler
