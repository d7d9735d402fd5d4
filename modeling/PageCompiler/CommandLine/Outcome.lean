import PageCompiler.Build.Config
import PageCompiler.CommandLine.Arguments
import PageCompiler.Files.Discovery
import PageCompiler.Text.Control

/-!
# Outcomes of commands

What a command prints, how it ends and what it leaves on disk. Failures fall into three classes that
show in the exit status: problems with the sources, invalid arguments or missing files, and anything
that was not to be expected.

What a command says is plain text, whatever control sequences are in the names and sources it talks
about. Notes are passed on as they are.
-/

namespace PageCompiler

namespace CommandLine

/-- How a command ends. -/
inductive ExitStatus where
  /-- All is well. -/
  | success
  /-- There are problems with the sources. -/
  | sourceError
  /-- The arguments are invalid, or a file is missing. -/
  | invalidArguments
  /-- Something that was not to be expected. -/
  | internalError
  deriving DecidableEq, Repr

def ExitStatus.code : ExitStatus → Nat
  | .success => 0
  | .sourceError => 1
  | .invalidArguments => 2
  | .internalError => 3

/-- What a command did. -/
structure Outcome where
  /-- How it ended. -/
  status : ExitStatus := .success
  /-- The lines it printed. -/
  output : List Text := []
  /-- The lines it printed about errors. -/
  errors : List Text := []
  /-- The files it left. -/
  tree : FileTree

/-- Lines as they are printed. -/
def printed (lines : List Text) : Text := lines.flatMap (· ++ ['\n'])

/-- A note as a command prints it: with its level when everything is printed, and otherwise only if
it is for everyone. -/
def noteLine? (verbose : Bool) (note : Note) : Option Text :=
  if verbose then some (note.labelled ": ") else if note.isPublic then some note.text else none

def noteLines (verbose : Bool) (notes : List Note) : List Text :=
  notes.filterMap (noteLine? verbose)

namespace Outcome

/-- The outcome of a command that goes on to print lines. -/
def say (outcome : Outcome) (lines : List Text) : Outcome :=
  { outcome with output := outcome.output ++ lines.map Text.withoutControls }

/-- The outcome of a command that goes on to print lines about errors. -/
def complain (outcome : Outcome) (lines : List Text) : Outcome :=
  { outcome with errors := outcome.errors ++ lines.map Text.withoutControls }

/-- The outcome of a command that goes on to pass on notes. -/
def record (outcome : Outcome) (verbose : Bool) (notes : List Note) : Outcome :=
  { outcome with errors := outcome.errors ++ noteLines verbose notes }

end Outcome

/-! ## Failures -/

/-- Why a command failed. -/
inductive Failure where
  /-- A problem with a source. -/
  | diagnostic (d : Diagnostic)
  /-- A problem that no file is to blame for. -/
  | general (message : Text)
  /-- A file or an argument that is not as it should be. -/
  | input (message : Text)
  /-- Anything else. -/
  | internal (message : Text)

namespace Failure

/-- How a command that fails ends. -/
def status : Failure → ExitStatus
  | diagnostic _ => .sourceError
  | general _ => .sourceError
  | input _ => .invalidArguments
  | internal _ => .internalError

/-- What a command that fails prints. The activity begins messages that no file is to blame for. -/
def line (activity : Option Text) : Failure → Text
  | diagnostic d => d.report
  | general message =>
    match activity with
    | none | some [] => "Error: " ++ message
    | some name => name ++ " error: " ++ message
  | input message => "Error: " ++ message
  | internal message => "Internal error: " ++ message

def ofFileError (e : FileError) : Failure :=
  if e.fault = .notFound then .input e.message else .internal e.message

def ofPageError : PageError → Failure
  | .missing path => .input ("Source file not found: " ++ path)
  | .unreadable (.file e) => ofFileError e
  | .unreadable (.decoding e) => .internal e.message
  | .compile (.rejected d) => .diagnostic d
  | .compile (.numeral e) => .internal e.message
  | .compile (.file e) => ofFileError e
  | .unwritable e => ofFileError e

end Failure

def Outcome.fail (outcome : Outcome) (activity : Option Text) (failure : Failure) : Outcome :=
  { outcome with status := failure.status }.complain [failure.line activity]

/-! ## Checking arguments -/

def version : Text := "1.0.0"

def checkOption (command : Command) (tree : FileTree) (arguments : Arguments)
    (option : OptionName) : Except UsageError Unit :=
  let invalid (reason : Text) : Except UsageError Unit :=
    .error (.valueInvalid (command.optionLabel option) reason)
  match option, arguments.value? option with
  | .outputDirectory, some value =>
    match tree.findText? value with
    | some (.file _) => invalid ("Directory " ++ Text.quoted value ++ " is a file.")
    | _ => .ok ()
  | .jobs, some value =>
    match Numeral.toInt? value with
    | none => invalid (Text.quoted value ++ " is not a valid integer range.")
    | some n =>
      if n < 1 then invalid (Numeral.ofInt n ++ " is not in the range x>=1.") else .ok ()
  | _, _ => .ok ()

/-- Checks the values of the options in the order in which they were first given. -/
def checkOptions (command : Command) (tree : FileTree) (arguments : Arguments) :
    Except UsageError Unit :=
  arguments.given.forM (checkOption command tree arguments)

/-- The option that asks for information only and comes first. -/
def inquiry? (arguments : Arguments) : Option OptionName :=
  arguments.given.find? fun option ↦ option == .version || option == .help

/-- Runs a command on its arguments: an inquiry is answered, invalid arguments are reported, and
otherwise `run` does the work. -/
def Command.invoke {Settings : Type} (command : Command) (tree : FileTree) (arguments : List Text)
    (settings : Arguments → Except UsageError Settings) (run : Settings → Outcome) : Outcome :=
  let refuse (e : UsageError) : Outcome :=
    ({ status := .invalidArguments, tree } : Outcome).complain (command.errorLines e)
  match command.parse arguments with
  | .error e => refuse e
  | .ok parsed =>
    match inquiry? parsed with
    | some .help => ({ tree } : Outcome).say [command.usage]
    | some _ => ({ tree } : Outcome).say [command.name ++ ", version " ++ version]
    | none =>
      match checkOptions command tree parsed with
      | .error e => refuse e
      | .ok _ =>
        match settings parsed with
        | .error e => refuse e
        | .ok s => run s

end CommandLine

end PageCompiler
