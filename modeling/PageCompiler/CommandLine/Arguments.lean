import PageCompiler.Text.Pieces
import PageCompiler.Text.Similar
import PageCompiler.Text.Quoted

/-!
# Arguments of a command

The arguments of a command are options and operands, in any order. A long option may carry its value
after an equals sign; short options may be run together, and what follows a short option that takes
a value is that value. After two hyphens everything is an operand.

An option may be given several times, and the last time counts.
-/

namespace PageCompiler

namespace CommandLine

inductive OptionName where
  /-- The directory that artifacts are written to. -/
  | outputDirectory
  | production
  | jobs
  /-- Whether imports are looked for. -/
  | resolveImports
  | dryRun
  /-- Whether the summary is printed for other programs. -/
  | json
  | tokens
  | outline
  /-- Whether everything there is to say is printed. -/
  | verbose
  | version
  | help
  deriving DecidableEq, Repr

/-- What a spelling of an option does. -/
inductive Effect where
  | on
  | off
  | value
  deriving DecidableEq, Repr

/-- A way to write an option. -/
structure Spelling where
  /-- The text, with its hyphens. -/
  text : Text
  option : OptionName
  effect : Effect := .on
  deriving DecidableEq, Repr

/-- A command: its name, how usage lines show its operands, and its options. -/
structure Command where
  name : Text
  operands : Text
  /-- The ways to write the options. -/
  spellings : List Spelling

/-- What an option was set to. -/
inductive Setting where
  | switch (on : Bool)
  | value (t : Text)
  deriving DecidableEq, Repr

/-- The arguments of a command, taken apart. -/
structure Arguments where
  /-- The options in order. -/
  options : List (OptionName × Setting) := []
  /-- The operands in order. -/
  operands : List Text := []
  deriving DecidableEq, Repr

inductive UsageError where
  /-- There is no such option, but perhaps similar ones. -/
  | noSuchOption (spelling : Text) (similar : List Text)
  /-- An option comes without its value. -/
  | valueMissing (spelling : Text)
  /-- An option comes with a value and takes none. -/
  | valueRefused (spelling : Text)
  | operandMissing (operand : Text)
  /-- A value is not allowed. -/
  | valueInvalid (place reason : Text)
  /-- There are more operands than the command takes. -/
  | operandsLeft (operands : List Text)
  deriving DecidableEq, Repr

namespace UsageError

/-- The hint at similar options. -/
def hint (similar : List Text) : Text :=
  match similar with
  | [] => []
  | [one] => " Did you mean " ++ one ++ "?"
  | several => " (Possible options: " ++ Text.join ", " (Text.sort several) ++ ")"

def message : UsageError → Text
  | noSuchOption spelling similar => "No such option: " ++ spelling ++ hint similar
  | valueMissing spelling => "Option " ++ Text.quoted spelling ++ " requires an argument."
  | valueRefused spelling => "Option " ++ Text.quoted spelling ++ " does not take a value."
  | operandMissing operand => "Missing argument " ++ Text.quoted operand ++ "."
  | valueInvalid place reason => "Invalid value for " ++ place ++ ": " ++ reason
  | operandsLeft operands =>
    let noun : Text := if operands.length = 1 then "argument" else "arguments"
    "Got unexpected extra " ++ noun ++ " (" ++ Text.join " " operands ++ ")"

/-- Whether the usage of the command is shown along with an error. -/
def showsUsage : UsageError → Bool
  | valueMissing _ => false
  | valueRefused _ => false
  | _ => true

end UsageError

namespace Spelling

/-- Whether a spelling is a hyphen and one character. -/
def isShort (s : Spelling) : Bool := s.text.length == 2

end Spelling

namespace Command

def usage (command : Command) : Text :=
  "Usage: " ++ command.name ++ " [OPTIONS] " ++ command.operands

def errorLines (command : Command) (e : UsageError) : List Text :=
  let advice : Text := "Try '" ++ command.name ++ " --help' for help."
  let heading : List Text := if e.showsUsage then [command.usage, advice, []] else []
  heading ++ ["Error: " ++ e.message]

def long? (command : Command) (text : Text) : Option Spelling :=
  command.spellings.find? fun s ↦ !s.isShort && s.text == text

def short? (command : Command) (c : Char) : Option Spelling :=
  command.spellings.find? fun s ↦ s.isShort && s.text == ['-', c]

def longTexts (command : Command) : List Text :=
  (command.spellings.filter (!·.isShort)).map (·.text)

/-! ## Taking arguments apart -/

/-- Options that were taken off, and the arguments that are left. -/
abbrev Taken := List (OptionName × Setting) × List Text

/-- An option that takes a value, with the first of the arguments as its value. -/
def takeValue (s : Spelling) : List Text → Except UsageError Taken
  | [] => .error (.valueMissing s.text)
  | value :: rest => .ok ([(s.option, .value value)], rest)

/-- A long option with the value that was attached to it, if any. -/
def takeLong (s : Spelling) (attached : Option Text) (rest : List Text) : Except UsageError Taken :=
  match s.effect, attached with
  | .value, some value => takeValue s (value :: rest)
  | .value, none => takeValue s rest
  | _, some _ => .error (.valueRefused s.text)
  | effect, none => .ok ([(s.option, .switch (effect == .on))], rest)

/-- Short options that are run together. -/
def takeShort (command : Command) (rest : List Text) : Text → Except UsageError Taken
  | [] => .ok ([], rest)
  | c :: cs =>
    match command.short? c with
    | none => .error (.noSuchOption ['-', c] [])
    | some s =>
      if s.effect = .value then takeValue s (if cs.isEmpty then rest else cs :: rest)
      else
        (command.takeShort rest cs).map fun (options, left) ↦
          ((s.option, .switch (s.effect == .on)) :: options, left)

/-- The option that an argument is. It is tried as a long option first. -/
def takeOption (command : Command) (argument : Text) (rest : List Text) : Except UsageError Taken :=
  let (text, attached) :=
    match Text.upTo? '=' argument with
    | some (text, value) => (text, some value)
    | none => (argument, none)
  match command.long? text with
  | some s => takeLong s attached rest
  | none =>
    if Text.startsWith argument "--" then
      .error (.noSuchOption text (Similar.names text command.longTexts))
    else command.takeShort rest (argument.drop 1)

/-- Whether an argument is an option. A single hyphen is an operand. -/
def isOption (argument : Text) : Bool := argument.head? == some '-' && 1 < argument.length

/-- Takes at most `fuel` arguments apart. -/
def parseWith (command : Command) : (fuel : Nat) → List Text → Except UsageError Arguments
  | 0, _ => .ok {}
  | _ + 1, [] => .ok {}
  | fuel + 1, argument :: rest =>
    if argument = ("--" : Text) then .ok { operands := rest }
    else if isOption argument then
      match command.takeOption argument rest with
      | .error e => .error e
      | .ok (options, left) =>
        (command.parseWith fuel left).map fun more ↦
          { more with options := options ++ more.options }
    else
      (command.parseWith fuel rest).map fun more ↦
        { more with operands := argument :: more.operands }

def parse (command : Command) (arguments : List Text) : Except UsageError Arguments :=
  command.parseWith arguments.length arguments

/-- How messages show an option: all its spellings that switch it on or give it a value. -/
def optionLabel (command : Command) (option : OptionName) : Text :=
  let shown := command.spellings.filter fun s ↦ s.option == option && s.effect != .off
  Text.join " / " (shown.map fun s ↦ Text.quoted s.text)

end Command

namespace Arguments

/-- What an option was set to last. -/
def setting? (arguments : Arguments) (option : OptionName) : Option Setting :=
  List.lookup option arguments.options.reverse

/-- Whether an option was switched on or off. -/
def switch? (arguments : Arguments) (option : OptionName) : Option Bool :=
  match arguments.setting? option with
  | some (.switch on) => some on
  | _ => none

def isOn (arguments : Arguments) (option : OptionName) : Bool :=
  (arguments.switch? option).getD false

def value? (arguments : Arguments) (option : OptionName) : Option Text :=
  match arguments.setting? option with
  | some (.value t) => some t
  | _ => none

/-- The options in the order in which they were first given. -/
def given (arguments : Arguments) : List OptionName := (arguments.options.map Prod.fst).eraseDups

end Arguments

end CommandLine

end PageCompiler
