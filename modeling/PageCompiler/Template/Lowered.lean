import PageCompiler.Condition.Parser
import PageCompiler.Template.Markup

/-!
# Lowered templates

A lowered template is plain markup together with what the generated program has to know about it:
the handlers it marks, the conditions of its blocks, and the variables it shows.

A condition that is rejected stays in the table without a tree, and is reported as a warning the
first time it appears. A block inside a block is reported too.
-/

namespace PageCompiler

/-- Plain markup, and what it refers to. -/
structure Lowered where
  html : Text := []
  /-- The handlers it marks, each once. -/
  events : List Markup.EventBinding := []
  /-- The conditions of its blocks, each once, with their trees; a rejected one has none. -/
  conditions : OrderedMap (Option Condition.Tree) := []
  /-- The variables it shows, each once. -/
  bindings : List Text := []

structure Lowering where
  /-- The lowered template, or the numeral that ended the run. -/
  result : Except NumeralTooLong Lowered
  notes : List Note
  /-- What is wrong with the template. -/
  warnings : List Diagnostic

namespace Lowering

/-- The table of conditions so far, with what there was to say and what is wrong. -/
structure Table where
  /-- The conditions, or the numeral that ended the run. -/
  conditions : Except NumeralTooLong (OrderedMap (Option Condition.Tree))
  notes : List Note := []
  /-- What is wrong. -/
  warnings : List Diagnostic := []

/-- A warning about a component's template, with advice. -/
def templateWarning (c : Component) (message : Text) (advice : List Text) : Diagnostic :=
  { cause := .general message advice, file := some c.file, severity := .warning }

def warningNote (c : Component) (message : Text) : Note := .warning (c.file ++ ": " ++ message)

/-- The report on a block that holds the opening of another. -/
def nestingMessage (condition : Text) : Text :=
  "nested \x7b#if\x7d blocks are not supported (outer condition: " ++ condition ++ ")"

def nestingAdvice : List Text := ["Combine the conditions with && into a single \x7b#if\x7d block"]

def nestingWarnings (c : Component) (b : Markup.ConditionalBlock) : List Diagnostic :=
  if b.isNested then [templateWarning c (nestingMessage b.condition) nestingAdvice] else []

/-- The tree of a condition over the variables of a component, or the warning about it. -/
def compileCondition (c : Component) (condition : Text) :
    Except NumeralTooLong (Except Diagnostic Condition.Tree) :=
  match Condition.parse condition c.variableNames with
  | .ok tree => .ok (.ok tree)
  | .error e => (e.diagnostic condition c.variableNames (some c.file) .warning).map .error

/-- Enters a condition into a table unless it is there, and gives the warning when it is
rejected. -/
def enter (c : Component) (known : OrderedMap (Option Condition.Tree)) (condition : Text) :
    Except NumeralTooLong (OrderedMap (Option Condition.Tree)) × List Diagnostic :=
  if OrderedMap.contains known condition then (.ok known, [])
  else
    match compileCondition c condition with
    | .error e => (.error e, [])
    | .ok (.error d) => (.ok (OrderedMap.put condition none known), [d])
    | .ok (.ok tree) => (.ok (OrderedMap.put condition (some tree) known), [])

/-- Enters the conditions of blocks into a table, in order. -/
def tableFrom (c : Component) (known : OrderedMap (Option Condition.Tree)) :
    List Markup.ConditionalBlock → Table
  | [] => { conditions := .ok known }
  | b :: rest =>
    let (entered, rejected) := enter c known b.condition
    let warnings := nestingWarnings c b ++ rejected
    let notes := warnings.map fun d ↦ warningNote c d.message
    match entered with
    | .error e => { conditions := .error e, notes, warnings }
    | .ok more =>
      let table := tableFrom c more rest
      ⟨table.conditions, notes ++ table.notes, warnings ++ table.warnings⟩

end Lowering

def Component.lowerTemplate (c : Component) : Lowering :=
  let table := Lowering.tableFrom c [] (Markup.blocks (Markup.beforeBlocks c))
  { result := table.conditions.map fun conditions ↦
      { html := Markup.lower c
        events := Markup.eventBindings (Markup.beforeEvents c)
        conditions
        bindings := Markup.bindings (Markup.beforeBindings c) }
    notes := table.notes
    warnings := table.warnings }

end PageCompiler
