import PageCompiler.Component
import PageCompiler.Template.Attribute

/-!
# Lowering markup

The markup of a template has a syntax of its own for metadata, links, components, event handlers,
conditional blocks and bound variables. Each is lowered to plain markup by one pass over the whole
text, and the passes come in a fixed order:

    {title}                      the escaped value of a metadata key
    <Link href="/x">..</Link>    <a href="/x" data-link="true">..</a>
    <Counter start={5} />        <div data-component="Counter" ..></div>
    click={$increment}           data-click="$increment"
    input={$update}              data-event-input="$update"
    {#if cond}..{/if}            <div data-if="cond" style="display: none;">..</div>
    {$count}                     <span data-bind="$count"></span>

A pass finds its syntax from left to right and without overlap. Blocks do not nest: a block ends at
the first `{/if}`.
-/

namespace PageCompiler

namespace Markup

/-! ## Metadata -/

/-- A name in braces. -/
def readPlaceholder (t : Text) : Option (Text × Text) := do
  let (name, rest) ← Text.word? (← Text.after? ['\x7b'] t)
  let rest ← Text.after? ['\x7d'] rest
  some (name, rest)

/-- The value of a metadata key, escaped; anything else stays as it is. -/
def writePlaceholder (fields : FrontMatter) (name : Text) : Text :=
  match OrderedMap.get? fields name with
  | some value => Text.escape value
  | none => '\x7b' :: name ++ ['\x7d']

/-- Fills in the metadata. -/
def fillPlaceholders (fields : FrontMatter) (markup : Text) : Text :=
  Text.substitute readPlaceholder (writePlaceholder fields) markup

/-! ## Elements -/

/-- The text between the name of an opening tag and its end, and the rest. -/
def readOpening (name : Text) (t : Text) : Option (Text × Text) := do
  let rest ← Text.after? ('<' :: name) t
  if Text.atWordEnd rest then Text.upTo? '>' rest else none

/-- An element with its closing tag: the text of its attributes, and what it holds. -/
def readElement (name : Text) (t : Text) : Option ((Text × Text) × Text) := do
  let (attributes, rest) ← readOpening name t
  let (body, rest) ← Text.cut? ("</" ++ name ++ ">") rest
  some ((attributes, body), rest)

/-- A tag that closes itself: the text of its attributes. -/
def readSelfClosing (name : Text) (t : Text) : Option (Text × Text) := do
  let (attributes, rest) ← readOpening name t
  let attributes ← Text.before? ['/'] attributes
  some (Text.trimRight attributes, rest)

/-- The links of the page become anchors that the router follows. -/
def lowerLinks (markup : Text) : Text :=
  Text.substitute (readElement "Link")
    (fun (attributes, body) ↦
      "<a" ++ Text.trimRight attributes ++ " data-link=\"true\">" ++ body ++ "</a>")
    markup

/-- The opening of the element that a component is mounted on, up to its attributes. -/
def mountOpening (i : Import) : Text :=
  "<div data-component=\"" ++ i.name ++ "\" data-framework=\"" ++ i.framework.label ++
    "\" data-type=\"component\""

/-- The tags of one component become elements it is mounted on: first the tags that close
themselves, then those with a closing tag. -/
def lowerImport (markup : Text) (i : Import) : Text :=
  let closed :=
    Text.substitute (readSelfClosing i.name)
      (fun attributes ↦ mountOpening i ++ componentAttributes attributes ++ "></div>") markup
  Text.substitute (readElement i.name)
    (fun (attributes, body) ↦
      mountOpening i ++ componentAttributes attributes ++ ">" ++ body ++ "</div>")
    closed

/-- The tags of all components, import by import. -/
def lowerComponents (imports : List Import) (markup : Text) : Text :=
  imports.foldl lowerImport markup

/-! ## Events -/

/-- A handler for an event. -/
structure EventBinding where
  event : Text
  /-- The function that handles it. -/
  handler : Text
  deriving DecidableEq, Repr

/-- The handler after the name of an event: an equals sign and a variable in braces. -/
def readHandler (t : Text) : Option (Text × Text) := do
  let (handler, rest) ← Text.word? (← Text.after? ("=\x7b$" : Text) t)
  let rest ← Text.after? ['\x7d'] rest
  some (handler, rest)

/-- Splits markup into the handlers for events and the characters between. The name of an event is a
whole run of name characters and hyphens, and begins with a letter. -/
def eventPieces (markup : Text) : List (Piece EventBinding) :=
  match markup with
  | [] => []
  | c :: cs =>
    if inAttribute c then
      let name := c :: cs.takeWhile inAttribute
      let rest := cs.dropWhile inAttribute
      let plain := name.map Piece.plain
      match (if isLatinLetter c then readHandler rest else none) with
      | some (handler, after) =>
        if after.length ≤ cs.length then .found ⟨name, handler⟩ :: eventPieces after else plain
      | none => plain ++ eventPieces rest
    else .plain c :: eventPieces cs
termination_by markup.length
decreasing_by
  · simp only [List.length_cons]
    omega
  · have := (List.dropWhile_sublist inAttribute (l := cs)).length_le
    simp only [List.length_cons]
    omega
  · simp

/-- The name of the attribute that marks an element with a handler. -/
def EventBinding.marker (b : EventBinding) : Text :=
  if b.event = ("click" : Text) then "data-click" else "data-event-" ++ b.event

/-- The marker of a handler. -/
def EventBinding.render (b : EventBinding) : Text :=
  b.marker ++ "=\"$" ++ b.handler ++ "\""

/-- The handlers in markup, each once, in the order of their first appearance. -/
def eventBindings (markup : Text) : List EventBinding :=
  (eventPieces markup).foldl
    (fun seen piece ↦
      match piece with
      | .plain _ => seen
      | .found b => if b ∈ seen then seen else seen ++ [b])
    []

/-- The handlers become markers. -/
def lowerEvents (markup : Text) : Text :=
  (eventPieces markup).flatMap fun
    | .plain c => [c]
    | .found b => b.render

/-! ## Conditional blocks -/

/-- A block that is shown under a condition. -/
structure ConditionalBlock where
  /-- The condition, trimmed. -/
  condition : Text
  /-- What the block holds. -/
  body : Text
  deriving DecidableEq, Repr

/-- The opening of a block: a blank and at least one more character up to the closing brace. -/
def readCondition (t : Text) : Option (Text × Text) := do
  let (inside, rest) ← Text.upTo? '\x7d' (← Text.after? ("\x7b#if" : Text) t)
  match inside with
  | c :: _ :: _ => if isBlank c then some (Text.trim inside, rest) else none
  | _ => none

/-- A block, up to the first closing. -/
def readBlock (t : Text) : Option (ConditionalBlock × Text) := do
  let (condition, rest) ← readCondition t
  let (body, rest) ← Text.cut? ("\x7b/if\x7d" : Text) rest
  some (⟨condition, body⟩, rest)

/-- The element that a block becomes. -/
def ConditionalBlock.render (b : ConditionalBlock) : Text :=
  "<div data-if=\"" ++ Text.escape b.condition ++ "\" style=\"display: none;\">" ++ b.body ++
    "</div>"

/-- Whether a block holds the opening of another. -/
def ConditionalBlock.isNested (b : ConditionalBlock) : Bool := Text.contains b.body "\x7b#if"

/-- The blocks of markup, in order. -/
def blocks (markup : Text) : List ConditionalBlock := Text.findAll readBlock markup

/-- The blocks become hidden elements. -/
def lowerBlocks (markup : Text) : Text :=
  Text.substitute readBlock ConditionalBlock.render markup

/-! ## Bound variables -/

/-- A variable in braces. -/
def readBinding (t : Text) : Option (Text × Text) := do
  let (name, rest) ← Text.word? (← Text.after? ("\x7b$" : Text) t)
  let rest ← Text.after? ['\x7d'] rest
  some (name, rest)

/-- The element that shows a variable. -/
def writeBinding (name : Text) : Text := "<span data-bind=\"$" ++ name ++ "\"></span>"

/-- The bound variables, each once, in the order of their first appearance. -/
def bindings (markup : Text) : List Text := distinct (Text.findAll readBinding markup)

/-- The bound variables become elements that show them. -/
def lowerBindings (markup : Text) : Text := Text.substitute readBinding writeBinding markup

/-! ## All passes -/

/-- The markup that the events are read from: metadata, links and components are lowered. -/
def beforeEvents (c : Component) : Text :=
  lowerComponents c.imports (lowerLinks (fillPlaceholders c.fields c.markup))

/-- The markup that the blocks are read from: the events are lowered too. -/
def beforeBlocks (c : Component) : Text := lowerEvents (beforeEvents c)

/-- The markup that the bindings are read from: the blocks are lowered too. -/
def beforeBindings (c : Component) : Text := lowerBlocks (beforeBlocks c)

/-- The plain markup of a component. -/
def lower (c : Component) : Text := lowerBindings (beforeBindings c)

end Markup

end PageCompiler
