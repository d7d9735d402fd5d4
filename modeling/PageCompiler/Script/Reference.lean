import PageCompiler.Text.Pieces

/-!
# References to variables

Scripts refer to a declared variable `name` as `$name`, and the generated program as `name.value`.
Only code has references: not the text of string literals, remarks and template literals, though
what stands between `${` and the brace that closes it is code again.

A dollar sign and a name are a reference when nothing before or after makes them part of something
larger: a name character, a dollar sign or a point before them, or a point after them.
-/

namespace PageCompiler

namespace Script

/-- What encloses a place in a script, innermost first. -/
inductive Frame where
  /-- The text of a template literal. -/
  | literal
  /-- Code between the braces of a template literal. -/
  | hole
  /-- A pair of braces inside such code. -/
  | brace
  deriving DecidableEq, Repr

inductive Lexeme where
  /-- Text that stays as it is. -/
  | text (t : Text)
  /-- A dollar sign and a name, standing as a reference would. -/
  | reference (name : Text)
  deriving DecidableEq, Repr

/-- A string literal from after its opening quote up to and including its closing quote, and the
rest. A line feed ends it too. -/
def stringRest (quote : Char) : Text → Text × Text
  | [] => ([], [])
  | [c] => ([c], [])
  | c :: d :: rest =>
    if c = '\\' then
      let (literal, after) := stringRest quote rest
      (c :: d :: literal, after)
    else if c = quote ∨ c = '\n' then ([c], d :: rest)
    else
      let (literal, after) := stringRest quote (d :: rest)
      (c :: literal, after)

theorem length_stringRest_le (quote : Char) (t : Text) :
    (stringRest quote t).2.length ≤ t.length := by
  fun_induction stringRest quote t <;> simp_all <;> omega

/-- A remark from after its opening up to and including its end, and the rest. -/
def remarkRest (t : Text) : Text × Text :=
  match Text.cut? "*/" t with
  | none => (t, [])
  | some (inside, after) => (inside ++ "*/", after)

theorem length_remarkRest_le (t : Text) : (remarkRest t).2.length ≤ t.length := by
  unfold remarkRest
  split
  · simp
  · next inside after h => exact Text.length_le_of_cut? h

/-- The name a text begins with, which is empty when it begins with none. -/
def nameAt : Text → Text
  | [] => []
  | c :: cs => if isLatinLetter c || c == '_' then c :: cs.takeWhile isWord else []

/-- Whether a character before a dollar sign makes it part of something larger. -/
def blocks (c : Char) : Bool := isWord c || c == '$' || c == '.'

/-- The name after a dollar sign that stands as a reference would, and the rest. Here `blocked` says
whether the character before the dollar sign is one that blocks. -/
def reference? (blocked : Bool) (t : Text) : Option (Text × Text) :=
  let name := nameAt t
  let rest := t.drop name.length
  if !name.isEmpty && !blocked && rest.head? != some '.' then some (name, rest) else none

theorem length_le_of_reference? {blocked : Bool} {t name rest : Text}
    (h : reference? blocked t = some (name, rest)) : rest.length ≤ t.length := by
  simp only [reference?] at h
  split at h
  · obtain ⟨-, rfl⟩ := Prod.mk.inj (Option.some.inj h)
    simp
  · simp at h

/-- A lexeme that was taken off a script, the frames after it, whether it ends with a character that
blocks, and the rest. -/
abbrev Step := Lexeme × List Frame × Bool × Text

/-- Takes one lexeme off the text of a template literal with the given frames around it. -/
def nextInLiteral (outer : List Frame) (c : Char) (cs : Text) : Step :=
  if c = '\\' then (.text (c :: cs.take 1), .literal :: outer, false, cs.drop 1)
  else if c = '\x60' then (.text [c], outer, false, cs)
  else
    match c, cs with
    | '$', '\x7b' :: rest => (.text ['$', '\x7b'], .hole :: .literal :: outer, false, rest)
    | _, _ => (.text [c], .literal :: outer, false, cs)

/-- Takes one lexeme off code inside the given frames, where `blocked` says whether the character
before is one that blocks. -/
def nextInCode (frames : List Frame) (blocked : Bool) (c : Char) (cs : Text) : Step :=
  if c = '\'' ∨ c = '"' then
    let literal := stringRest c cs
    (.text (c :: literal.1), frames, false, literal.2)
  else if c = '\x60' then (.text [c], .literal :: frames, false, cs)
  else
    match c, cs with
    | '/', '/' :: _ =>
      (.text (c :: cs.takeWhile (· != '\n')), frames, false, cs.dropWhile (· != '\n'))
    | '/', '*' :: rest =>
      let remark := remarkRest rest
      (.text ('/' :: '*' :: remark.1), frames, false, remark.2)
    | _, _ =>
      if c = '\x7b' && !frames.isEmpty then (.text [c], .brace :: frames, false, cs)
      else if c = '\x7d' && !frames.isEmpty then (.text [c], frames.tail, false, cs)
      else if c = '$' then
        match reference? blocked cs with
        | some (name, rest) => (.reference name, frames, true, rest)
        | none => (.text [c], frames, true, cs)
      else (.text [c], frames, blocks c, cs)

/-- Takes one lexeme off a script inside the given frames, where `blocked` says whether the
character before is one that blocks. -/
def next (frames : List Frame) (blocked : Bool) (c : Char) (cs : Text) : Step :=
  match frames with
  | .literal :: outer => nextInLiteral outer c cs
  | _ => nextInCode frames blocked c cs

theorem length_next_le (frames : List Frame) (blocked : Bool) (c : Char) (cs : Text) :
    (next frames blocked c cs).2.2.2.length ≤ cs.length := by
  have literal := length_stringRest_le c cs
  have line := (List.dropWhile_sublist (fun d ↦ d != '\n') (l := cs)).length_le
  have remark := length_remarkRest_le cs.tail
  have name (n r : Text) (h : reference? blocked cs = some (n, r)) : r.length ≤ cs.length :=
    length_le_of_reference? h
  unfold next nextInLiteral nextInCode
  repeat' split
  all_goals grind

/-- The lexemes of a script inside the given frames. -/
def lexFrom (frames : List Frame) (blocked : Bool) (script : Text) : List Lexeme :=
  match script with
  | [] => []
  | c :: cs =>
    let step := next frames blocked c cs
    step.1 :: lexFrom step.2.1 step.2.2.1 step.2.2.2
termination_by script.length
decreasing_by
  have := length_next_le frames blocked c cs
  simp only [List.length_cons]
  omega

def lex (script : Text) : List Lexeme := lexFrom [] false script

def Lexeme.source : Lexeme → Text
  | .text t => t
  | .reference name => '$' :: name

/-- A lexeme as the generated program has it. -/
def Lexeme.dereferenced (names : List Text) : Lexeme → Text
  | .text t => t
  | .reference name => if name ∈ names then name ++ ".value" else '$' :: name

/-- A script in which every reference to one of the given names reads the value of the variable. -/
def dereference (names : List Text) (script : Text) : Text :=
  (lex script).flatMap (Lexeme.dereferenced names)

end Script

end PageCompiler
