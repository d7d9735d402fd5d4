import PageCompiler.Condition.Token
import PageCompiler.Diagnostic

/-!
# Reading conditions

From tokens to trees, by the grammar

    disjunction := conjunction ("||" conjunction)*
    conjunction := negation ("&&" negation)*
    negation    := "!" negation | comparison
    comparison  := operand (op operand)?
    operand     := number | text | true | false | null | name | "(" disjunction ")"

where both chains group to the left. Each part of the grammar is a function of the part below it:
it takes a tree off the front of a list of tokens and gives the tokens that are left. Only the
operand leads back to the top, one parenthesis further in, so the number of tokens bounds how often
that happens. A name has to be declared. The first token that cannot be taken is the one the error
points at.

The depth of calls is unbounded here, so a condition of any size is read. The limit that is left
out is met not only by deep nesting, of parentheses or negations, but also by a flat chain of about
1000 `||` operands, when its tree is used (see `Condition.Tree`).
-/

namespace PageCompiler

namespace Condition

/-- What a condition is read against. -/
structure Scope where
  /-- The declared names. -/
  known : List Text
  /-- The offset of the end of the condition. -/
  stop : Nat

/-- Takes a tree off the front of a list of tokens. -/
abbrev TreeReader := List Token → Except Error (Tree × List Token)

/-- The literal that a name stands for, if it is a keyword. -/
def keyword? (spelling : Text) : Option Literal :=
  if spelling = ("true" : Text) then some (.bool true)
  else if spelling = ("false" : Text) then some (.bool false)
  else if spelling = ("null" : Text) then some .null
  else none

/-- The tree of a name. A spelling without a dollar sign may be a keyword. -/
def nameTree (scope : Scope) (spelling : Text) : Except Error Tree :=
  match keyword? spelling with
  | some value => .ok (.literal value)
  | none =>
    let name := spelling.dropWhile (· == '$')
    if name ∈ scope.known then .ok (.var name) else .error (.unknown name)

/-- The offset of the next token, or of the end. -/
def nextOffset (scope : Scope) : List Token → Nat
  | [] => scope.stop
  | token :: _ => token.offset

/-- A literal, a name, or in parentheses what `inner` reads. -/
def operand (scope : Scope) (inner : TreeReader) : TreeReader
  | [] => .error (.malformed .unexpectedEnd scope.stop)
  | ⟨.whole n, _⟩ :: rest => .ok (.literal (.whole n), rest)
  | ⟨.float x, _⟩ :: rest => .ok (.literal (.float x), rest)
  | ⟨.text t, _⟩ :: rest => .ok (.literal (.text t), rest)
  | ⟨.name spelling, _⟩ :: rest => (nameTree scope spelling).map (·, rest)
  | ⟨.opening, _⟩ :: rest =>
    match inner rest with
    | .error e => .error e
    | .ok (tree, ⟨.closing, _⟩ :: more) => .ok (tree, more)
    | .ok (_, left) => .error (.malformed .closingExpected (nextOffset scope left))
  | ⟨found, offset⟩ :: _ => .error (.malformed (.valueExpected found) offset)

/-- What `item` reads, alone or compared with another. -/
def comparison (item : TreeReader) : TreeReader := fun tokens ↦
  match item tokens with
  | .error e => .error e
  | .ok (left, ⟨.comparison op, _⟩ :: rest) =>
    (item rest).map fun (right, more) ↦ (.compare op left right, more)
  | .ok (left, rest) => .ok (left, rest)

/-- What `item` reads, after any number of negation signs. -/
def negation (item : TreeReader) : TreeReader
  | ⟨.not, _⟩ :: rest => (negation item rest).map fun (tree, more) ↦ (.not tree, more)
  | tokens => item tokens

/-- Goes on with a chain as long as its sign follows, at most `fuel` times. -/
def chainRest (sign : Lexeme) (join : Tree → Tree → Tree) (item : TreeReader) :
    (fuel : Nat) → Tree → TreeReader
  | 0, left, tokens => .ok (left, tokens)
  | _ + 1, left, [] => .ok (left, [])
  | fuel + 1, left, token :: rest =>
    if token.lexeme = sign then
      match item rest with
      | .error e => .error e
      | .ok (right, more) => chainRest sign join item fuel (join left right) more
    else .ok (left, token :: rest)

/-- Items with a sign between any two, grouped to the left. -/
def chain (sign : Lexeme) (join : Tree → Tree → Tree) (item : TreeReader) : TreeReader :=
  fun tokens ↦
    match item tokens with
    | .error e => .error e
    | .ok (first, rest) => chainRest sign join item rest.length first rest

/-- A disjunction with parentheses at most `depth` deep, where a list of at most `depth` tokens
cannot hold deeper ones. -/
def disjunction (scope : Scope) : (depth : Nat) → TreeReader
  | 0 => fun _ ↦ .error (.malformed .unexpectedEnd scope.stop)
  | depth + 1 =>
    let inner := operand scope (disjunction scope depth)
    chain .or .or (chain .and .and (negation (comparison inner)))

/-- The tree of a list of tokens, all of which have to be taken. -/
def ofTokens (scope : Scope) (tokens : List Token) : Except Error Tree :=
  if tokens.isEmpty then .error (.malformed .empty scope.stop)
  else
    match disjunction scope tokens.length tokens with
    | .error e => .error e
    | .ok (tree, []) => .ok tree
    | .ok (_, ⟨found, offset⟩ :: _) => .error (.malformed (.unexpectedToken found) offset)

def parse (condition : Text) (known : List Text) : Except Error Tree :=
  match scan condition with
  | .error e => .error e
  | .ok tokens => ofTokens ⟨known, condition.length⟩ tokens

/-- The report on a rejected condition. A numeral with too many digits is not reported but ends the
run. -/
def Error.diagnostic (condition : Text) (known : List Text) (file : Option Text)
    (severity : Severity) : Error → Except NumeralTooLong Diagnostic
  | .malformed fault offset =>
    .ok { cause := .conditionMalformed condition fault.reason offset, file, severity }
  | .unknown name => .ok { cause := .nameUnknown name condition known, file, severity }
  | .numeral refusal => .error refusal

end Condition

end PageCompiler
