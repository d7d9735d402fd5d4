import PageCompiler.Condition.Tree
import PageCompiler.OrderedMap

/-!
# Values of conditions

What a condition is evaluated over and what it evaluates to. Truth, equality and order follow the
rules of the running page: only null, false, zero, a NaN and the empty text do not hold, loose
equality and order convert to floating-point numbers, and the two connectives give one of their
operands.

A NaN differs from everything, and so do two lists that hold one at the same place. Yet the value of
a variable is one and the same wherever the variable stands, and a list or a record is identical to
itself. So an evaluation keeps track of the variables that values come from.

An integer can be too large to be converted to a floating-point number; that is the only way an
evaluation fails.
-/

namespace PageCompiler

namespace Condition

/-- A value a variable may have. -/
inductive Value where
  /-- The absent value. -/
  | null
  | bool (b : Bool)
  | int (i : Int)
  | float (x : Binary64)
  | text (t : Text)
  | list (items : List Value)
  /-- A record, with every key once. -/
  | record (members : List (Text × Value))

instance : Inhabited Value := ⟨.null⟩

/-- An integer is too large to be converted to a floating-point number. -/
structure IntegerTooLarge where
  deriving DecidableEq, Repr

def Literal.toValue : Literal → Value
  | .null => .null
  | .bool b => .bool b
  | .whole n => .int n
  | .float x => .float x
  | .text t => .text t

/-- A number of either kind. -/
inductive Number where
  | int (i : Int)
  | float (x : Binary64)

/-- Equality of numbers, without rounding. -/
def Number.equals : Number → Number → Bool
  | .int i, .int j => i == j
  | .int i, .float y => y.equalsInt i
  | .float x, .int j => x.equalsInt j
  | .float x, .float y => x.equals y

namespace Value

/-- Whether a value is made up of other values. -/
def isCompound : Value → Bool
  | list _ => true
  | record _ => true
  | _ => false

/-- The number that a value is; truth values count as zero and one. -/
def number? : Value → Option Number
  | bool b => some (.int (if b then 1 else 0))
  | int i => some (.int i)
  | float x => some (.float x)
  | _ => none

mutual

/-- Deep equality: numbers are compared without rounding, records without regard to order. -/
def same : Value → Value → Bool
  | null, null => true
  | text t, text u => t == u
  | list items, list others => sameItems items others
  | record members, record others => members.length == others.length && sameMembers members others
  | bool b, other =>
    match other.number? with
    | some n => (Number.int (if b then 1 else 0)).equals n
    | none => false
  | int i, other =>
    match other.number? with
    | some n => (Number.int i).equals n
    | none => false
  | float x, other =>
    match other.number? with
    | some n => (Number.float x).equals n
    | none => false
  | _, _ => false

/-- Deep equality of lists, item by item. -/
def sameItems : List Value → List Value → Bool
  | [], [] => true
  | v :: vs, w :: ws => same v w && sameItems vs ws
  | _, _ => false

/-- Whether every member of a record is a member of another. -/
def sameMembers : List (Text × Value) → List (Text × Value) → Bool
  | [], _ => true
  | (key, v) :: rest, others =>
    match OrderedMap.get? others key with
    | some w => same v w && sameMembers rest others
    | none => false

end

/-- Whether a value holds as a condition. -/
def truthy : Value → Bool
  | null => false
  | bool b => b
  | int i => i != 0
  | float x => !x.isNaN && !x.isZero
  | text t => !t.isEmpty
  | list _ => true
  | record _ => true

/-- The floating-point number a value converts to. A text without a number in it, a list and a
record convert to a NaN, and a blank text to zero. -/
def toNumber : Value → Except IntegerTooLarge Binary64
  | null => .ok .zero
  | bool b => .ok (.finite false (if b then Binary64.one else 0))
  | int i => (Binary64.ofInt? i).elim (.error ⟨⟩) .ok
  | float x => .ok x
  | text t =>
    let body := Text.trim t
    .ok (if body.isEmpty then .zero else (Binary64.ofText? body).getD .nan)
  | list _ => .ok .nan
  | record _ => .ok .nan

/-- Equality of values of the same kind, where all numbers are of one kind. -/
def identical : Value → Value → Bool
  | bool b, bool c => b == c
  | bool _, _ => false
  | _, bool _ => false
  | v, w => same v w

/-- Equality after conversion: null equals only itself, and two texts are compared as they are. -/
def looselyEqual : Value → Value → Except IntegerTooLarge Bool
  | null, null => .ok true
  | null, _ => .ok false
  | _, null => .ok false
  | text t, text u => .ok (t == u)
  | v, w => do
    let x ← v.toNumber
    let y ← w.toNumber
    return x.equals y

/-- Order: two texts by code points, anything else after conversion. -/
def ordered (onTexts : Text → Text → Bool) (onNumbers : Binary64 → Binary64 → Bool) :
    Value → Value → Except IntegerTooLarge Bool
  | text t, text u => .ok (onTexts t u)
  | v, w => do
    let x ← v.toNumber
    let y ← w.toNumber
    return onNumbers x y

end Value

/-! ## Operands -/

/-- What a part of a condition evaluates to: a value, and the variable it was taken from. -/
structure Operand where
  value : Value
  /-- The variable that has the value, unless the value was made by the condition itself. -/
  origin : Option Text := none

namespace Operand

/-- Whether two operands are one list or one record, that is, the value of one variable. -/
def isShared (v w : Operand) : Bool :=
  v.value.isCompound && v.origin.isSome && v.origin == w.origin

/-- Identity of operands: a list or a record is identical to itself, also when it holds a NaN. -/
def identical (v w : Operand) : Bool := isShared v w || Value.identical v.value w.value

/-- Whether a comparison holds between two operands. -/
def compare (op : Comparison) (v w : Operand) : Except IntegerTooLarge Bool :=
  match op with
  | .identical => .ok (identical v w)
  | .different => .ok (!identical v w)
  | .equal => Value.looselyEqual v.value w.value
  | .unequal => (Value.looselyEqual v.value w.value).map not
  | .below => Value.ordered Text.before Binary64.less v.value w.value
  | .atMost => Value.ordered Text.notAfter Binary64.lessOrEqual v.value w.value
  | .above => Value.ordered Text.before Binary64.less w.value v.value
  | .atLeast => Value.ordered Text.notAfter Binary64.lessOrEqual w.value v.value

end Operand

/-- The values of the variables; a variable without one is null. -/
abbrev Environment := OrderedMap Value

/-- The value of a variable. -/
def Environment.operand (env : Environment) (name : Text) : Operand :=
  ⟨(OrderedMap.get? env name).getD .null, some name⟩

/-- What a condition evaluates to. The two connectives pass on one of their operands. -/
def Tree.operand (env : Environment) : Tree → Except IntegerTooLarge Operand
  | .literal value => .ok { value := value.toValue }
  | .var name => .ok (env.operand name)
  | .not inner => do
    let v ← inner.operand env
    return { value := .bool (!v.value.truthy) }
  | .and left right => do
    let v ← left.operand env
    if v.value.truthy then right.operand env else return v
  | .or left right => do
    let v ← left.operand env
    if v.value.truthy then return v else right.operand env
  | .compare op left right => do
    let v ← left.operand env
    let w ← right.operand env
    return { value := .bool (← Operand.compare op v w) }

def Tree.evaluate (env : Environment) (tree : Tree) : Except IntegerTooLarge Value :=
  (tree.operand env).map Operand.value

end Condition

end PageCompiler
