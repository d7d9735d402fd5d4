import PageCompiler.Json

/-!
# Condition trees

The conditions that templates put on their blocks, as trees over literals and declared variables,
and the form in which the running page reads them.

The functions on trees call themselves as often as the tree is deep, and that depth is unbounded
here. Where calls may nest only so far, say a thousand times, deeply nested conditions are not the
only ones to fail: chains group to the left, so a flat chain of about 1000 `||` operands is a tree of
that depth, with no parenthesis in it. Such a limit is left out.
-/

namespace PageCompiler

namespace Condition

inductive Literal where
  /-- The absent value. -/
  | null
  | bool (b : Bool)
  | whole (n : Nat)
  /-- A number with a fraction. -/
  | float (x : Binary64)
  | text (t : Text)
  deriving DecidableEq, Repr

inductive Comparison where
  /-- Equality of values of the same kind. -/
  | identical
  /-- The negation of `identical`. -/
  | different
  /-- Equality after conversion to numbers. -/
  | equal
  /-- The negation of `equal`. -/
  | unequal
  | atMost
  | atLeast
  | below
  | above
  deriving DecidableEq, Repr

/-- How a comparison is written. -/
def Comparison.symbol : Comparison → Text
  | .identical => "==="
  | .different => "!=="
  | .equal => "=="
  | .unequal => "!="
  | .atMost => "<="
  | .atLeast => ">="
  | .below => "<"
  | .above => ">"

inductive Tree where
  | literal (value : Literal)
  /-- The current value of a variable. -/
  | var (name : Text)
  | not (operand : Tree)
  /-- A conjunction: its right side counts only when its left side holds. -/
  | and (left right : Tree)
  /-- A disjunction: its right side counts only when its left side does not hold. -/
  | or (left right : Tree)
  | compare (op : Comparison) (left right : Tree)
  deriving DecidableEq, Repr

def Literal.toJson : Literal → Json
  | .null => .null
  | .bool b => .bool b
  | .whole n => .int n
  | .float x => .float x
  | .text t => .text t

namespace Tree

/-- The object the running page reads a condition from. -/
def toJson : Tree → Json
  | literal value => .object [("type", .text "literal"), ("value", value.toJson)]
  | var name => .object [("type", .text "var"), ("name", .text name)]
  | not operand => .object [("type", .text "not"), ("operand", operand.toJson)]
  | and left right =>
    .object [("type", .text "and"), ("left", left.toJson), ("right", right.toJson)]
  | or left right =>
    .object [("type", .text "or"), ("left", left.toJson), ("right", right.toJson)]
  | compare op left right =>
    .object [("type", .text "compare"), ("op", .text op.symbol), ("left", left.toJson),
      ("right", right.toJson)]

/-- A condition as it stands in a script. -/
def toScript (tree : Tree) : Text := tree.toJson.write .compact

end Tree

/-- A condition as it stands in a script; one that was rejected is null. -/
def scriptOf : Option Tree → Text
  | none => "null"
  | some tree => tree.toScript

end Condition

end PageCompiler
