import EventIndex.Role
import EventIndex.Dimension

/-! # Condition — which events a query selects

A condition is a tree. A leaf compares one dimension to one value and may
restrict the role; `all` and `any` combine conditions.

```text
thread = 3
behavior = 12 : called
thread = 3 AND (depth = 2 OR depth = 3) AND object = 42 : target
```
-/

namespace EventIndex

/-- One comparison of a dimension with a value. -/
structure Leaf where
  dimension : Dimension
  value : UInt64
  role : Option Role
deriving DecidableEq, Repr

/-- A condition on events. -/
inductive Condition where
  | leaf (l : Leaf)
  /-- Events that satisfy every operand. -/
  | all (operands : List Condition)
  /-- Events that satisfy some operand. -/
  | any (operands : List Condition)
deriving Inhabited, Repr

namespace Condition

mutual

/-- The number of leaves, which is the number of lists that a query opens. -/
def leafCount : Condition → Nat
  | leaf _ => 1
  | all operands => leafCounts operands
  | any operands => leafCounts operands

/-- The number of leaves of several conditions. -/
def leafCounts : List Condition → Nat
  | [] => 0
  | c :: cs => leafCount c + leafCounts cs

end

end Condition

end EventIndex
