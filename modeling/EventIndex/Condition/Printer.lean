import EventIndex.Condition.Basic

/-! # Printing conditions

The text of a condition is one that reads back as the same condition: every
`AND` and `OR` stands in parentheses, and a role is written by the name that
its dimension knows it by.
-/

namespace EventIndex

/-- The name of a role in a leaf on a dimension. Behaviors have names of their own. -/
def Leaf.roleName (d : Dimension) (r : Role) : String :=
  if d = .behavior then r.behaviorName?.getD r.name else r.name

/-- The text of a leaf. -/
def Leaf.text (l : Leaf) : String :=
  let comparison := l.dimension.name ++ " = " ++ l.value.toNat.repr
  match l.role with
  | none => comparison
  | some r => comparison ++ " : " ++ Leaf.roleName l.dimension r

namespace Condition

mutual

/-- The text of a condition. -/
def text : Condition → String
  | leaf l => l.text
  | all operands => "(" ++ joined " AND " operands ++ ")"
  | any operands => "(" ++ joined " OR " operands ++ ")"

/-- The texts of several conditions with a word between them. -/
def joined (word : String) : List Condition → String
  | [] => ""
  | [c] => text c
  | c :: cs => text c ++ word ++ joined word cs

end

end Condition

end EventIndex
