import EventIndex.Condition.Basic
import EventIndex.Query.Error
import EventIndex.Text.CharClass

/-! # Reading conditions

```text
condition := conjunct ( OR conjunct )*
conjunct  := term ( AND term )*
term      := '(' condition ')' | leaf
leaf      := name '=' number [ ':' name ]
```

Blanks may stand between any two words and are needed nowhere. The keywords
are the same in capitals or not. `AND` binds tighter than `OR`; a chain of
several operands makes one node, a chain of one and a pair of parentheses make
none.

The text is first read as a `Draft`, in which names are mere texts, and
`Draft.resolve` then gives them their meaning. So a text that is no condition
is told apart from one that names an unknown dimension or a wrong role.

A chain ends before the keyword whose operand cannot be read. Therefore only
the first term of a text can be refused; whatever goes wrong after it is left
over.
-/

namespace EventIndex

open Text

/-- A condition before its names have a meaning. -/
inductive Draft where
  | leaf (dimension : List Char) (value : UInt64) (role : Option (List Char))
  | all (operands : List Draft)
  | any (operands : List Draft)
deriving Repr

namespace Condition.Reader

/-- What reading comes to: a value and the text after it, or a refusal. -/
abbrev Outcome (α : Type) := Except Refusal (α × List Char)

/-! ## Words -/

/-- A text without the blanks at its beginning. -/
def skipBlanks (cs : List Char) : List Char := cs.dropWhile isBlank

/-- Whether a character may be part of a name. -/
def isNameChar (c : Char) : Bool := isAlphanumeric c || c = '_'

/-- A name: one or more letters, numbers and underscores. -/
def name (cs : List Char) : Outcome (List Char) :=
  if cs.takeWhile isNameChar = [] then .error ⟨cs, .identifier⟩
  else .ok (cs.takeWhile isNameChar, cs.dropWhile isNameChar)

/-- A decimal number of 64 bits. -/
def number (cs : List Char) : Outcome UInt64 :=
  let digits := cs.takeWhile isDecimalDigit
  if digits = [] then .error ⟨cs, .number⟩
  else
    match digits? (UInt64.size - 1) digits with
    | some n => .ok (UInt64.ofNat n, cs.dropWhile isDecimalDigit)
    | none => .error ⟨cs, .smallerNumber⟩

/-- The text after a given character, if it begins with it. -/
def after? (c : Char) : List Char → Option (List Char)
  | d :: ds => if d = c then some ds else none
  | [] => none

/-- The text after a word in small letters, if it begins with it, in capitals or not. -/
def afterWord? (word cs : List Char) : Option (List Char) :=
  if lowerAscii (cs.take word.length) = word then some (cs.drop word.length) else none

/-- The text after a keyword and the blanks around it. -/
def afterKeyword? (word cs : List Char) : Option (List Char) :=
  (afterWord? word (skipBlanks cs)).map skipBlanks

/-! ## Leaves -/

/-- The role of a leaf: a colon and a name. Nothing is read if the name is missing. -/
def role (cs : List Char) : Option (List Char) × List Char :=
  match after? ':' (skipBlanks cs) with
  | none => (none, cs)
  | some rest =>
    match name (skipBlanks rest) with
    | .ok (r, rest) => (some r, rest)
    | .error _ => (none, cs)

/-- A leaf. -/
def leaf (cs : List Char) : Outcome Draft :=
  match name cs with
  | .error r => .error r
  | .ok (dimension, rest) =>
    match after? '=' (skipBlanks rest) with
    | none => .error ⟨skipBlanks rest, .equalsSign⟩
    | some rest =>
      match number (skipBlanks rest) with
      | .error r => .error r
      | .ok (value, rest) =>
        let (r, rest) := role rest
        .ok (.leaf dimension value r, rest)

/-! ## Chains -/

/-- The operands after the first one, each behind a keyword, and the text after the last that can
be read. Each takes its keyword off the text, so `fuel` need not exceed the text's length. -/
def operands (word : List Char) (item : List Char → Outcome Draft) :
    (fuel : Nat) → List Char → List Draft × List Char
  | 0, cs => ([], cs)
  | fuel + 1, cs =>
    match afterKeyword? word cs with
    | none => ([], cs)
    | some rest =>
      match item rest with
      | .error _ => ([], cs)
      | .ok (d, rest) =>
        let (ds, rest) := operands word item fuel rest
        (d :: ds, rest)

/-- A chain of operands, which makes a node only if there are several. -/
def chain (word : List Char) (node : List Draft → Draft) (item : List Char → Outcome Draft)
    (cs : List Char) : Outcome Draft :=
  match item cs with
  | .error r => .error r
  | .ok (first, rest) =>
    match operands word item rest.length rest with
    | ([], rest) => .ok (first, rest)
    | (others, rest) => .ok (node (first :: others), rest)

/-- A condition made of given terms. -/
def conditionOf (term : List Char → Outcome Draft) : List Char → Outcome Draft :=
  chain ['o', 'r'] .any (chain ['a', 'n', 'd'] .all term)

/-- A condition in parentheses. -/
def enclosed? (condition : List Char → Outcome Draft) (cs : List Char) :
    Option (Draft × List Char) :=
  match after? '(' cs with
  | none => none
  | some rest =>
    match condition (skipBlanks rest) with
    | .error _ => none
    | .ok (d, rest) => (after? ')' (skipBlanks rest)).map fun rest => (d, rest)

/-- A term with at most `depth` parentheses open at a time. -/
def term : (depth : Nat) → List Char → Outcome Draft
  | 0, cs => leaf cs
  | depth + 1, cs =>
    match enclosed? (conditionOf (term depth)) cs with
    | some found => .ok found
    | none => leaf cs

/-- A condition at the beginning of a text. No more parentheses can be open than there are
characters. -/
def condition (cs : List Char) : Outcome Draft := conditionOf (term cs.length) cs

end Condition.Reader

namespace Draft

/-! ## The meaning of names -/

/-- The role that a name means on a dimension. -/
def resolveRole (d : Dimension) (name : String) : Except QueryError Role :=
  let small := String.ofList (lowerAscii name.toList)
  if d = .behavior then
    match Role.ofBehaviorName? small with
    | some r => .ok r
    | none => .error (.invalidRole (.notABehaviorRole name))
  else if !d.isRoleTagged then .error (.invalidRole (.dimensionWithoutRoles d))
  else if small ≠ "any" ∧ (Role.ofBehaviorName? small).isSome then
    .error (.invalidRole (.behaviorRole name d))
  else
    match Role.ofName? small with
    | some r => .ok r
    | none => .error (.invalidRole (.unknown small))

/-- The leaf that a draft of one means. -/
def resolveLeaf (dimension : List Char) (value : UInt64) (role : Option (List Char)) :
    Except QueryError Leaf :=
  match Dimension.ofName? (String.ofList dimension) with
  | none => .error (.unknownDimension (String.ofList dimension))
  | some d =>
    match role with
    | none => .ok ⟨d, value, none⟩
    | some name =>
      match resolveRole d (String.ofList name) with
      | .error e => .error e
      | .ok r => .ok ⟨d, value, some r⟩

mutual

/-- The condition that a draft means. -/
def resolve : Draft → Except QueryError Condition
  | leaf dimension value role => (resolveLeaf dimension value role).map Condition.leaf
  | all operands => (resolveAll operands).map Condition.all
  | any operands => (resolveAll operands).map Condition.any

/-- The conditions that several drafts mean, up to the first that means none. -/
def resolveAll : List Draft → Except QueryError (List Condition)
  | [] => .ok []
  | d :: ds =>
    match resolve d with
    | .error e => .error e
    | .ok c =>
      match resolveAll ds with
      | .error e => .error e
      | .ok cs => .ok (c :: cs)

end

end Draft

namespace Condition

/-- The draft that a text holds, white space around it apart. -/
def draft (text : List Char) : Except QueryError Draft :=
  match Reader.condition (trim text) with
  | .error r => .error (.refused r)
  | .ok (d, rest) => if trim rest = [] then .ok d else .error (.leftover (trim rest))

/-- The condition that a text holds. -/
def parse (text : String) : Except QueryError Condition :=
  match draft text.toList with
  | .error e => .error e
  | .ok d => d.resolve

end Condition

end EventIndex
