import EventIndex.Condition.Parser

/-! # The grammar of conditions

```text
condition := conjunct ( b OR b conjunct )*
conjunct  := term ( b AND b term )*
term      := '(' b condition b ')' | leaf
leaf      := name b '=' b digits [ b ':' b name ]
```

Here `b` is any run of blanks, keywords are the same in capitals or not, a name is as long as it can be
where it ends a leaf, and digits fit 64 bits. `Derives` says that a part of a text is derived by these
rules and with which tree: a chain of several operands makes one node, a chain of one and a pair of
parentheses make none.

The rules are about texts alone, without any order in which they are tried. What comes after a part is
told to each rule, since a name may not go on there.
-/

namespace EventIndex

open Text

namespace Condition

namespace Grammar

open Reader (isNameChar)

/-! ## Words -/

/-- A text that does not begin with a character of some kind. -/
def Stops (p : Char → Bool) (cs : List Char) : Prop := ∀ c ∈ cs.head?, p c = false

/-- A run of blanks. -/
def AllBlank (cs : List Char) : Prop := ∀ c ∈ cs, isBlank c = true

/-- A run of letters, numbers and underscores. -/
structure IsName (cs : List Char) : Prop where
  ne_nil : cs ≠ []
  all : ∀ c ∈ cs, isNameChar c = true

/-- Decimal digits that write a number of 64 bits. -/
structure Digits (cs : List Char) (value : UInt64) : Prop where
  ne_nil : cs ≠ []
  all : ∀ c ∈ cs, isDecimalDigit c = true
  number_eq : Nat.ofDigitChars 10 cs 0 = value.toNat

/-- The two ways to combine conditions. -/
inductive Connective where
  | and | or
deriving DecidableEq, Repr

/-- What a part of a text may be: a term, or a chain of operands with keywords between them. -/
inductive Rank where
  | term
  | chain (k : Connective)
deriving DecidableEq, Repr

namespace Connective

/-- The keyword, in small letters. -/
def word : Connective → List Char
  | and => ['a', 'n', 'd']
  | or => ['o', 'r']

/-- The node that several operands make. -/
def node : Connective → List Draft → Draft
  | and => .all
  | or => .any

/-- What the operands are: `AND` binds tighter than `OR`. -/
def operand : Connective → Rank
  | and => .term
  | or => .chain and

end Connective

/-- A keyword, in capitals or not. -/
def Spells (k : Connective) (cs : List Char) : Prop := lowerAscii cs = k.word

/-! ## Rules -/

/-- A name, an equals sign and a number. -/
inductive Compares : (text name : List Char) → UInt64 → Prop
  | intro {name b b' digits : List Char} {value : UInt64} (hname : IsName name) (hb : AllBlank b)
      (hb' : AllBlank b') (hdigits : Digits digits value) :
      Compares (name ++ (b ++ '=' :: (b' ++ digits))) name value

mutual

/-- A part of a text makes a tree, in front of the text that comes after it. -/
inductive Derives : Rank → (text after : List Char) → Draft → Prop
  | leaf {text after name : List Char} {value : UInt64} (h : Compares text name value) :
      Derives .term text after (.leaf name value none)
  | roleLeaf {text after name b b' role : List Char} {value : UInt64} (h : Compares text name value)
      (hb : AllBlank b) (hb' : AllBlank b') (hrole : IsName role) (hafter : Stops isNameChar after) :
      Derives .term (text ++ (b ++ ':' :: (b' ++ role))) after (.leaf name value (some role))
  | enclosed {text after b b' : List Char} {d : Draft} (hb : AllBlank b) (hb' : AllBlank b')
      (h : Derives (.chain .or) text (b' ++ ')' :: after) d) :
      Derives .term ('(' :: (b ++ (text ++ (b' ++ [')'])))) after d
  | single {k : Connective} {text after : List Char} {d : Draft} (h : Operands k text after [d]) :
      Derives (.chain k) text after d
  | several {k : Connective} {text after : List Char} {d₁ d₂ : Draft} {ds : List Draft}
      (h : Operands k text after (d₁ :: d₂ :: ds)) :
      Derives (.chain k) text after (k.node (d₁ :: d₂ :: ds))

/-- A part of a text makes the operands of a chain. -/
inductive Operands : Connective → (text after : List Char) → List Draft → Prop
  | last {k : Connective} {text after : List Char} {d : Draft} (h : Derives k.operand text after d) :
      Operands k text after [d]
  | cons {k : Connective} {text b word b' texts after : List Char} {d : Draft} {ds : List Draft}
      (h : Derives k.operand text (b ++ (word ++ (b' ++ (texts ++ after)))) d) (hb : AllBlank b)
      (hword : Spells k word) (hb' : AllBlank b') (hs : Operands k texts after ds) :
      Operands k (text ++ (b ++ (word ++ (b' ++ texts)))) after (d :: ds)

end

end Grammar

end Condition

end EventIndex
