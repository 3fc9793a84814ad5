import EventIndex.Role

/-! # Tuple — one entry of an ordered list

Lists of the index hold tuples ordered by a 64-bit key. There are three kinds
of list:

- *plain* lists hold event ids, each at most once;
- *role* lists hold event ids together with a role, and an event may occur
  several times;
- *stamp* lists hold timestamps, in the order of the events, and several
  events may share one.

A tuple has one shape for all three: a key, and a role exactly in role lists.
-/

namespace EventIndex

/-- The number of an event. Events are numbered from 0 in the order of their registration. -/
abbrev EventId := UInt64

/-- The time of an event. -/
abbrev Timestamp := UInt64

/-- The largest key. -/
def maxKey : UInt64 := 18446744073709551615

/-- The boundary just behind a key. Behind the largest key there is none, and the key itself
stands in for it. -/
def boundaryAfter (key : UInt64) : UInt64 := if key = maxKey then maxKey else key + 1

/-- One entry of an ordered list. -/
structure Tuple where
  key : UInt64
  role : Option Role
deriving DecidableEq, Repr, Inhabited

/-- The three kinds of ordered list. -/
inductive Kind where
  | plain | role | stamp
deriving DecidableEq, Repr

namespace Kind

/-- Whether neighbours in the list may share a key. -/
def allowsEqualKeys : Kind → Bool
  | plain => false
  | role | stamp => true

/-- Whether the tuples of the list carry a role. -/
def carriesRole : Kind → Bool
  | role => true
  | plain | stamp => false

/-- The tuple that a list of this kind makes of a key and a role. A role list takes a missing
role for `any`; the others drop the role. -/
def tuple (k : Kind) (key : UInt64) (role : Option Role) : Tuple :=
  if k.carriesRole then ⟨key, some (role.getD Role.any)⟩ else ⟨key, none⟩

/-- Whether a tuple has the shape that lists of this kind hold. -/
def Holds (k : Kind) (t : Tuple) : Prop := t.role.isSome = k.carriesRole

instance (k : Kind) (t : Tuple) : Decidable (k.Holds t) := inferInstanceAs (Decidable (_ = _))

end Kind

namespace Tuple

/-- A tuple of a plain list. -/
def plain (key : UInt64) : Tuple := ⟨key, none⟩

/-- A tuple of a role list. -/
def tagged (key : UInt64) (role : Role) : Tuple := ⟨key, some role⟩

/-- The tuple of a plain list seen as one of a role list: its role may be anything. -/
def widen (t : Tuple) : Tuple := ⟨t.key, some Role.any⟩

/-- Whether two tuples of one event may be joined. Tuples without a role join with all. -/
def compatible (t u : Tuple) : Bool :=
  match t.role, u.role with
  | some r, some s => r.compatible s
  | _, _ => true

end Tuple

end EventIndex
