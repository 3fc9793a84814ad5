import EventIndex.Cursor.Basic

/-! # Listed — a cursor over tuples in memory

The plainest cursor, and the measure of all others: a list of tuples in key
order and a position in it.
-/

namespace EventIndex

/-- Tuples in key order and a position among them. -/
structure Listed where
  tuples : Array Tuple
  position : Nat
deriving DecidableEq, Repr

namespace Listed

/-- A cursor in front of the first tuple. -/
def ofList (ts : List Tuple) : Listed := ⟨ts.toArray, 0⟩

/-- The tuple after the gap. -/
def after (c : Listed) : Option Tuple := c.tuples[c.position]?

/-- The tuple before the gap. -/
def before (c : Listed) : Option Tuple :=
  if c.position = 0 then none else c.tuples[c.position - 1]?

/-- The cursor moved past the tuple after the gap, if there is one. -/
def forward (c : Listed) : Listed :=
  if c.after.isSome then { c with position := c.position + 1 } else c

/-- The cursor moved back over the tuple before the gap, if there is one. -/
def backward (c : Listed) : Listed :=
  if c.before.isSome then { c with position := c.position - 1 } else c

/-- The cursor in front of the first tuple whose key is at least `key`. -/
def sought (c : Listed) (key : UInt64) : Listed :=
  { c with position := c.tuples.findIdx fun t => key ≤ t.key }

end Listed

instance : Cursor Listed where
  peekNext s := .ok s.item.after s
  peekPrevious s := .ok s.item.before s
  next s := .ok s.item.after { s with item := s.item.forward }
  previous s := .ok s.item.before { s with item := s.item.backward }
  seek key s := .ok () { s with item := s.item.sought key }
  extent c := c.tuples.size

end EventIndex
