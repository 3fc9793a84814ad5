import EventIndex.Page.Over
import EventIndex.Tuple

/-! # Cursor — a gap between two tuples

A cursor sits in a gap of an ordered list. `next` returns the tuple after the
gap and moves past it, `previous` returns the tuple before the gap and moves
back over it, the two peeks only look, and `seek` moves the gap in front of the
first tuple whose key is at least the one sought.

Cursors read from a page file, and reading changes the file's cache and
counters. An operation is therefore an action on a cursor *over* a page file.

Some cursors can only step. `Cursor.walk` seeks on any cursor step by step:
back while the tuple before the gap is not below the key, then forward while
the tuple after it is. `extent` bounds how many steps lie between the two ends
of a cursor's list, and with it every such loop.
-/

namespace EventIndex

/-- Types whose values are cursors. -/
class Cursor (C : Type) where
  /-- The tuple after the gap. -/
  peekNext : Act (Over C) (Option Tuple)
  /-- The tuple before the gap. -/
  peekPrevious : Act (Over C) (Option Tuple)
  /-- The tuple after the gap; moves past it. -/
  next : Act (Over C) (Option Tuple)
  /-- The tuple before the gap; moves back over it. -/
  previous : Act (Over C) (Option Tuple)
  /-- Moves the gap in front of the first tuple whose key is at least `key`. -/
  seek (key : UInt64) : Act (Over C) Unit
  /-- No fewer than the steps from one end of the list to the other. -/
  extent : C → Nat

namespace Cursor

variable {C : Type} [Cursor C]

/-! ## Seeking step by step -/

/-- Moves back, at most `fuel` times, while the tuple before the gap has a key of at least `key`. -/
def walkBack (key : UInt64) : (fuel : Nat) → Act (Over C) Unit
  | 0 => return ()
  | fuel + 1 => do
    match ← peekPrevious with
    | none => return ()
    | some t =>
      if t.key < key then return ()
      let _ ← previous
      walkBack key fuel

/-- Moves on, at most `fuel` times, while the tuple after the gap has a key below `key`. -/
def walkForward (key : UInt64) : (fuel : Nat) → Act (Over C) Unit
  | 0 => return ()
  | fuel + 1 => do
    match ← peekNext with
    | none => return ()
    | some t =>
      if key ≤ t.key then return ()
      let _ ← next
      walkForward key fuel

/-- Seeks step by step. -/
def walk (key : UInt64) : Act (Over C) Unit := do
  let bound := extent (← Over.current) + 1
  walkBack key bound
  walkForward key bound

/-! ## Taking several tuples -/

/-- Up to `limit` tuples, going forward. -/
def collectForward : (limit : Nat) → Act (Over C) (List Tuple)
  | 0 => return []
  | limit + 1 => do
    match ← next with
    | none => return []
    | some t => return t :: (← collectForward limit)

/-- Up to `limit` tuples going backward, the nearest first. -/
def collectBackward : (limit : Nat) → Act (Over C) (List Tuple)
  | 0 => return []
  | limit + 1 => do
    match ← previous with
    | none => return []
    | some t => return t :: (← collectBackward limit)

/-- The most tuples that a caller can ask for. -/
def allTuples : Nat := 18446744073709551615

/-- The keys of all tuples after the gap. -/
def remainingKeys : Act (Over C) (List UInt64) := do
  return (← collectForward allTuples).map Tuple.key

end Cursor

end EventIndex
