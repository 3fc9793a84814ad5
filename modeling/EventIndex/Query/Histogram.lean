import EventIndex.Cursor.Basic
import EventIndex.Index.Timeline

/-! # Histogram — tuples counted by time

The time from `t1` up to `t2` is cut into a number of slots, and slot `i`
counts the tuples whose event has a timestamp `t` with
`(t - t1) * slots / (t2 - t1) = i`, rounded down.

`walkCounts` walks a cursor and looks every timestamp up. `Engine.fastCounts`
gets the same numbers for a single list by range counts.
-/

namespace EventIndex

/-- The slot of a timestamp, cut down to 64 bits. -/
def slotOf (t t1 t2 : Timestamp) (slots : Nat) : Nat :=
  (t - t1).toNat * slots / (t2 - t1).toNat % 18446744073709551616

namespace Histogram

variable {C : Type} [Cursor C]

/-- Counts the tuples of a cursor from its gap on, up to the first one at or after event `stop` or
without a timestamp, and no more than `fuel` of them. -/
def walkFrom (stamps : Snapshot) (t1 t2 : Timestamp) (slots stop : Nat) :
    (fuel : Nat) → Array Nat → Act (Over C) (Array Nat)
  | 0, counts => return counts
  | fuel + 1, counts => do
    match ← Cursor.next with
    | none => return counts
    | some t =>
      if stop ≤ t.key.toNat then return counts
      match ← Over.onPages (stamps.timestampOf t.key) with
      | none => return counts
      | some time =>
        walkFrom stamps t1 t2 slots stop fuel (counts.modify (slotOf time t1 t2 slots) (· + 1))

/-- The number of tuples of a cursor in each of `slots` slots between two times. -/
def walkCounts (stamps : Snapshot) (t1 t2 : Timestamp) (slots : Nat) :
    Act (Over C) (List Nat) := do
  if slots = 0 ∨ t2 ≤ t1 then return List.replicate slots 0
  let stop ← Over.onPages (stamps.lowerBound t2)
  let start ← Over.onPages (stamps.lowerBound t1)
  Cursor.seek (UInt64.ofNat start)
  let bound := Cursor.extent (← Over.current) + 1
  return (← walkFrom stamps t1 t2 slots stop bound (Array.replicate slots 0)).toList

end Histogram

end EventIndex
