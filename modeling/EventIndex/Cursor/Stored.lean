import EventIndex.Cursor.Basic
import EventIndex.Store.Snapshot

/-! # Stored — a cursor over a snapshot

A position in a snapshot, together with the sealed page decoded last. Steps
within one page read it once. Seeking first looks at the two tuples around the
gap and leaves the gap alone when the key already falls between them; only
otherwise does it go through the directory.
-/

namespace EventIndex

/-- A position in a snapshot, and the sealed page decoded last with its index. -/
structure Stored where
  view : Snapshot
  position : Nat
  page : Option (Nat × Array Tuple)
deriving DecidableEq, Repr

namespace Snapshot

/-- A cursor in front of the first tuple. -/
def first (v : Snapshot) : Stored := ⟨v, 0, none⟩

/-- A cursor behind the last tuple. -/
def last (v : Snapshot) : Stored := ⟨v, v.length, none⟩

/-- A cursor in front of the first tuple whose key is at least `key`. -/
def cursorAt (v : Snapshot) (key : UInt64) : Act PageFile Stored := do
  return ⟨v, ← v.lowerBound key, none⟩

end Snapshot

namespace Stored

/-- The tuples of the sealed page with an index, decoded anew unless it is the page decoded last. -/
def pageAt (index : Nat) (ref : PageRef) : Act (Over Stored) (Array Tuple) := do
  let c ← Over.current
  match c.page with
  | some (i, tuples) => if i = index then return tuples
  | none => pure ()
  let tuples ← Over.onPages (c.view.loadPage ref)
  Over.replace { c with page := some (index, tuples) }
  return tuples

/-- The tuple at a position. -/
def tupleAt (position : Nat) : Act (Over Stored) (Option Tuple) := do
  let v := (← Over.current).view
  if v.sealedLength ≤ position then return v.tail[position - v.sealedLength]?
  let index := v.pageOf position
  match v.directory[index]? with
  | none => return none
  | some ref => return (← pageAt index ref)[position - ref.start]?

/-- The tuple after the gap. -/
def peekNext : Act (Over Stored) (Option Tuple) := do
  tupleAt (← Over.current).position

/-- The tuple before the gap. -/
def peekPrevious : Act (Over Stored) (Option Tuple) := do
  match (← Over.current).position with
  | 0 => return none
  | position + 1 => tupleAt position

/-- The tuple after the gap; moves past it. -/
def next : Act (Over Stored) (Option Tuple) := do
  let found ← peekNext
  if found.isSome then
    let c ← Over.current
    Over.replace { c with position := c.position + 1 }
  return found

/-- The tuple before the gap; moves back over it. -/
def previous : Act (Over Stored) (Option Tuple) := do
  let found ← peekPrevious
  if found.isSome then
    let c ← Over.current
    Over.replace { c with position := c.position - 1 }
  return found

/-- Moves the gap in front of the first tuple whose key is at least `key`, unless it is there. -/
def seek (key : UInt64) : Act (Over Stored) Unit := do
  let before ← peekPrevious
  let after ← peekNext
  if before.all (·.key < key) && after.all (key ≤ ·.key) then return ()
  let position ← Over.onPages ((← Over.current).view.lowerBound key)
  let c ← Over.current
  Over.replace { c with position }

end Stored

instance : Cursor Stored where
  peekNext := Stored.peekNext
  peekPrevious := Stored.peekPrevious
  next := Stored.next
  previous := Stored.previous
  seek := Stored.seek
  extent c := c.view.length

end EventIndex
