import EventIndex.Store.Snapshot

/-! # Timeline — from events to timestamps and back

Events are numbered in the order of their registration, and their timestamps
never decrease. The timestamps are kept in one list in that order, so that the
position of a timestamp in the list is the number of its event, and the events
around a time are found by looking the time up in the list.

```text
event      0   1   2
timestamp 10  10  20
```

At or after 10 comes event 0, at or before 10 event 1; at or after 15 comes
event 2, at or before 15 event 1.
-/

namespace EventIndex

/-- Which event stands for a time that no event, or more than one, has. -/
inductive TieBreak where
  | atOrAfter
  | atOrBefore
deriving DecidableEq, Repr

/-- The registration of events. -/
structure Timeline where
  last : Option Timestamp
  nextId : EventId
  /-- Timestamps not yet submitted. -/
  pending : Array Tuple
  taskSize : Nat
  isDisposed : Bool
deriving Repr

namespace Timeline

/-- A timeline without events. -/
def create (taskSize : Nat) : Timeline where
  last := none
  nextId := 0
  pending := #[]
  taskSize := max taskSize 1
  isDisposed := false

/-- Fails if the timeline is disposed. -/
def checkLive (t : Timeline) : Except StorageError Unit :=
  if t.isDisposed then .error (.disposed "timestamps") else .ok ()

/-- Numbers an event, whose timestamp must not lie before the last one. -/
def accept (t : Timeline) (time : Timestamp) : Except StorageError (EventId × Timeline) :=
  match t.checkLive with
  | .error e => .error e
  | .ok () =>
    if t.last.any (time < ·) then .error (.outOfOrder time (t.last.getD 0))
    else
      .ok (t.nextId,
        { t with
          last := some time
          nextId := t.nextId + 1
          pending := t.pending.push (.plain time) })

/-- Whether enough timestamps are pending to submit them. -/
def isFull (t : Timeline) : Bool := t.taskSize ≤ t.pending.size

/-- The timeline without pending timestamps. -/
def cleared (t : Timeline) : Timeline := { t with pending := #[] }

/-- Drops the pending timestamps and takes no more. -/
def dispose (t : Timeline) : Timeline := { t.cleared with isDisposed := true }

end Timeline

/-! ## Looking times up

These are about the list of timestamps. -/

namespace Snapshot

/-- The event that stands for a time. -/
def eventAt (v : Snapshot) (time : Timestamp) : TieBreak → Act PageFile (Option Nat)
  | .atOrAfter => do
    let position ← v.lowerBound time
    return if position < v.length then some position else none
  | .atOrBefore => do
    let position ← v.upperBound time
    return if position = 0 then none else some (position - 1)

/-- The events with a timestamp from `t1` up to but not including `t2`: the first of them and the one
after the last. -/
def eventRange (v : Snapshot) (t1 t2 : Timestamp) : Act PageFile (Nat × Nat) := do
  let start ← v.lowerBound t1
  if t2 ≤ t1 then return (start, start)
  return (start, ← v.lowerBound t2)

/-- The timestamp of an event. -/
def timestampOf (v : Snapshot) (event : EventId) : Act PageFile (Option Timestamp) := do
  return (← v.get event.toNat).map Tuple.key

end Snapshot

end EventIndex
