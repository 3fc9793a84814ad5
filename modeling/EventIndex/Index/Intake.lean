import EventIndex.Index.Archive
import EventIndex.Index.Pool

/-! # Intake — writing to an index

The intake is an archive with the pool that writes to it in the background.
Writes to a set are collected in a batch of the set; a full batch is handed to
the pool at once, the others when they are flushed. Writes still in a batch are
invisible to readers.

How a task is handed on is a matter of its own: the operations that hand tasks
on take an action for it. `defer` leaves the task to a worker, and `submit`,
which the operations without one use, waits until it is done.
-/

namespace EventIndex

/-- An archive and the pool that writes to it. -/
abbrev Intake := Staffed Task Archive

namespace Intake

variable {α : Type}

/-- An archive with a pool of its own. -/
def create (archive : Archive) (workers : Nat) : Intake := ⟨.start workers, archive⟩

/-- Runs an action on the archive. -/
def onArchive (act : Act Archive α) : Act Intake α
  | ⟨pool, archive⟩ =>
    match act archive with
    | .ok a archive => .ok a ⟨pool, archive⟩
    | .error e archive => .error e ⟨pool, archive⟩

/-- Hands a task to the pool and leaves it to a worker. -/
def defer (t : Task) : Act Intake Unit := Staffed.defer t.group t

/-- Hands a task to the pool and waits until it is done. -/
def submit (t : Task) : Act Intake Unit := Staffed.submit Archive.perform t.group t

/-- Waits for the pool and hands out the first error since the last flush. -/
def flushPool : Act Intake Unit := Staffed.flush Archive.perform

/-- Replaces the pending writes of a set. -/
def setPending (id : SetId) (batch : Batch) : Act Intake Unit :=
  onArchive (modify fun a =>
    match a.set? id with
    | none => a
    | some set =>
      { a with
        shelf := { a.shelf with
          sets := a.shelf.sets.setIfInBounds id { set with pending := batch } } })

/-- The pending writes of a set. -/
def pending (id : SetId) : Act Intake Batch := do
  match (← get).state.set? id with
  | some set => return set.pending
  | none => return .empty 1

/-- Hands the pending writes of a set on. -/
def handOn (hand : Task → Act Intake Unit) (id : SetId) : Act Intake Unit := do
  let batch ← pending id
  setPending id batch.cleared
  hand (.batch id batch.entries.toList)

/-- Adds a write to those pending and hands them on if that makes enough. -/
def pushVia (hand : Task → Act Intake Unit) (id : SetId) (value : ValueId) (t : Tuple) :
    Act Intake Unit := do
  onArchive (Archive.checkLive id)
  let batch := (← pending id).push value t
  setPending id batch
  if batch.isFull then handOn hand id

/-- Hands the pending writes of a set on, if there are any. -/
def flushSetVia (hand : Task → Act Intake Unit) (id : SetId) : Act Intake Unit := do
  onArchive (Archive.checkLive id)
  if !(← pending id).isEmpty then handOn hand id

/-- Adds a write to those pending and has them applied if that makes enough. -/
def push (id : SetId) (value : ValueId) (t : Tuple) : Act Intake Unit := pushVia submit id value t

/-- Has the pending writes of a set applied, if there are any. -/
def flushSet (id : SetId) : Act Intake Unit := flushSetVia submit id

end Intake

/-- An intake beside the registration of its events. -/
structure Recorder where
  intake : Intake
  timeline : Timeline

namespace Recorder

variable {α : Type}

/-- Runs an action on the intake. -/
def onIntake (act : Act Intake α) : Act Recorder α
  | ⟨intake, timeline⟩ =>
    match act intake with
    | .ok a intake => .ok a ⟨intake, timeline⟩
    | .error e intake => .error e ⟨intake, timeline⟩

/-- Runs an action on the archive. -/
def onArchive (act : Act Archive α) : Act Recorder α := onIntake (Intake.onArchive act)

/-- Runs an action on the page file. -/
def onPages (act : Act PageFile α) : Act Recorder α := onArchive (Archive.onPages act)

/-- The list of timestamps that readers see. -/
def stamps : Act Recorder Snapshot := do return (← get).intake.state.stamps.snapshot

/-- Hands the pending timestamps on. -/
def handOnStamps (hand : Task → Act Intake Unit) : Act Recorder Unit := do
  let times := (← get).timeline.pending.toList
  modify fun r => { r with timeline := r.timeline.cleared }
  onIntake (hand (.stamps times))

/-- Registers an event and returns its number; hands the pending timestamps on if there are enough. -/
def registerVia (hand : Task → Act Intake Unit) (time : Timestamp) : Act Recorder EventId := do
  let (id, timeline) ← Act.ofExcept ((← get).timeline.accept time)
  modify fun r => { r with timeline }
  if timeline.isFull then handOnStamps hand
  return id

/-- Hands the pending timestamps on, if there are any. -/
def flushStampsVia (hand : Task → Act Intake Unit) : Act Recorder Unit := do
  let timeline := (← get).timeline
  Act.ofExcept timeline.checkLive
  if !timeline.pending.isEmpty then handOnStamps hand

/-- Registers an event and returns its number. -/
def register (time : Timestamp) : Act Recorder EventId := registerVia Intake.submit time

/-- Has the pending timestamps appended, if there are any. -/
def flushStamps : Act Recorder Unit := flushStampsVia Intake.submit

end Recorder

end EventIndex
