import EventIndex.Cursor.Stored
import EventIndex.Index.Intake
import EventIndex.Proofs.Index.Trend
import EventIndex.Proofs.Index.Book

/-! # Ledger — an index without pages at work

A `Call` is one thing that can happen to an index: a write, a look-up, a list written out at once, an
event registered, a page read by somebody who walks a snapshot, or a worker that takes a job of its
queue. Batches are therefore applied at any time after they were submitted, in the order of their
queue. `Recorder.run` lets a sequence of calls happen to an index.

A `Ledger` is what the index would be without pages. It keeps each list as a list of tuples and
collects writes, hands batches to a pool and lets workers take them just as the index does; looking
a list up and writing it out do nothing to it.
-/

namespace EventIndex

/-- One thing that can happen to an index with `n` sets. -/
inductive Call (n : Nat) where
  | push (set : Fin n) (value : ValueId) (key : UInt64) (role : Option Role)
  | flushSet (set : Fin n)
  | lookUp (set : Fin n) (value : ValueId)
  | discard (set : Fin n) (value : ValueId)
  | register (time : Timestamp)
  | flushStamps
  /-- A worker takes the oldest job of its queue. -/
  | work (worker : Nat)
  /-- A flush puts a barrier into every queue. -/
  | raiseBarriers
  /-- A flush hands the first error out. -/
  | takeError
  /-- Somebody reads a page. -/
  | readPage (page : PageId)
deriving Repr

namespace Snapshot

/-- The tuples of a snapshot, read one after another. -/
def toList (v : Snapshot) : Act PageFile (List Tuple) := fun pages =>
  match Cursor.collectForward (v.length + 1) ⟨v.first, pages⟩ with
  | .ok ts s => .ok ts s.pages
  | .error e s => .error e s.pages

end Snapshot

/-! ## The index -/

/-- How an index is set up. -/
structure Setup where
  pageSize : Nat
  /-- The pages in the cache. -/
  cachePages : Nat
  /-- The lists that stay in memory. -/
  capacity : Nat
  useThreshold : Nat
  workers : Nat
  /-- The timestamps of a task. -/
  stampTaskSize : Nat
  /-- The name, the kind and the tuples of a batch, for each set. -/
  shapes : List (String × Kind × Nat)

namespace Setup

/-- The archive of a fresh index. -/
def archive (u : Setup) (pages : PageFile) : Archive :=
  u.shapes.foldl (fun a shape => a.addSet shape.1 shape.2.1 shape.2.2)
    (Archive.create pages (Residency.create u.capacity u.useThreshold))

/-- A fresh index, if the page size is allowed. -/
def start (u : Setup) : Except StorageError Recorder :=
  match PageFile.create u.pageSize u.cachePages with
  | .error e => .error e
  | .ok pages => .ok ⟨Intake.create (u.archive pages) u.workers, Timeline.create u.stampTaskSize⟩

end Setup

namespace Recorder

variable {n : Nat}

/-- The archive of an index. -/
def archive (r : Recorder) : Archive := r.intake.state

/-- The kind of a set. -/
def kindOf (r : Recorder) (id : SetId) : Kind := ((r.archive.set? id).map (·.kind)).getD .plain

/-- What a call does. -/
def act : Call n → Act Recorder Unit
  | .push set value key role => do
    let k := (← get).kindOf set
    onIntake (Intake.pushVia Intake.defer set value (k.tuple key role))
  | .flushSet set => onIntake (Intake.flushSetVia Intake.defer set)
  | .lookUp set value => do
    let _ ← onArchive (Archive.lookUp set value)
  | .discard set value => onArchive (Archive.discard set value)
  | .register time => do
    let _ ← registerVia Intake.defer time
  | .flushStamps => flushStampsVia Intake.defer
  | .work worker => modify fun r => { r with intake := r.intake.work Archive.perform worker }
  | .raiseBarriers =>
    modify fun r => { r with intake := { r.intake with pool := r.intake.pool.raiseBarriers } }
  | .takeError =>
    modify fun r =>
      { r with intake := { r.intake with pool := { r.intake.pool with firstError := none } } }
  | .readPage page => do
    let _ ← onPages (PageFile.read page)

/-- The index after a call, whether it failed or not. -/
def next (r : Recorder) (call : Call n) : Recorder := Act.after (act call) r

/-- The index after some calls. -/
def run (r : Recorder) (calls : List (Call n)) : Recorder := calls.foldl next r

end Recorder

/-! ## The ledger -/

/-- The lists of an index, the writes not yet submitted, and the pool that applies the others. -/
structure Ledger where
  staffed : Staffed Task Book
  pending : SetId → Batch
  timeline : Timeline

namespace Ledger

variable {n : Nat}

/-- The lists. -/
def book (l : Ledger) : Book := l.staffed.state

/-- Hands a task to the pool. -/
def hand (l : Ledger) (t : Task) : Ledger :=
  { l with staffed := Act.after (Staffed.defer t.group t) l.staffed }

/-- Hands the pending writes of a set to the pool. -/
def handOn (l : Ledger) (id : SetId) : Ledger :=
  { l with pending := Function.update l.pending id (l.pending id).cleared }.hand
    (.batch id (l.pending id).entries.toList)

/-- Hands the pending timestamps to the pool. -/
def handOnStamps (l : Ledger) : Ledger :=
  { l with timeline := l.timeline.cleared }.hand (.stamps l.timeline.pending.toList)

/-- A tuple joins the pending writes of its set; a full batch is handed on. -/
def push (l : Ledger) (id : SetId) (value : ValueId) (t : Tuple) : Ledger :=
  let l := { l with pending := Function.update l.pending id ((l.pending id).push value t) }
  if (l.pending id).isFull then l.handOn id else l

/-- An event is numbered unless its timestamp lies before the last one. -/
def register (l : Ledger) (time : Timestamp) : Ledger :=
  match l.timeline.accept time with
  | .error _ => l
  | .ok (_, timeline) =>
    let l := { l with timeline }
    if timeline.isFull then l.handOnStamps else l

/-- The ledger after a call. -/
def next (l : Ledger) : Call n → Ledger
  | .push set value key role =>
    l.push set value (((l.book.kind? set).getD .plain).tuple key role)
  | .flushSet set => if (l.pending set).isEmpty then l else l.handOn set
  | .register time => l.register time
  | .flushStamps => if l.timeline.pending.isEmpty then l else l.handOnStamps
  | .work worker => { l with staffed := l.staffed.work Book.perform worker }
  | .raiseBarriers => { l with staffed := { l.staffed with pool := l.staffed.pool.raiseBarriers } }
  | .takeError =>
    { l with
      staffed := { l.staffed with pool := { l.staffed.pool with firstError := none } } }
  | .lookUp _ _ | .discard _ _ | .readPage _ => l

/-- The ledger after some calls. -/
def run (l : Ledger) (calls : List (Call n)) : Ledger := calls.foldl next l

end Ledger

/-- The ledger of a fresh index. -/
def Setup.ledger (u : Setup) : Ledger where
  staffed := ⟨.start u.workers,
    { kind? := fun id => u.shapes[id]?.map (·.2.1), lists := fun _ _ => [], stamps := [] }⟩
  pending id := .empty ((u.shapes[id]?.map (·.2.2)).getD 1)
  timeline := .create u.stampTaskSize

end EventIndex
