import EventIndex.Index.Set
import EventIndex.Index.Timeline

/-! # Archive — all lists of an index

An archive is what readers and background tasks share: the page file, the index
sets, the bookkeeping of the lists in memory, and the list of timestamps.

A batch is applied in two steps. First its entries are appended to the lists
of one set, some of which come into memory for it. Only when the whole batch
has been appended does the set report these lists to the bookkeeping, which
may then have others written out. A batch that fails half way reports nothing.
-/

namespace EventIndex

/-- The page file and the index sets on it, each at the position that is its number. -/
structure Shelf where
  pages : PageFile
  sets : Array IndexSet

namespace Shelf

variable {α : Type}

/-- Runs an action on one set, if there is such a set. -/
def onSet? (id : SetId) (act : Act (Over IndexSet) α) : Act Shelf (Option α)
  | ⟨pages, sets⟩ =>
    match sets[id]? with
    | none => .ok none ⟨pages, sets⟩
    | some set =>
      match act ⟨set, pages⟩ with
      | .ok a s => .ok (some a) ⟨s.pages, sets.setIfInBounds id s.item⟩
      | .error e s => .error e ⟨s.pages, sets.setIfInBounds id s.item⟩

/-- Writes out a list for the bookkeeping; no answer if there is no such set. -/
def discard (key : OwnerKey) : Act Shelf (Option Bool) :=
  onSet? key.set (IndexSet.discard key.value)

end Shelf

/-- What readers and background tasks share. -/
structure Archive where
  residency : Residency
  shelf : Shelf
  /-- The timestamps of all events, in order. -/
  stamps : Store

/-- A task for the background. -/
inductive Task where
  | batch (set : SetId) (entries : List (ValueId × Tuple))
  | stamps (times : List Tuple)
deriving Repr

namespace Task

/-- The group of a task: the number of its set, and the largest number of all for timestamps. -/
def group : Task → Nat
  | batch set _ => set
  | stamps _ => 18446744073709551615

end Task

namespace Archive

variable {α : Type}

/-- An archive without sets. -/
def create (pages : PageFile) (residency : Residency) : Archive where
  residency
  shelf := ⟨pages, #[]⟩
  stamps := .empty .stamp

/-- The archive with one more set. -/
def addSet (a : Archive) (name : String) (kind : Kind) (taskSize : Nat) : Archive :=
  let (id, residency) := a.residency.register
  { a with
    residency
    shelf := { a.shelf with sets := a.shelf.sets.push (.create id name kind taskSize) } }

/-- Runs an action on the page file. -/
def onPages (act : Act PageFile α) : Act Archive α
  | ⟨residency, ⟨pages, sets⟩, stamps⟩ =>
    match act pages with
    | .ok a pages => .ok a ⟨residency, ⟨pages, sets⟩, stamps⟩
    | .error e pages => .error e ⟨residency, ⟨pages, sets⟩, stamps⟩

/-- Runs an action on one set, if there is such a set. -/
def onSet? (id : SetId) (act : Act (Over IndexSet) α) : Act Archive (Option α)
  | ⟨residency, shelf, stamps⟩ =>
    match shelf.onSet? id act with
    | .ok a shelf => .ok a ⟨residency, shelf, stamps⟩
    | .error e shelf => .error e ⟨residency, shelf, stamps⟩

/-- The set with a number. -/
def set? (a : Archive) (id : SetId) : Option IndexSet := a.shelf.sets[id]?

/-- Fails if a set is disposed. -/
def checkLive (id : SetId) : Act Archive Unit := do
  match (← get).set? id with
  | some set => Act.ofExcept set.checkLive
  | none => return ()

/-- Changes the bookkeeping. -/
def onResidency (f : Residency → Residency) : Act Archive Unit :=
  modify fun a => { a with residency := f a.residency }

/-- Tracks a list that has come into memory; others may be written out. -/
def track (key : OwnerKey) : Act Archive Unit
  | ⟨residency, shelf, stamps⟩ =>
    match Residency.track Shelf.discard key (residency, shelf) with
    | .ok a (residency, shelf) => .ok a ⟨residency, shelf, stamps⟩
    | .error e (residency, shelf) => .error e ⟨residency, shelf, stamps⟩

/-- Tracks several lists of one set. -/
def trackEach (id : SetId) : List ValueId → Act Archive Unit
  | [] => return ()
  | value :: values => do
    track ⟨id, value⟩
    trackEach id values

/-- Reports several uses of one set. -/
def touchEach (id : SetId) (values : List ValueId) : Act Archive Unit :=
  onResidency fun r => values.foldl (fun r value => r.touch ⟨id, value⟩) r

/-! ## Batches -/

/-- Applies a batch to a set. A set that is disposed ignores it. -/
def applyBatch (id : SetId) (entries : List (ValueId × Tuple)) : Act Archive Unit := do
  if ((← get).set? id).any (·.isDisposed) then return ()
  match ← onSet? id (IndexSet.applyEntries (← get).residency.useThreshold entries) with
  | none => return ()
  | some report =>
    trackEach id report.entered
    touchEach id report.used

/-- Appends a timestamp. -/
def appendStamp (t : Tuple) : Act Archive Unit
  | ⟨residency, ⟨pages, sets⟩, stamps⟩ =>
    match stamps.append t pages with
    | .ok stamps pages => .ok () ⟨residency, ⟨pages, sets⟩, stamps⟩
    | .error e pages => .error e ⟨residency, ⟨pages, sets⟩, stamps⟩

/-- Appends timestamps, up to the first that fails. -/
def appendStamps : List Tuple → Act Archive Unit
  | [] => return ()
  | t :: ts => do
    appendStamp t
    appendStamps ts

/-- Does a task. -/
def perform : Task → Act Archive Unit
  | .batch set entries => applyBatch set entries
  | .stamps times => appendStamps times

/-! ## Reading and writing out -/

/-- The list of a value as it is now. -/
def lookUp (id : SetId) (value : ValueId) : Act Archive Snapshot := do
  checkLive id
  match ← onSet? id (IndexSet.lookUp (← get).residency.useThreshold value) with
  | none => throw (.disposed "index set")
  | some (access, view) =>
    match access with
    | .entered => track ⟨id, value⟩
    | .used => onResidency (·.touch ⟨id, value⟩)
    | .quiet => pure ()
    return view

/-- Writes a list out at once; an error if it is not in memory. -/
def discard (id : SetId) (value : ValueId) : Act Archive Unit := do
  checkLive id
  match ← onSet? id (IndexSet.discard value) with
  | some true => onResidency (·.forget ⟨id, value⟩)
  | _ => throw (.notResident (((← get).set? id).map (·.name) |>.getD "") value)

/-- Disposes of a set, unless that is done. -/
def disposeSet (id : SetId) (a : Archive) : Archive :=
  match a.set? id with
  | none => a
  | some set =>
    if set.isDisposed then a
    else
      { a with
        shelf := { a.shelf with sets := a.shelf.sets.setIfInBounds id set.dispose }
        residency := a.residency.unregister id }

end Archive

end EventIndex
