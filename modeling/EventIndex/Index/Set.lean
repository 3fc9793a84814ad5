import EventIndex.Index.Batch
import EventIndex.Page.Over
import EventIndex.Store.Snapshot

/-! # IndexSet — the lists of one dimension

An index set has one list for each value of its dimension. A value is in one of
three states:

```text
  unknown --first access--> resident --written out--> discarded
                               ^                          |
                               +------- taken back -------+
```

A discarded list leaves a descriptor behind, in a slot addressed by the value.
Slots lie in pages of the shared page file that are made as they are needed.

Everything here is about one set and the page file. Who is told of a list that
comes into memory, and who asks for one to be written out, is the business of
the archive.
-/

namespace EventIndex

/-- The state of a value that is known. -/
inductive Entry where
  /-- In memory, with the accesses since the last reported use. -/
  | resident (store : Store) (uses : Nat)
  | discarded
deriving Repr

/-- The lists of one dimension. -/
structure IndexSet where
  id : SetId
  name : String
  kind : Kind
  entries : Std.HashMap ValueId Entry
  /-- The pages of the slots, by their number. -/
  slotPages : Std.HashMap Nat PageId
  created : Nat
  discarded : Nat
  reloaded : Nat
  /-- The writes not yet submitted. -/
  pending : Batch
  isDisposed : Bool

/-- What an access did to the residency of a value. -/
inductive Access where
  /-- The list has come into memory. -/
  | entered
  /-- There have been enough accesses to report a use. -/
  | used
  | quiet
deriving DecidableEq, Repr

namespace IndexSet

/-- A set without lists. -/
def create (id : SetId) (name : String) (kind : Kind) (taskSize : Nat) : IndexSet where
  id
  name
  kind
  entries := {}
  slotPages := {}
  created := 0
  discarded := 0
  reloaded := 0
  pending := .empty taskSize
  isDisposed := false

/-- Whether a value's list is in memory. -/
def isResident (set : IndexSet) (value : ValueId) : Bool :=
  match set.entries[value]? with
  | some (.resident _ _) => true
  | _ => false

/-- The number of values known. -/
def valueCount (set : IndexSet) : Nat := set.entries.size

/-- The number of lists in memory. -/
def residentCount (set : IndexSet) : Nat :=
  set.entries.toList.countP fun entry => match entry.2 with
    | .resident _ _ => true
    | .discarded => false

/-- Fails if the set is disposed. -/
def checkLive (set : IndexSet) : Except StorageError Unit :=
  if set.isDisposed then .error (.disposed set.name) else .ok ()

/-- Gives a value a state. -/
def setEntry (set : IndexSet) (value : ValueId) (entry : Entry) : IndexSet :=
  { set with entries := set.entries.insert value entry }

/-! ## Slots -/

/-- The number of slots on a page. -/
def slotsPerPage (f : PageFile) : Nat := max (f.payloadCapacity / Descriptor.byteSize) 1

/-- The number of the page of a value's slot, and the place of the slot on it. -/
def slotOf (f : PageFile) (value : ValueId) : Nat × Nat :=
  (value.toNat / slotsPerPage f, value.toNat % slotsPerPage f * Descriptor.byteSize)

/-- Reads the descriptor in a value's slot. -/
def readSlot (value : ValueId) : Act (Over IndexSet) Descriptor := do
  let set ← Over.current
  let (number, place) := slotOf (← get).pages value
  match set.slotPages[number]? with
  | none => throw (.corrupt (.noSlotPage value set.name))
  | some page =>
    let payload ← Over.onPages (PageFile.read page)
    if payload.length < place + Descriptor.byteSize then
      throw (.corrupt (.slotPageTooShort page))
    Act.ofExcept (Descriptor.ofBytes ((payload.drop place).take Descriptor.byteSize))

/-- The page of the slots with a number and its bytes; a new page holds zeros. -/
def slotPage (number : Nat) : Act (Over IndexSet) (PageId × List UInt8) := do
  let set ← Over.current
  match set.slotPages[number]? with
  | some page => return (page, ← Over.onPages (PageFile.read page))
  | none =>
    let page ← Over.onPages PageFile.allocate
    Over.replace { set with slotPages := set.slotPages.insert number page }
    return (page, List.replicate (slotsPerPage (← get).pages * Descriptor.byteSize) 0)

/-- Bytes with some of them replaced from a place on. -/
def splice (bytes : List UInt8) (place : Nat) (part : List UInt8) : List UInt8 :=
  bytes.take place ++ part ++ bytes.drop (place + part.length)

/-- Writes a descriptor to a value's slot. -/
def writeSlot (value : ValueId) (d : Descriptor) : Act (Over IndexSet) Unit := do
  let (number, place) := slotOf (← get).pages value
  let (page, bytes) ← slotPage number
  Over.onPages (PageFile.write page (splice bytes place d.toBytes))

/-! ## Residency of a value -/

/-- Writes a value's list out. The list leaves memory only when its descriptor is in its slot. Returns
whether the list was in memory. -/
def discard (value : ValueId) : Act (Over IndexSet) Bool := do
  match (← Over.current).entries[value]? with
  | some (.resident store _) =>
    let d ← Over.onPages store.save
    writeSlot value d
    let set ← Over.current
    Over.replace { set.setEntry value .discarded with discarded := set.discarded + 1 }
    return true
  | _ => return false

/-- Brings a value's list into memory, if it is not there. -/
def makeResident (useThreshold : Nat) (value : ValueId) : Act (Over IndexSet) Access := do
  let set ← Over.current
  match set.entries[value]? with
  | some (.resident store uses) =>
    if useThreshold ≤ uses + 1 then
      Over.replace (set.setEntry value (.resident store 0))
      return .used
    Over.replace (set.setEntry value (.resident store (uses + 1)))
    return .quiet
  | some .discarded =>
    let d ← readSlot value
    let store ← Over.onPages (Store.load set.kind d)
    Over.replace
      { set.setEntry value (.resident store 0) with reloaded := set.reloaded + 1 }
    return .entered
  | none =>
    Over.replace
      { set.setEntry value (.resident (.empty set.kind) 0) with created := set.created + 1 }
    return .entered

/-- Appends a tuple to a value's list, which is in memory. -/
def appendTo (value : ValueId) (t : Tuple) : Act (Over IndexSet) Unit := do
  let set ← Over.current
  match set.entries[value]? with
  | some (.resident store uses) =>
    let store ← Over.onPages (store.append t)
    Over.replace (set.setEntry value (.resident store uses))
  | _ => return ()

/-- The values that came into memory and the values whose use is to be reported, in the order of the
accesses. -/
structure Report where
  entered : List ValueId
  used : List ValueId
deriving Repr

/-- Adds an access to what is reported of later ones. -/
def Report.prepend (value : ValueId) (r : Report) : Access → Report
  | .entered => { r with entered := value :: r.entered }
  | .used => { r with used := value :: r.used }
  | .quiet => r

/-- Appends the entries of a batch to their lists, up to the first that fails. -/
def applyEntries (useThreshold : Nat) : List (ValueId × Tuple) → Act (Over IndexSet) Report
  | [] => return ⟨[], []⟩
  | (value, t) :: entries => do
    let access ← makeResident useThreshold value
    appendTo value t
    return (← applyEntries useThreshold entries).prepend value access

/-- The list of a value as it is now, brought into memory if need be. -/
def lookUp (useThreshold : Nat) (value : ValueId) : Act (Over IndexSet) (Access × Snapshot) := do
  let access ← makeResident useThreshold value
  let set ← Over.current
  match set.entries[value]? with
  | some (.resident store _) => return (access, store.snapshot)
  | _ => throw (.notResident set.name value)

/-- Drops all lists and pending writes. -/
def dispose (set : IndexSet) : IndexSet :=
  { set with pending := set.pending.cleared, entries := {}, slotPages := {}, isDisposed := true }

end IndexSet

end EventIndex
