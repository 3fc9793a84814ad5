import EventIndex.Error
import EventIndex.Recency

/-! # Residency — how many lists stay in memory

A manager bounds the number of lists in memory over all index sets. It knows a
list by the number of its set (its *owner*) and its value, keeps these keys in
the order of their last use, and asks the owner of the least recently used one
to write it out when a new one does not fit any more.

Owners report a use only now and then. Reported uses wait until some have come
together and are then applied to the order at once; a key that left in the
meantime is skipped.

The manager reaches its owners through `ask`, an action on whatever the owners
are made of. Its answer is whether the list was in memory, or nothing if the
owner is gone.
-/

namespace EventIndex

/-- The number of an index set. -/
abbrev SetId := Nat

/-- The value that a list collects events of. -/
abbrev ValueId := UInt32

/-- A list, by the number of its set and its value. -/
structure OwnerKey where
  set : SetId
  value : ValueId
deriving DecidableEq, Repr

/-- The most uses that wait to be applied. -/
def maxPendingUses : Nat := 64

/-- The bookkeeping of the lists in memory. -/
structure Residency where
  capacity : Nat
  /-- The accesses that an owner counts before it reports a use. -/
  useThreshold : Nat
  /-- The uses that wait before they are applied. -/
  pendingLimit : Nat
  recent : Recency OwnerKey Unit
  /-- The uses not yet applied, the oldest first. -/
  pending : Array OwnerKey
  /-- The sets that are registered. -/
  owners : List SetId
  nextSet : SetId
  isDisposed : Bool
  evictions : Nat
  staleSkips : Nat
  promotions : Nat
deriving Repr

namespace Residency

variable {σ : Type}

/-- A manager of at least one list. -/
def create (capacity useThreshold : Nat) : Residency where
  capacity := max capacity 1
  useThreshold := max useThreshold 1
  pendingLimit := min (max (max capacity 1 / 8) 1) maxPendingUses
  recent := .empty
  pending := #[]
  owners := []
  nextSet := 0
  isDisposed := false
  evictions := 0
  staleSkips := 0
  promotions := 0

/-- A manager of as many lists as there are pages in a buffer. -/
def ofBudget (bufferSize pageSize useThreshold : Nat) : Residency :=
  create (bufferSize / max pageSize 1) useThreshold

/-- Registers a set and numbers it. -/
def register (r : Residency) : SetId × Residency :=
  (r.nextSet, { r with owners := r.nextSet :: r.owners, nextSet := r.nextSet + 1 })

/-- Forgets a set and its keys without asking it anything. -/
def unregister (r : Residency) (set : SetId) : Residency :=
  { r with
    owners := r.owners.filter (· ≠ set)
    recent := r.recent.eraseIf fun key => key.set = set }

/-- Whether a key is tracked. -/
def tracks (r : Residency) (key : OwnerKey) : Bool := r.recent.contains key

/-- Drops a key whose owner wrote the list out by itself. -/
def forget (r : Residency) (key : OwnerKey) : Residency := { r with recent := r.recent.erase key }

/-! ## Uses -/

/-- Applies one use, if the key is still tracked. -/
def applyUse (r : Residency) (key : OwnerKey) : Residency :=
  if r.tracks key then
    { r with recent := r.recent.promote key, promotions := r.promotions + 1 }
  else r

/-- Applies the uses that wait. -/
def commit (r : Residency) : Residency :=
  r.pending.toList.foldl applyUse { r with pending := #[] }

/-- Notes a use of a key, unless the last use noted is of the same key. -/
def note (r : Residency) (key : OwnerKey) : Residency :=
  if r.pending.back? = some key then r else { r with pending := r.pending.push key }

/-- Reports a use. -/
def touch (r : Residency) (key : OwnerKey) : Residency :=
  let r := r.note key
  if r.pendingLimit ≤ r.pending.size then r.commit else r

/-! ## Making room -/

/-- Asks the owner of a key to write its list out. -/
def evict (ask : OwnerKey → Act σ (Option Bool)) (key : OwnerKey) : Act (Residency × σ) Unit :=
  fun (r, s) =>
    if r.owners.contains key.set then
      match ask key s with
      | .error e s => .error e (r, s)
      | .ok (some true) s => .ok () ({ r with evictions := r.evictions + 1 }, s)
      | .ok _ s => .ok () ({ r with staleSkips := r.staleSkips + 1 }, s)
    else .ok () ({ r with staleSkips := r.staleSkips + 1 }, s)

/-- Asks the owners of some keys in turn, up to the first that fails. -/
def evictEach (ask : OwnerKey → Act σ (Option Bool)) : List OwnerKey → Act (Residency × σ) Unit
  | [] => return ()
  | key :: keys => do
    evict ask key
    evictEach ask keys

/-- Makes a key the most recently used one and drops those beyond the capacity. Returns the keys
dropped, the least recently used first. -/
def place (r : Residency) (key : OwnerKey) : List OwnerKey × Residency :=
  let grown := r.recent.put key ()
  (grown.beyond r.capacity, { r with recent := grown.keep r.capacity })

/-- Tracks a list that has come into memory, and has others written out if there are too many. -/
def track (ask : OwnerKey → Act σ (Option Bool)) (key : OwnerKey) : Act (Residency × σ) Unit :=
  fun (r, s) =>
    if r.isDisposed then .error (.disposed "residency manager") (r, s)
    else
      let (victims, r) := r.place key
      evictEach ask victims (r, s)

/-- Drops all keys and owners without asking them anything. -/
def dispose (r : Residency) : Residency :=
  { r with isDisposed := true, pending := #[], recent := .empty, owners := [] }

end Residency

end EventIndex
