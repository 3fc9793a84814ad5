import EventIndex.Bisection
import EventIndex.Store.Basic

/-! # Snapshot — a store as its readers see it

A snapshot is the directory and the tail of a store at one moment. It stays
valid after the store goes on, is saved or is dropped, because sealed pages
never change and are never given back.

Positions count the tuples from 0. `lowerBound` finds the position of a key
through the directory and reads at most one page; it reads none when the page
in question begins at or after the key.
-/

namespace EventIndex

/-- The directory and tail of a store at one moment. -/
structure Snapshot where
  kind : Kind
  directory : Array PageRef
  tail : Array Tuple
  sealedLength : Nat
deriving DecidableEq, Repr

/-- The view of a store as it is now. -/
def Store.snapshot (s : Store) : Snapshot where
  kind := s.kind
  directory := s.directory
  tail := s.tail
  sealedLength := s.sealedLength

namespace Snapshot

/-- The number of tuples. -/
def length (v : Snapshot) : Nat := v.sealedLength + v.tail.size

/-- The tuples of the sealed page with a directory entry. -/
def loadPage (v : Snapshot) (ref : PageRef) : Act PageFile (Array Tuple) := do
  let payload ← PageFile.read ref.page
  let tuples ← Act.ofExcept (TuplePage.decode v.kind payload)
  if tuples.length ≠ ref.length then
    throw (.corrupt (.pageCount ref.page tuples.length ref.length))
  return tuples.toArray

/-- The index of the sealed page that holds a position. -/
def pageOf (v : Snapshot) (position : Nat) : Nat :=
  bisect v.directory.size fun i => v.directory[i]?.any (·.stop ≤ position)

/-- The index of the first sealed page that reaches up to a key. -/
def pageFor (v : Snapshot) (key : UInt64) : Nat :=
  bisect v.directory.size fun i => v.directory[i]?.any (·.lastKey < key)

/-- The position of the first tuple with key at least `key` within a run of tuples. -/
def firstAtLeast (tuples : Array Tuple) (key : UInt64) : Nat :=
  bisect tuples.size fun i => tuples[i]?.any (·.key < key)

/-- The tuple at a position. -/
def get (v : Snapshot) (position : Nat) : Act PageFile (Option Tuple) := do
  if v.sealedLength ≤ position then return v.tail[position - v.sealedLength]?
  match v.directory[v.pageOf position]? with
  | none => return none
  | some ref => return (← v.loadPage ref)[position - ref.start]?

/-- The number of tuples whose key is below `key`. -/
def lowerBound (v : Snapshot) (key : UInt64) : Act PageFile Nat := do
  match v.directory[v.pageFor key]? with
  | none => return v.sealedLength + firstAtLeast v.tail key
  | some ref =>
    if key ≤ ref.firstKey then return ref.start
    return ref.start + firstAtLeast (← v.loadPage ref) key

/-- The number of tuples whose key is at most `key`. -/
def upperBound (v : Snapshot) (key : UInt64) : Act PageFile Nat :=
  if key = maxKey then return v.length else v.lowerBound (key + 1)

/-- The number of tuples with a key from `k1` up to but not including `k2`. -/
def countInRange (v : Snapshot) (k1 k2 : UInt64) : Act PageFile Nat := do
  if k2 ≤ k1 then return 0
  let high ← v.lowerBound k2
  let low ← v.lowerBound k1
  return high - low

end Snapshot

end EventIndex
