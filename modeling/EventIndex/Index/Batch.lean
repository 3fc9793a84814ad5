import EventIndex.Tuple
import EventIndex.Index.Residency

/-! # Batch — writes that go together

Writes to an index set are collected until there are enough of them and are
then applied as one batch.
-/

namespace EventIndex

/-- Tuples with the values whose lists they go to, and the number that makes them a full batch. -/
structure Batch where
  entries : Array (ValueId × Tuple)
  limit : Nat
deriving Repr

namespace Batch

/-- A batch without entries. -/
def empty (limit : Nat) : Batch := ⟨#[], max limit 1⟩

/-- The number of entries. -/
def size (b : Batch) : Nat := b.entries.size

/-- Whether there are no entries. -/
def isEmpty (b : Batch) : Bool := b.entries.isEmpty

/-- Whether there are enough entries. -/
def isFull (b : Batch) : Bool := b.limit ≤ b.size

/-- The batch with one more entry. -/
def push (b : Batch) (value : ValueId) (t : Tuple) : Batch :=
  { b with entries := b.entries.push (value, t) }

/-- The batch without its entries. -/
def cleared (b : Batch) : Batch := { b with entries := #[] }

end Batch

end EventIndex
