import EventIndex.Error
import Std.Data.HashMap

/-! # BehaviorCounters — how often each behavior occurred

Behaviors with small numbers are counted in an array that grows as they
appear, to the next power of two and never beyond a limit; the others are
counted in a map.
-/

namespace EventIndex

/-- Behaviors from this number on are counted in the map. -/
def denseLimit : Nat := 1048576

/-- The largest count. -/
def maxCount : UInt32 := 4294967295

/-- Counts by the number of a behavior. -/
structure BehaviorCounters where
  dense : Array UInt32
  sparse : Std.HashMap UInt32 UInt32

namespace BehaviorCounters

/-- Counters at zero, with room for the first `initial` behaviors. -/
def create (initial : Nat) : BehaviorCounters := ⟨Array.replicate (min initial denseLimit) 0, {}⟩

/-- The count of a behavior. -/
def count (c : BehaviorCounters) (behavior : UInt32) : UInt32 :=
  match c.dense[behavior.toNat]? with
  | some n => n
  | none => (c.sparse[behavior]?).getD 0

/-- The least power of two that is no less than a number. -/
def nextPower (n : Nat) : Nat := if n ≤ 1 then 1 else 1 <<< ((n - 1).log2 + 1)

/-- The array with room for a behavior below the limit. -/
def grown (dense : Array UInt32) (slot : Nat) : Array UInt32 :=
  if slot < dense.size then dense
  else
    let size := min (nextPower (slot + 1)) denseLimit
    dense ++ Array.replicate (size - dense.size) 0

/-- Counts one more event of a behavior, unless its counter is full. -/
def increment (behavior : UInt32) : Act BehaviorCounters Unit
  | ⟨dense, sparse⟩ =>
    let slot := behavior.toNat
    if denseLimit ≤ slot then
      let n := (sparse[behavior]?).getD 0
      if n = maxCount then .error (.counterSaturated behavior) ⟨dense, sparse.insert behavior n⟩
      else .ok () ⟨dense, sparse.insert behavior (n + 1)⟩
    else
      let dense := grown dense slot
      let n := dense.getD slot 0
      if n = maxCount then .error (.counterSaturated behavior) ⟨dense, sparse⟩
      else .ok () ⟨dense.setIfInBounds slot (n + 1), sparse⟩

end BehaviorCounters

end EventIndex
