import EventIndex.Cursor.Basic

/-! # Filter — cursors over one other cursor

- `Walking`: the same cursor, which seeks step by step;
- `Distinct`: one tuple for each run of equal keys, the first of the run. Every
  step goes over a whole run, so the inner gap always lies between two runs;
- `RoleFilter`: only the tuples whose role is allowed. Tuples without a role
  pass. Looking moves the inner cursor over what it skips;
- `Widened`: every tuple with a role that may be anything.
-/

namespace EventIndex

open Cursor

variable {C : Type} [Cursor C]

/-! ## Seeking step by step -/

/-- A cursor that seeks step by step. -/
structure Walking (C : Type) where
  inner : C

/-- Runs an action on the inner cursor. -/
def Walking.lift {α : Type} (act : Act (Over C) α) : Act (Over (Walking C)) α :=
  Over.through Walking.inner (fun _ c => ⟨c⟩) act

instance : Cursor (Walking C) where
  peekNext := Walking.lift peekNext
  peekPrevious := Walking.lift peekPrevious
  next := Walking.lift next
  previous := Walking.lift previous
  seek key := Walking.lift (walk key)
  extent c := extent c.inner

/-! ## One tuple for each key -/

/-- A cursor over the first tuples of the runs of equal keys. -/
structure Distinct (C : Type) where
  inner : C

namespace Distinct

/-- Moves back, at most `fuel` times, while the tuple before the gap has the key of `first`. Returns
the tuple reached and the steps taken, `steps` of them before. -/
def backOverRun : (fuel : Nat) → (first : Tuple) → (steps : Nat) → Act (Over C) (Tuple × Nat)
  | 0, first, steps => return (first, steps)
  | fuel + 1, first, steps => do
    match ← peekPrevious with
    | none => return (first, steps)
    | some t =>
      if t.key ≠ first.key then return (first, steps)
      let _ ← previous
      backOverRun fuel t (steps + 1)

/-- Moves back over the run before the gap. Returns its first tuple and its length. -/
def stepBack : Act (Over C) (Option (Tuple × Nat)) := do
  match ← previous with
  | none => return none
  | some t => return some (← backOverRun (extent (← Over.current)) t 1)

/-- Moves on `n` times. -/
def advance : (n : Nat) → Act (Over C) Unit
  | 0 => return ()
  | n + 1 => do
    let _ ← next
    advance n

/-- Moves on, at most `fuel` times, while the tuple after the gap has a given key. -/
def overRun (key : UInt64) : (fuel : Nat) → Act (Over C) Unit
  | 0 => return ()
  | fuel + 1 => do
    match ← peekNext with
    | none => return ()
    | some t =>
      if t.key ≠ key then return ()
      let _ ← next
      overRun key fuel

/-- The first tuple of the run before the gap. Goes back over the run and on again. -/
def lookBack : Act (Over C) (Option Tuple) := do
  match ← stepBack with
  | none => return none
  | some (first, steps) =>
    advance steps
    return some first

/-- The first tuple of the run after the gap; moves past the run. -/
def stepForward : Act (Over C) (Option Tuple) := do
  match ← next with
  | none => return none
  | some first =>
    overRun first.key (extent (← Over.current))
    return some first

/-- Runs an action on the inner cursor. -/
def lift {α : Type} (act : Act (Over C) α) : Act (Over (Distinct C)) α :=
  Over.through Distinct.inner (fun _ c => ⟨c⟩) act

end Distinct

instance : Cursor (Distinct C) where
  peekNext := Distinct.lift peekNext
  peekPrevious := Distinct.lift Distinct.lookBack
  next := Distinct.lift Distinct.stepForward
  previous := Distinct.lift do return (← Distinct.stepBack).map (·.1)
  seek key := Distinct.lift (seek key)
  extent c := extent c.inner

/-! ## Allowed roles -/

/-- A cursor over the tuples with an allowed role. -/
structure RoleFilter (C : Type) where
  inner : C
  allowed : List Role

namespace RoleFilter

/-- Whether a tuple passes. -/
def accepts (allowed : List Role) (t : Tuple) : Bool :=
  match t.role with
  | some r => allowed.contains r
  | none => true

/-- The next tuple that passes, in front of which the gap comes to lie. -/
def lookForward (allowed : List Role) : (fuel : Nat) → Act (Over C) (Option Tuple)
  | 0 => return none
  | fuel + 1 => do
    match ← peekNext with
    | none => return none
    | some t =>
      if accepts allowed t then return some t
      let _ ← next
      lookForward allowed fuel

/-- The previous tuple that passes, behind which the gap comes to lie. -/
def lookBack (allowed : List Role) : (fuel : Nat) → Act (Over C) (Option Tuple)
  | 0 => return none
  | fuel + 1 => do
    match ← peekPrevious with
    | none => return none
    | some t =>
      if accepts allowed t then return some t
      let _ ← previous
      lookBack allowed fuel

/-- The next tuple that passes; moves past it. -/
def stepForward (allowed : List Role) : (fuel : Nat) → Act (Over C) (Option Tuple)
  | 0 => return none
  | fuel + 1 => do
    match ← next with
    | none => return none
    | some t => if accepts allowed t then return some t else stepForward allowed fuel

/-- The previous tuple that passes; moves back over it. -/
def stepBack (allowed : List Role) : (fuel : Nat) → Act (Over C) (Option Tuple)
  | 0 => return none
  | fuel + 1 => do
    match ← previous with
    | none => return none
    | some t => if accepts allowed t then return some t else stepBack allowed fuel

/-- Runs an action on the inner cursor. -/
def lift {α : Type} (act : Act (Over C) α) : Act (Over (RoleFilter C)) α :=
  Over.through RoleFilter.inner (fun f c => { f with inner := c }) act

/-- Runs a search on the inner cursor. Each step but the last skips a tuple. -/
def search (act : List Role → Nat → Act (Over C) (Option Tuple)) :
    Act (Over (RoleFilter C)) (Option Tuple) := do
  let f ← Over.current
  lift (act f.allowed (extent f.inner + 1))

end RoleFilter

instance : Cursor (RoleFilter C) where
  peekNext := RoleFilter.search RoleFilter.lookForward
  peekPrevious := RoleFilter.search RoleFilter.lookBack
  next := RoleFilter.search RoleFilter.stepForward
  previous := RoleFilter.search RoleFilter.stepBack
  seek key := RoleFilter.lift (seek key)
  extent f := extent f.inner

/-! ## Any role -/

/-- A cursor whose tuples may have any role. -/
structure Widened (C : Type) where
  inner : C

namespace Widened

/-- Runs an action on the inner cursor. -/
def lift {α : Type} (act : Act (Over C) α) : Act (Over (Widened C)) α :=
  Over.through Widened.inner (fun _ c => ⟨c⟩) act

/-- Runs an action that returns a tuple on the inner cursor and widens the tuple. -/
def widening (act : Act (Over C) (Option Tuple)) : Act (Over (Widened C)) (Option Tuple) := do
  return (← lift act).map Tuple.widen

end Widened

instance : Cursor (Widened C) where
  peekNext := Widened.widening peekNext
  peekPrevious := Widened.widening peekPrevious
  next := Widened.widening next
  previous := Widened.widening previous
  seek key := Widened.lift (seek key)
  extent c := extent c.inner

end EventIndex
