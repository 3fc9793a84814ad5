import EventIndex.Cursor.Basic

/-! # Merge — intersection and union of cursors

Both merged cursors keep one *boundary* key in place of a gap of their own:
results below the boundary lie behind the cursor, the others ahead of it.

```text
               boundary
 A:  1   4        |  7   9
 B:  2   4        |  7   8
 A and B:     4   |  7
 A or B:  1 2 4   |  7 8 9
```

Every step seeks all inputs (*heads*) to the boundary anew, so a step forward
and a step back look at the same candidates. A key is returned once; among the
tuples of a key, the first one of the first head that qualifies is returned,
whichever way the step goes.

A merged cursor of one head is that head. One of no heads is empty.

- `Conjunction` returns keys that all heads have. When roles must match, the
  tuple of the first head must be compatible with some tuple of every other
  head; the tuples of the others are not compared with each other.
- `Disjunction` returns keys that some head has.

The boundary cannot express "behind the largest key", so the largest key of all
stays ahead of the cursor that returned it.
-/

namespace EventIndex

open Cursor

variable {C : Type} [Cursor C]

/-! ## Several heads at once -/

namespace Heads

/-- Runs an action at every head in order and collects the answers. -/
def eachFrom {α : Type} (act : Act (Over C) α) :
    List C → PageFile → EStateM.Result StorageError (Over (List C)) (List α)
  | [], pages => .ok [] ⟨[], pages⟩
  | c :: cs, pages =>
    match act ⟨c, pages⟩ with
    | .error e s => .error e ⟨s.item :: cs, s.pages⟩
    | .ok a s =>
      match eachFrom act cs s.pages with
      | .error e t => .error e ⟨s.item :: t.item, t.pages⟩
      | .ok as t => .ok (a :: as) ⟨s.item :: t.item, t.pages⟩

/-- Runs an action at every head in order, up to the first that has no answer; `none` if one has
none. -/
def eachSomeFrom {α : Type} (act : Act (Over C) (Option α)) :
    List C → PageFile → EStateM.Result StorageError (Over (List C)) (Option (List α))
  | [], pages => .ok (some []) ⟨[], pages⟩
  | c :: cs, pages =>
    match act ⟨c, pages⟩ with
    | .error e s => .error e ⟨s.item :: cs, s.pages⟩
    | .ok none s => .ok none ⟨s.item :: cs, s.pages⟩
    | .ok (some a) s =>
      match eachSomeFrom act cs s.pages with
      | .error e t => .error e ⟨s.item :: t.item, t.pages⟩
      | .ok as t => .ok (as.map (a :: ·)) ⟨s.item :: t.item, t.pages⟩

/-- `eachFrom` as an action. -/
def each {α : Type} (act : Act (Over C) α) : Act (Over (List C)) (List α) := fun s =>
  eachFrom act s.item s.pages

/-- `eachSomeFrom` as an action. -/
def eachSome {α : Type} (act : Act (Over C) (Option α)) : Act (Over (List C)) (Option (List α)) :=
  fun s => eachSomeFrom act s.item s.pages

/-- Runs an action at the head with an index; no answer if there is no such head. -/
def at_ {α : Type} (act : Act (Over C) (Option α)) (i : Nat) : Act (Over (List C)) (Option α) :=
  fun ⟨heads, pages⟩ =>
    match heads[i]? with
    | none => .ok none ⟨heads, pages⟩
    | some c =>
      match act ⟨c, pages⟩ with
      | .ok a s => .ok a ⟨heads.set i s.item, s.pages⟩
      | .error e s => .error e ⟨heads.set i s.item, s.pages⟩

/-- The boundary that leaves every head where it is: behind every key that lies behind a head. -/
def initialBoundary : Act (Over (List C)) UInt64 := do
  let behind ← each (C := C) peekPrevious
  return behind.foldl (fun bound t => match t with
    | none => bound
    | some t => max bound (boundaryAfter t.key)) 0

/-- No fewer than the distinct keys of all heads. -/
def extent (heads : List C) : Nat := heads.foldr (fun c n => Cursor.extent c + n) 0

/-- The tuple after a boundary at one head. -/
def ahead (boundary : UInt64) : Act (Over C) (Option Tuple) := do
  seek boundary
  peekNext

/-- The tuple before a boundary at one head. -/
def behind (boundary : UInt64) : Act (Over C) (Option Tuple) := do
  seek boundary
  peekPrevious

end Heads

/-! ## Intersection -/

/-- The intersection of cursors, with or without matching roles. -/
structure Conjunction (C : Type) where
  heads : List C
  matchRoles : Bool
  boundary : UInt64

namespace Conjunction

/-- The intersection of cursors where they stand. -/
def ofHeads (heads : List C) (matchRoles : Bool) : Act PageFile (Conjunction C) := fun pages =>
  match Heads.initialBoundary ⟨heads, pages⟩ with
  | .ok boundary s => .ok ⟨s.item, matchRoles, boundary⟩ s.pages
  | .error e s => .error e s.pages

/-- Collects tuples with a given key, at most `fuel` of them, and moves past them. -/
def collectRun (key : UInt64) : (fuel : Nat) → Act (Over C) (List Tuple)
  | 0 => return []
  | fuel + 1 => do
    match ← peekNext with
    | none => return []
    | some t =>
      if t.key ≠ key then return []
      let _ ← next
      return t :: (← collectRun key fuel)

/-- All tuples of a head with a given key. -/
def runAt (key : UInt64) : Act (Over C) (List Tuple) := do
  seek key
  let run ← collectRun key (Cursor.extent (← Over.current) + 1)
  seek key
  return run

/-- The first tuple of the first run that is compatible with some tuple of every other run. -/
def firstMatch : List (List Tuple) → Option Tuple
  | [] => none
  | first :: others => first.find? fun t => others.all fun run => run.any t.compatible

/-- The tuple to return for a key that all heads have, if roles allow one. -/
def pick (matchRoles : Bool) (key : UInt64) : Act (Over (List C)) (Option Tuple) :=
  if matchRoles then do return firstMatch (← Heads.each (runAt key))
  else Heads.at_ (Heads.ahead key) 0

/-- The first result from `goal` on. Every round but the last goes past a key of some head. -/
def searchForward (matchRoles : Bool) : (fuel : Nat) → (goal : UInt64) →
    Act (Over (List C)) (Option Tuple)
  | 0, _ => return none
  | fuel + 1, goal => do
    match ← Heads.eachSome (Heads.ahead goal) with
    | none => return none
    | some found =>
      let low := (found.map Tuple.key).foldl min maxKey
      let high := (found.map Tuple.key).foldl max 0
      if low ≠ high then searchForward matchRoles fuel high
      else
        match ← pick matchRoles low with
        | some t => return some t
        | none => if low = maxKey then return none else searchForward matchRoles fuel (low + 1)

/-- The last result below `goal`. Every round but the last goes past a key of some head. -/
def searchBackward (matchRoles : Bool) : (fuel : Nat) → (goal : UInt64) →
    Act (Over (List C)) (Option Tuple)
  | 0, _ => return none
  | fuel + 1, goal => do
    match ← Heads.eachSome (Heads.behind goal) with
    | none => return none
    | some found =>
      let low := (found.map Tuple.key).foldl min maxKey
      let high := (found.map Tuple.key).foldl max 0
      if low ≠ high then searchBackward matchRoles fuel (low + 1)
      else
        match ← pick matchRoles low with
        | some t => return some t
        | none => searchBackward matchRoles fuel low

/-- Runs an action on the heads. -/
def onHeads {α : Type} (act : Act (Over (List C)) α) : Act (Over (Conjunction C)) α :=
  Over.through Conjunction.heads (fun c heads => { c with heads }) act

/-- The first result ahead of the boundary. -/
def lookForward : Act (Over (Conjunction C)) (Option Tuple) := do
  let c ← Over.current
  match c.heads with
  | [] => return none
  | [_] => onHeads (Heads.at_ peekNext 0)
  | heads => onHeads (searchForward c.matchRoles (Heads.extent heads + 1) c.boundary)

/-- The last result behind the boundary. -/
def lookBackward : Act (Over (Conjunction C)) (Option Tuple) := do
  let c ← Over.current
  match c.heads with
  | [] => return none
  | [_] => onHeads (Heads.at_ peekPrevious 0)
  | heads => onHeads (searchBackward c.matchRoles (Heads.extent heads + 1) c.boundary)

/-- Moves the boundary. -/
def moveTo (boundary : UInt64) : Act (Over (Conjunction C)) Unit := do
  let c ← Over.current
  Over.replace { c with boundary }

/-- The first result ahead of the boundary, which moves past it. -/
def stepForward : Act (Over (Conjunction C)) (Option Tuple) := do
  match (← Over.current).heads with
  | [_] => onHeads (Heads.at_ next 0)
  | _ =>
    let found ← lookForward
    if let some t := found then moveTo (boundaryAfter t.key)
    return found

/-- The last result behind the boundary, which moves back over it. -/
def stepBackward : Act (Over (Conjunction C)) (Option Tuple) := do
  match (← Over.current).heads with
  | [_] => onHeads (Heads.at_ previous 0)
  | _ =>
    let found ← lookBackward
    if let some t := found then moveTo t.key
    return found

/-- Moves the boundary to a key; the heads follow at the next step. -/
def seekTo (key : UInt64) : Act (Over (Conjunction C)) Unit := do
  match (← Over.current).heads with
  | [_] =>
    let _ ← onHeads (Heads.at_ (do seek key; return some ()) 0)
  | _ => moveTo key

end Conjunction

instance : Cursor (Conjunction C) where
  peekNext := Conjunction.lookForward
  peekPrevious := Conjunction.lookBackward
  next := Conjunction.stepForward
  previous := Conjunction.stepBackward
  seek := Conjunction.seekTo
  extent c := Heads.extent c.heads

/-! ## Union -/

/-- The union of cursors. -/
structure Disjunction (C : Type) where
  heads : List C
  boundary : UInt64

namespace Disjunction

/-- The union of cursors where they stand. -/
def ofHeads (heads : List C) : Act PageFile (Disjunction C) := fun pages =>
  match Heads.initialBoundary ⟨heads, pages⟩ with
  | .ok boundary s => .ok ⟨s.item, boundary⟩ s.pages
  | .error e s => .error e s.pages

/-- The first of the tuples with the least key. -/
def least (best : Option Tuple) : List (Option Tuple) → Option Tuple
  | [] => best
  | none :: rest => least best rest
  | some t :: rest => if best.all (t.key < ·.key) then least (some t) rest else least best rest

/-- The first of the heads whose tuple has the greatest key, with that key; `i` is the index of the
next head. -/
def greatest (best : Option (Nat × UInt64)) (i : Nat) :
    List (Option Tuple) → Option (Nat × UInt64)
  | [] => best
  | none :: rest => greatest best (i + 1) rest
  | some t :: rest =>
    if best.all (·.2 < t.key) then greatest (some (i, t.key)) (i + 1) rest
    else greatest best (i + 1) rest

/-- The first result from a boundary on. -/
def searchForward (boundary : UInt64) : Act (Over (List C)) (Option Tuple) := do
  return least none (← Heads.each (Heads.ahead boundary))

/-- The last result below a boundary: the tuple that a step forward returns for its key. -/
def searchBackward (boundary : UInt64) : Act (Over (List C)) (Option Tuple) := do
  match greatest none 0 (← Heads.each (Heads.behind boundary)) with
  | none => return none
  | some (i, key) => Heads.at_ (Heads.ahead key) i

/-- Runs an action on the heads. -/
def onHeads {α : Type} (act : Act (Over (List C)) α) : Act (Over (Disjunction C)) α :=
  Over.through Disjunction.heads (fun c heads => { c with heads }) act

/-- The first result ahead of the boundary. -/
def lookForward : Act (Over (Disjunction C)) (Option Tuple) := do
  let c ← Over.current
  match c.heads with
  | [_] => onHeads (Heads.at_ peekNext 0)
  | _ => onHeads (searchForward c.boundary)

/-- The last result behind the boundary. -/
def lookBackward : Act (Over (Disjunction C)) (Option Tuple) := do
  let c ← Over.current
  match c.heads with
  | [_] => onHeads (Heads.at_ peekPrevious 0)
  | _ => onHeads (searchBackward c.boundary)

/-- Moves the boundary. -/
def moveTo (boundary : UInt64) : Act (Over (Disjunction C)) Unit := do
  let c ← Over.current
  Over.replace { c with boundary }

/-- The first result ahead of the boundary, which moves past it. -/
def stepForward : Act (Over (Disjunction C)) (Option Tuple) := do
  match (← Over.current).heads with
  | [_] => onHeads (Heads.at_ next 0)
  | _ =>
    let found ← lookForward
    if let some t := found then moveTo (boundaryAfter t.key)
    return found

/-- The last result behind the boundary, which moves back over it. -/
def stepBackward : Act (Over (Disjunction C)) (Option Tuple) := do
  match (← Over.current).heads with
  | [_] => onHeads (Heads.at_ previous 0)
  | _ =>
    let found ← lookBackward
    if let some t := found then moveTo t.key
    return found

/-- Moves the boundary to a key; the heads follow at the next step. -/
def seekTo (key : UInt64) : Act (Over (Disjunction C)) Unit := do
  match (← Over.current).heads with
  | [_] =>
    let _ ← onHeads (Heads.at_ (do seek key; return some ()) 0)
  | _ => moveTo key

end Disjunction

instance : Cursor (Disjunction C) where
  peekNext := Disjunction.lookForward
  peekPrevious := Disjunction.lookBackward
  next := Disjunction.stepForward
  previous := Disjunction.stepBackward
  seek := Disjunction.seekTo
  extent c := Heads.extent c.heads

end EventIndex
