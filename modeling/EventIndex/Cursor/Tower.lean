import EventIndex.Cursor.Listed
import EventIndex.Cursor.Stored
import EventIndex.Cursor.Filter
import EventIndex.Cursor.Merge

/-! # Tower — cursors of every shape

Filters and merges nest to any depth. `Layer C` is one more filter or merge
over cursors of type `C`, and `Tower n` is at most `n` layers over a source, so
that a merge may hold heads of different shapes and every operation is defined
by recursion on the number of layers. `AnyCursor` leaves the number open.
-/

namespace EventIndex

open Cursor

/-- A cursor that reads tuples, from memory or from a store. -/
inductive Source where
  | listed (c : Listed)
  | stored (c : Stored)

namespace Source

/-- Runs the action that fits the source. -/
def run {α : Type} (onListed : Act (Over Listed) α) (onStored : Act (Over Stored) α) :
    Act (Over Source) α
  | ⟨.listed c, pages⟩ =>
    match onListed ⟨c, pages⟩ with
    | .ok a s => .ok a ⟨.listed s.item, s.pages⟩
    | .error e s => .error e ⟨.listed s.item, s.pages⟩
  | ⟨.stored c, pages⟩ =>
    match onStored ⟨c, pages⟩ with
    | .ok a s => .ok a ⟨.stored s.item, s.pages⟩
    | .error e s => .error e ⟨.stored s.item, s.pages⟩

end Source

instance : Cursor Source where
  peekNext := Source.run peekNext peekNext
  peekPrevious := Source.run peekPrevious peekPrevious
  next := Source.run next next
  previous := Source.run previous previous
  seek key := Source.run (seek key) (seek key)
  extent
    | .listed c => extent c
    | .stored c => extent c

/-- One filter or merge over cursors of type `C`, or such a cursor as it is. -/
inductive Layer (C : Type) where
  | same (c : C)
  | walking (c : Walking C)
  | distinct (c : Distinct C)
  | filtered (c : RoleFilter C)
  | widened (c : Widened C)
  | conjunction (c : Conjunction C)
  | disjunction (c : Disjunction C)

namespace Layer

variable {C : Type} {α : Type}

/-- Puts the outcome of an action back under its layer. -/
def under {D : Type} (wrap : D → Layer C) (act : Act (Over D) α) (d : D) (pages : PageFile) :
    EStateM.Result StorageError (Over (Layer C)) α :=
  match act ⟨d, pages⟩ with
  | .ok a s => .ok a ⟨wrap s.item, s.pages⟩
  | .error e s => .error e ⟨wrap s.item, s.pages⟩

/-- Runs an operation that every cursor has on the cursor of a layer. -/
def run [Cursor C] (act : {D : Type} → [Cursor D] → Act (Over D) α) : Act (Over (Layer C)) α
  | ⟨.same c, pages⟩ => under .same act c pages
  | ⟨.walking c, pages⟩ => under .walking act c pages
  | ⟨.distinct c, pages⟩ => under .distinct act c pages
  | ⟨.filtered c, pages⟩ => under .filtered act c pages
  | ⟨.widened c, pages⟩ => under .widened act c pages
  | ⟨.conjunction c, pages⟩ => under .conjunction act c pages
  | ⟨.disjunction c, pages⟩ => under .disjunction act c pages

end Layer

instance {C : Type} [Cursor C] : Cursor (Layer C) where
  peekNext := Layer.run peekNext
  peekPrevious := Layer.run peekPrevious
  next := Layer.run next
  previous := Layer.run previous
  seek key := Layer.run (seek key)
  extent
    | .same c => extent c
    | .walking c => extent c
    | .distinct c => extent c
    | .filtered c => extent c
    | .widened c => extent c
    | .conjunction c => extent c
    | .disjunction c => extent c

/-- Cursors of at most `n` layers over a source. -/
def Tower : (n : Nat) → Type
  | 0 => Source
  | n + 1 => Layer (Tower n)

instance instCursorTower : (n : Nat) → Cursor (Tower n)
  | 0 => inferInstanceAs (Cursor Source)
  | n + 1 =>
    have := instCursorTower n
    inferInstanceAs (Cursor (Layer (Tower n)))

/-- The same cursor under `k` more layers. -/
def Tower.raise {n : Nat} (c : Tower n) : (k : Nat) → Tower (n + k)
  | 0 => c
  | k + 1 => .same (Tower.raise c k)

/-- A cursor of any shape. -/
structure AnyCursor where
  height : Nat
  cursor : Tower height

namespace AnyCursor

/-- A source as it is. -/
def ofSource (c : Source) : AnyCursor := ⟨0, c⟩

/-- A cursor in memory. -/
def ofList (ts : List Tuple) : AnyCursor := ofSource (.listed (.ofList ts))

/-- A cursor over a snapshot. -/
def ofStored (c : Stored) : AnyCursor := ofSource (.stored c)

/-- A layer over a cursor. -/
def cover (c : AnyCursor) (layer : Tower c.height → Layer (Tower c.height)) : AnyCursor :=
  ⟨c.height + 1, layer c.cursor⟩

/-- The cursor, seeking step by step. -/
def walking (c : AnyCursor) : AnyCursor := c.cover fun t => .walking ⟨t⟩

/-- One tuple for each key. -/
def distinct (c : AnyCursor) : AnyCursor := c.cover fun t => .distinct ⟨t⟩

/-- The tuples with an allowed role. -/
def filtered (allowed : List Role) (c : AnyCursor) : AnyCursor :=
  c.cover fun t => .filtered ⟨t, allowed⟩

/-- The tuples with any role. -/
def widened (c : AnyCursor) : AnyCursor := c.cover fun t => .widened ⟨t⟩

/-- The height of the highest of some cursors. -/
def maxHeight (cs : List AnyCursor) : Nat := (cs.map height).foldr max 0

/-- The cursor as a tower of a given height, which no cursor may exceed. -/
def raisedTo (n : Nat) (c : AnyCursor) (h : c.height ≤ n) : Tower n :=
  (Nat.add_sub_cancel' h) ▸ Tower.raise c.cursor (n - c.height)

theorem height_le_maxHeight {cs : List AnyCursor} {c : AnyCursor} (h : c ∈ cs) :
    c.height ≤ maxHeight cs := by
  induction cs with
  | nil => cases h
  | cons d ds ih =>
    simp only [maxHeight, List.map_cons, List.foldr_cons] at *
    cases h with
    | head => exact Nat.le_max_left _ _
    | tail _ h => exact Nat.le_trans (ih h) (Nat.le_max_right _ _)

/-- Cursors brought to one height. -/
def leveled (cs : List AnyCursor) : List (Tower (maxHeight cs)) :=
  cs.attach.map fun c => c.1.raisedTo (maxHeight cs) (height_le_maxHeight c.2)

/-- The intersection of cursors where they stand. -/
def conjunction (cs : List AnyCursor) (matchRoles : Bool) : Act PageFile AnyCursor := do
  let merged ← Conjunction.ofHeads (leveled cs) matchRoles
  return ⟨maxHeight cs + 1, .conjunction merged⟩

/-- The union of cursors where they stand. -/
def disjunction (cs : List AnyCursor) : Act PageFile AnyCursor := do
  let merged ← Disjunction.ofHeads (leveled cs)
  return ⟨maxHeight cs + 1, .disjunction merged⟩

/-- Runs an operation that every cursor has. -/
def run {α : Type} (act : {D : Type} → [Cursor D] → Act (Over D) α) : Act (Over AnyCursor) α :=
  fun ⟨⟨height, c⟩, pages⟩ =>
    match act ⟨c, pages⟩ with
    | .ok a s => .ok a ⟨⟨height, s.item⟩, s.pages⟩
    | .error e s => .error e ⟨⟨height, s.item⟩, s.pages⟩

end AnyCursor

instance : Cursor AnyCursor where
  peekNext := AnyCursor.run peekNext
  peekPrevious := AnyCursor.run peekPrevious
  next := AnyCursor.run next
  previous := AnyCursor.run previous
  seek key := AnyCursor.run (seek key)
  extent c := extent c.cursor

end EventIndex
