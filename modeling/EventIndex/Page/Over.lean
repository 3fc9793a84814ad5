import EventIndex.Page.File

/-! # Over — things that live on a page file

Cursors and index sets read and write pages. An operation of theirs is an
action on a value *over* a page file: it may change both, and when it fails,
both keep what was changed before.
-/

namespace EventIndex

/-- A value and the page file it lives on. -/
structure Over (C : Type) where
  item : C
  pages : PageFile

namespace Over

variable {C D α : Type}

/-- Runs an action on one part of a value. -/
def through (part : D → C) (replace : D → C → D) (act : Act (Over C) α) : Act (Over D) α :=
  fun ⟨d, pages⟩ =>
    match act ⟨part d, pages⟩ with
    | .ok a s => .ok a ⟨replace d s.item, s.pages⟩
    | .error e s => .error e ⟨replace d s.item, s.pages⟩

/-- Runs an action on the page file alone. -/
def onPages (act : Act PageFile α) : Act (Over C) α := fun ⟨c, pages⟩ =>
  match act pages with
  | .ok a pages => .ok a ⟨c, pages⟩
  | .error e pages => .error e ⟨c, pages⟩

/-- The value as it is now. -/
def current : Act (Over C) C := do return (← get).item

/-- Puts another value in place of the present one. -/
def replace (c : C) : Act (Over C) Unit := modify fun s => { s with item := c }

end Over

end EventIndex
