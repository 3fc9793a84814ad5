import EventIndex.Cursor.Tower
import EventIndex.Proofs.Cursor.Merging
import EventIndex.Proofs.Growth

/-! # Cursors take no pages back

`Cursor.Growing` says of a type of cursors that none of its operations makes the page count of the
file smaller. It holds of every source, and goes on from cursors to filters and merges over them.

A lemma follows each definition of the cursors, and its proof is the definition read once: a sequence of
calls grows the file if each of them does (`Grows.bind`), a loop by induction on its fuel. So a property
of the file that only a shrinking one could lose, such as an upper bound for the pages, need not be
looked at again in each move.

* `Listed.growing`, `Stored.growing`, `Source.growing`: the cursors that read tuples themselves.
* `Cursor.Growing.walking`, `distinct`, `filtered`, `widened`: the filters, over any cursor that grows.
* `Merging.growing`: what both merges share, from the two looks that each has for itself.
* `Tower.growing`, `AnyCursor.growing`: cursors of any height.
-/

namespace EventIndex

open Act Cursor

/-! ## Parts -/

namespace Over

variable {C D α : Type} {act : Act (Over C) α}

/-- A call on a part takes no pages back if the call itself takes none: the part has the pages of the whole. -/
theorem grows_through {part : D → C} {put : D → C → D} (h : Grows pageCount act) :
    Grows pageCount (through part put act) :=
  h.onPart (fun s => ⟨part s.item, s.pages⟩) (fun _ => rfl) fun s => by
    simp only [after, through]
    cases act ⟨part s.item, s.pages⟩ <;> rfl

theorem grows_current : Grows pageCount (current : Act (Over C) C) := fun _ => Nat.le_refl _

theorem grows_replace (c : C) : Grows pageCount (replace c) := fun _ => Nat.le_refl _

/-- What a cursor does to the file takes no pages back if it takes none by itself. -/
theorem grows_read {x : Act PageFile α} (h : Grows PageFile.pageCount x) :
    Grows pageCount (onPages x : Act (Over C) α) := grows_onPages h

end Over

open Over

/-- No operation on cursors of a type makes the page count smaller. -/
structure Cursor.Growing (C : Type) [Cursor C] : Prop where
  peekNext : Grows pageCount (peekNext : Act (Over C) (Option Tuple))
  peekPrevious : Grows pageCount (peekPrevious : Act (Over C) (Option Tuple))
  next : Grows pageCount (next : Act (Over C) (Option Tuple))
  previous : Grows pageCount (previous : Act (Over C) (Option Tuple))
  seek : ∀ key, Grows pageCount (seek key : Act (Over C) Unit)

/-! ## Sources -/

/-- A list in memory is read without the file. -/
theorem Listed.growing : Growing Listed :=
  ⟨fun _ => Nat.le_refl _, fun _ => Nat.le_refl _, fun _ => Nat.le_refl _, fun _ => Nat.le_refl _,
    fun _ _ => Nat.le_refl _⟩

namespace Snapshot

/-- A sealed page is read from the file and decoded; neither takes a page back. -/
theorem grows_loadPage (v : Snapshot) (ref : PageRef) :
    Grows PageFile.pageCount (v.loadPage ref) := by
  refine (PageFile.grows_read _).bind fun payload => (Grows.ofExcept _).bind fun ts => ?_
  split
  · exact .throw _
  · exact .pure _

/-- The place of a key is found by reading at most one page. -/
theorem grows_lowerBound (v : Snapshot) (key : UInt64) :
    Grows PageFile.pageCount (v.lowerBound key) := by
  unfold lowerBound
  split
  · exact .pure _
  · split
    · exact .pure _
    · exact (grows_loadPage v _).bind fun _ => .pure _

/-- A tuple is got by reading at most one page. -/
theorem grows_get (v : Snapshot) (position : Nat) : Grows PageFile.pageCount (v.get position) := by
  unfold get
  split
  · exact .pure _
  · split
    · exact .pure _
    · exact (grows_loadPage v _).bind fun _ => .pure _

theorem grows_cursorAt (v : Snapshot) (key : UInt64) :
    Grows PageFile.pageCount (v.cursorAt key) :=
  (grows_lowerBound v key).bind fun _ => .pure _

end Snapshot

namespace Stored

/-- The page that a cursor holds in its hand is read at most once, and nothing else happens to the file. -/
theorem grows_pageAt (index : Nat) (ref : PageRef) : Grows pageCount (pageAt index ref) := by
  have hload (c : Stored) : Grows pageCount (do
      let tuples ← Over.onPages (c.view.loadPage ref)
      Over.replace { c with page := some (index, tuples) }
      return tuples) :=
    (grows_read (Snapshot.grows_loadPage _ _)).bind fun tuples =>
      (grows_replace _).bind fun _ => .pure _
  refine grows_current.bind fun c => ?_
  dsimp only
  cases c.page with
  | none => exact hload c
  | some entry => exact .ite (.pure _) (hload c)

/-- A tuple of the snapshot stands on the tail, or on a page that may have to be read. -/
theorem grows_tupleAt (position : Nat) : Grows pageCount (tupleAt position) := by
  refine grows_current.bind fun c => ?_
  dsimp only
  split
  · exact .pure _
  · split
    · exact .pure _
    · exact (grows_pageAt _ _).bind fun _ => .pure _

theorem grows_peekNext : Grows pageCount peekNext := grows_current.bind fun _ => grows_tupleAt _

theorem grows_peekPrevious : Grows pageCount peekPrevious := by
  refine grows_current.bind fun c => ?_
  split
  · exact .pure _
  · exact grows_tupleAt _

/-- A cursor over a snapshot takes no pages back: its steps and seeks end in reads of single pages. -/
theorem growing : Growing Stored where
  peekNext := grows_peekNext
  peekPrevious := grows_peekPrevious
  next := by
    refine grows_peekNext.bind fun found => ?_
    split
    · exact grows_current.bind fun c => (grows_replace _).bind fun _ => .pure _
    · exact .pure _
  previous := by
    refine grows_peekPrevious.bind fun found => ?_
    split
    · exact grows_current.bind fun c => (grows_replace _).bind fun _ => .pure _
    · exact .pure _
  seek key := by
    refine grows_peekPrevious.bind fun before => grows_peekNext.bind fun after => ?_
    split
    · exact .pure _
    · exact grows_current.bind fun c =>
        (grows_read (Snapshot.grows_lowerBound _ _)).bind fun position =>
          grows_current.bind fun c => grows_replace _

end Stored

/-- A source is a list or a cursor over a snapshot, and each does what it does by itself. -/
theorem Source.growing : Growing Source := by
  have hrun : ∀ {α : Type} {x : Act (Over Listed) α} {y : Act (Over Stored) α},
      Grows pageCount x → Grows pageCount y → Grows pageCount (Source.run x y) := by
    rintro α x y hx hy ⟨c | c, pages⟩
    · have hact := hx ⟨c, pages⟩
      cases h : x ⟨c, pages⟩ <;> simpa [after, Source.run, h, pageCount] using hact
    · have hact := hy ⟨c, pages⟩
      cases h : y ⟨c, pages⟩ <;> simpa [after, Source.run, h, pageCount] using hact
  have hl := Listed.growing
  have hs := Stored.growing
  exact ⟨hrun hl.peekNext hs.peekNext, hrun hl.peekPrevious hs.peekPrevious, hrun hl.next hs.next,
    hrun hl.previous hs.previous, fun key => hrun (hl.seek key) (hs.seek key)⟩

/-! ## Filters -/

variable {C : Type} [Cursor C]

section Filters

variable (h : Growing C)

include h

/-- Walking back to a key is so many peeks and steps of the cursor inside. -/
theorem Cursor.Growing.walkBack (key : UInt64) (fuel : Nat) :
    Grows pageCount (Cursor.walkBack (C := C) key fuel) := by
  induction fuel with
  | zero => exact .pure _
  | succ fuel ih =>
    exact h.peekPrevious.bind_option (.pure _) fun t => .ite (.pure _) <| h.previous.bind fun _ => ih

/-- Walking on to a key is so many peeks and steps of the cursor inside. -/
theorem Cursor.Growing.walkForward (key : UInt64) (fuel : Nat) :
    Grows pageCount (Cursor.walkForward (C := C) key fuel) := by
  induction fuel with
  | zero => exact .pure _
  | succ fuel ih =>
    exact h.peekNext.bind_option (.pure _) fun t => .ite (.pure _) <| h.next.bind fun _ => ih

omit h in
omit [Cursor C] in
theorem Walking.grows_lift {α : Type} {act : Act (Over C) α} (hact : Grows pageCount act) :
    Grows pageCount (Walking.lift act) := grows_through hact

/-- A cursor that seeks by walking takes no pages back if the one inside takes none. -/
theorem Cursor.Growing.walking : Growing (Walking C) where
  peekNext := Walking.grows_lift h.peekNext
  peekPrevious := Walking.grows_lift h.peekPrevious
  next := Walking.grows_lift h.next
  previous := Walking.grows_lift h.previous
  seek key := Walking.grows_lift <| grows_current.bind fun _ =>
    (h.walkBack key _).bind fun _ => h.walkForward key _

namespace Distinct

omit h in
omit [Cursor C] in
theorem grows_lift {α : Type} {act : Act (Over C) α} (hact : Grows pageCount act) :
    Grows pageCount (lift act) := grows_through hact

/-- Going back over a run is so many peeks and steps of the cursor inside. -/
theorem grows_backOverRun (fuel : Nat) (first : Tuple) (steps : Nat) :
    Grows pageCount (backOverRun (C := C) fuel first steps) := by
  induction fuel generalizing first steps with
  | zero => exact .pure _
  | succ fuel ih =>
    exact h.peekPrevious.bind_option (.pure _) fun t =>
      .ite (.pure _) <| h.previous.bind fun _ => ih _ _

theorem grows_stepBack : Grows pageCount (stepBack (C := C)) := by
  exact h.previous.bind_option (.pure _) fun t =>
    grows_current.bind fun _ => (grows_backOverRun h _ _ _).bind fun _ => .pure _

theorem grows_advance (n : Nat) : Grows pageCount (advance (C := C) n) := by
  induction n with
  | zero => exact .pure _
  | succ n ih => exact h.next.bind fun _ => ih

/-- Going over a run is so many peeks and steps of the cursor inside. -/
theorem grows_overRun (key : UInt64) (fuel : Nat) :
    Grows pageCount (overRun (C := C) key fuel) := by
  induction fuel with
  | zero => exact .pure _
  | succ fuel ih =>
    exact h.peekNext.bind_option (.pure _) fun t => .ite (.pure _) <| h.next.bind fun _ => ih

theorem grows_lookBack : Grows pageCount (lookBack (C := C)) := by
  exact (grows_stepBack h).bind_option (.pure _) fun r =>
    (grows_advance h _).bind fun _ => .pure _

theorem grows_stepForward : Grows pageCount (stepForward (C := C)) := by
  exact h.next.bind_option (.pure _) fun t =>
    grows_current.bind fun _ => (grows_overRun h _ _).bind fun _ => .pure _

end Distinct

/-- A cursor over the first tuples of runs takes no pages back if the one inside takes none. -/
theorem Cursor.Growing.distinct : Growing (Distinct C) where
  peekNext := Distinct.grows_lift h.peekNext
  peekPrevious := Distinct.grows_lift (Distinct.grows_lookBack h)
  next := Distinct.grows_lift (Distinct.grows_stepForward h)
  previous := Distinct.grows_lift ((Distinct.grows_stepBack h).bind fun _ => .pure _)
  seek key := Distinct.grows_lift (h.seek key)

namespace RoleFilter

omit h in
omit [Cursor C] in
theorem grows_lift {α : Type} {act : Act (Over C) α} (hact : Grows pageCount act) :
    Grows pageCount (lift act) := grows_through hact

omit h in
/-- A search with the allowed roles takes no pages back if it takes none for any roles and fuel. -/
theorem grows_search {act : List Role → Nat → Act (Over C) (Option Tuple)}
    (hact : ∀ allowed fuel, Grows pageCount (act allowed fuel)) : Grows pageCount (search act) :=
  grows_current.bind fun _ => grows_lift (hact _ _)

theorem grows_lookForward (allowed : List Role) (fuel : Nat) :
    Grows pageCount (lookForward (C := C) allowed fuel) := by
  induction fuel with
  | zero => exact .pure _
  | succ fuel ih =>
    exact h.peekNext.bind_option (.pure _) fun t => .ite (.pure _) <| h.next.bind fun _ => ih

theorem grows_lookBack (allowed : List Role) (fuel : Nat) :
    Grows pageCount (lookBack (C := C) allowed fuel) := by
  induction fuel with
  | zero => exact .pure _
  | succ fuel ih =>
    exact h.peekPrevious.bind_option (.pure _) fun t => .ite (.pure _) <| h.previous.bind fun _ => ih

theorem grows_stepForward (allowed : List Role) (fuel : Nat) :
    Grows pageCount (stepForward (C := C) allowed fuel) := by
  induction fuel with
  | zero => exact .pure _
  | succ fuel ih =>
    exact h.next.bind_option (.pure _) fun t => .ite (.pure _) ih

theorem grows_stepBack (allowed : List Role) (fuel : Nat) :
    Grows pageCount (stepBack (C := C) allowed fuel) := by
  induction fuel with
  | zero => exact .pure _
  | succ fuel ih =>
    exact h.previous.bind_option (.pure _) fun t => .ite (.pure _) ih

end RoleFilter

/-- A cursor that passes over roles takes no pages back if the one inside takes none. -/
theorem Cursor.Growing.filtered : Growing (RoleFilter C) where
  peekNext := RoleFilter.grows_search (RoleFilter.grows_lookForward h)
  peekPrevious := RoleFilter.grows_search (RoleFilter.grows_lookBack h)
  next := RoleFilter.grows_search (RoleFilter.grows_stepForward h)
  previous := RoleFilter.grows_search (RoleFilter.grows_stepBack h)
  seek key := RoleFilter.grows_lift (h.seek key)

omit h in
omit [Cursor C] in
theorem Widened.grows_lift {α : Type} {act : Act (Over C) α} (hact : Grows pageCount act) :
    Grows pageCount (Widened.lift act) := grows_through hact

/-- A cursor whose tuples are given the role `any` takes no pages back if the one inside takes none. -/
theorem Cursor.Growing.widened : Growing (Widened C) where
  peekNext := (Widened.grows_lift h.peekNext).bind fun _ => .pure _
  peekPrevious := (Widened.grows_lift h.peekPrevious).bind fun _ => .pure _
  next := (Widened.grows_lift h.next).bind fun _ => .pure _
  previous := (Widened.grows_lift h.previous).bind fun _ => .pure _
  seek key := Widened.grows_lift (h.seek key)

end Filters

/-! ## Merges -/

namespace Heads

variable {α : Type}

omit [Cursor C] in
/-- Asking every head takes no pages back if asking one takes none, also where a head fails on the way. -/
theorem grows_each {act : Act (Over C) α} (hact : Grows pageCount act) :
    Grows pageCount (each act) := by
  rintro ⟨heads, pages⟩
  induction heads generalizing pages with
  | nil => exact Nat.le_refl _
  | cons c cs ih =>
    have hhead := hact ⟨c, pages⟩
    cases hrun : act ⟨c, pages⟩ with
    | error e s => simpa [after, each, eachFrom, hrun, pageCount] using hhead
    | ok a s =>
      have hrest := ih s.pages
      rw [after_ok hrun] at hhead
      refine Nat.le_trans hhead ?_
      cases hruns : eachFrom act cs s.pages with
      | error e t => simpa [after, each, eachFrom, hrun, hruns, pageCount] using hrest
      | ok as t => simpa [after, each, eachFrom, hrun, hruns, pageCount] using hrest

omit [Cursor C] in
/-- Asking every head until one finds nothing takes no pages back if asking one takes none. -/
theorem grows_eachSome {act : Act (Over C) (Option α)} (hact : Grows pageCount act) :
    Grows pageCount (eachSome act) := by
  rintro ⟨heads, pages⟩
  induction heads generalizing pages with
  | nil => exact Nat.le_refl _
  | cons c cs ih =>
    have hhead := hact ⟨c, pages⟩
    cases hrun : act ⟨c, pages⟩ with
    | error e s => simpa [after, eachSome, eachSomeFrom, hrun, pageCount] using hhead
    | ok o s =>
      cases o with
      | none => simpa [after, eachSome, eachSomeFrom, hrun, pageCount] using hhead
      | some a =>
        have hrest := ih s.pages
        rw [after_ok hrun] at hhead
        refine Nat.le_trans hhead ?_
        cases hruns : eachSomeFrom act cs s.pages with
        | error e t => simpa [after, eachSome, eachSomeFrom, hrun, hruns, pageCount] using hrest
        | ok as t => simpa [after, eachSome, eachSomeFrom, hrun, hruns, pageCount] using hrest

omit [Cursor C] in
/-- Asking one head takes no pages back, whether there is such a head or not. -/
theorem grows_at {act : Act (Over C) (Option α)} (hact : Grows pageCount act) (i : Nat) :
    Grows pageCount (at_ act i) := by
  rintro ⟨heads, pages⟩
  cases hget : heads[i]? with
  | none => simp [after, at_, hget]
  | some c =>
    have hhead := hact ⟨c, pages⟩
    cases hrun : act ⟨c, pages⟩ with
    | error e s => simpa [after, at_, hget, hrun, pageCount] using hhead
    | ok o s => simpa [after, at_, hget, hrun, pageCount] using hhead

variable (h : Growing C)

include h

theorem grows_ahead (key : UInt64) : Grows pageCount (ahead (C := C) key) :=
  (h.seek key).bind fun _ => h.peekNext

theorem grows_behind (key : UInt64) : Grows pageCount (behind (C := C) key) :=
  (h.seek key).bind fun _ => h.peekPrevious

/-- The first boundary is made by peeking back from each head. -/
theorem grows_initialBoundary : Grows pageCount (initialBoundary (C := C)) :=
  (grows_each h.peekPrevious).bind fun _ => .pure _

end Heads

open Heads

/-- A merge takes no pages back if its looks take none. -/
theorem Merging.growing {M : Type} [Cursor M] (m : Merging C M) (h : Growing C)
    (hnext : Grows pageCount (peekNext : Act (Over M) (Option Tuple)))
    (hprevious : Grows pageCount (peekPrevious : Act (Over M) (Option Tuple))) : Growing M := by
  have hmove (boundary : UInt64) : Grows pageCount (moveTo m.move boundary) :=
    grows_current.bind fun _ => grows_replace _
  have hsingle {α : Type} {act : Act (Over C) (Option α)} (hact : Grows pageCount act) :
      Grows pageCount (onHead m.heads m.put act) := grows_through (grows_at hact 0)
  have hstep {single look} (hhead : Grows pageCount single) (hlook : Grows pageCount look)
      (boundaryOf : UInt64 → UInt64) :
      Grows pageCount (stepBy m.heads m.put m.move single look boundaryOf) := by
    refine grows_current.bind fun x => ?_
    split
    · exact hsingle hhead
    · exact hlook.bind_option (.pure _) fun t => (hmove _).bind fun _ => .pure _
  refine ⟨hnext, hprevious, ?_, ?_, fun key => ?_⟩
  · rw [m.next_eq]
    exact hstep h.next hnext boundaryAfter
  · rw [m.previous_eq]
    exact hstep h.previous hprevious id
  · rw [m.seek_eq]
    refine grows_current.bind fun x => ?_
    split
    · exact (hsingle ((h.seek key).bind fun _ => .pure _)).bind fun _ => .pure _
    · exact hmove key

namespace Conjunction

variable (h : Growing C)

include h

/-- A run is collected by peeks and steps of one head. -/
theorem grows_collectRun (key : UInt64) (fuel : Nat) :
    Grows pageCount (collectRun (C := C) key fuel) := by
  induction fuel with
  | zero => exact .pure _
  | succ fuel ih =>
    exact h.peekNext.bind_option (.pure _) fun t =>
      .ite (.pure _) <| h.next.bind fun _ => ih.bind fun _ => .pure _

/-- A run at a key is collected between two seeks. -/
theorem grows_runAt (key : UInt64) : Grows pageCount (runAt (C := C) key) :=
  (h.seek key).bind fun _ => grows_current.bind fun _ => (grows_collectRun h key _).bind fun _ =>
    (h.seek key).bind fun _ => .pure _

/-- Picking a tuple asks each head for its run, or the first head for its next tuple. -/
theorem grows_pick (matchRoles : Bool) (key : UInt64) :
    Grows pageCount (pick (C := C) matchRoles key) := by
  cases matchRoles with
  | true => exact (grows_each (grows_runAt h key)).bind fun _ => .pure _
  | false => exact grows_at (grows_ahead h key) 0

/-- A search onwards asks all heads once in each round, and picks where they agree. -/
theorem grows_searchForward (matchRoles : Bool) (fuel : Nat) (goal : UInt64) :
    Grows pageCount (searchForward (C := C) matchRoles fuel goal) := by
  induction fuel generalizing goal with
  | zero => exact .pure _
  | succ fuel ih =>
    refine (grows_eachSome (grows_ahead h goal)).bind_option (.pure _) fun found => .ite (ih _) ?_
    exact (grows_pick h _ _).bind_option (.ite (.pure _) (ih _)) fun t => .pure _

/-- A search backwards asks all heads once in each round, and picks where they agree. -/
theorem grows_searchBackward (matchRoles : Bool) (fuel : Nat) (goal : UInt64) :
    Grows pageCount (searchBackward (C := C) matchRoles fuel goal) := by
  induction fuel generalizing goal with
  | zero => exact .pure _
  | succ fuel ih =>
    refine (grows_eachSome (grows_behind h goal)).bind_option (.pure _) fun found => .ite (ih _) ?_
    exact (grows_pick h _ _).bind_option (ih _) fun t => .pure _

theorem grows_lookForward : Grows pageCount (lookForward (C := C)) := by
  refine grows_current.bind fun c => ?_
  split
  · exact .pure _
  · exact grows_through (grows_at h.peekNext 0)
  · exact grows_through (grows_searchForward h _ _ _)

theorem grows_lookBackward : Grows pageCount (lookBackward (C := C)) := by
  refine grows_current.bind fun c => ?_
  split
  · exact .pure _
  · exact grows_through (grows_at h.peekPrevious 0)
  · exact grows_through (grows_searchBackward h _ _ _)

/-- An intersection takes no pages back if its heads take none. -/
theorem growing : Growing (Conjunction C) :=
  (merging C).growing h (grows_lookForward h) (grows_lookBackward h)

/-- Opening an intersection moves no head and takes no page back. -/
theorem grows_ofHeads (heads : List C) (matchRoles : Bool) :
    Grows PageFile.pageCount (ofHeads heads matchRoles) := by
  refine (grows_initialBoundary h).onPart (Over.mk heads) (fun _ => rfl) fun pages => ?_
  simp only [after, ofHeads]
  cases initialBoundary ⟨heads, pages⟩ <;> rfl

end Conjunction

namespace Disjunction

variable (h : Growing C)

include h

theorem grows_searchForward (boundary : UInt64) :
    Grows pageCount (searchForward (C := C) boundary) :=
  (grows_each (grows_ahead h boundary)).bind fun _ => .pure _

/-- A look back at a union asks all heads for the greatest key, and then one of them for its first tuple. -/
theorem grows_searchBackward (boundary : UInt64) :
    Grows pageCount (searchBackward (C := C) boundary) := by
  refine (grows_each (grows_behind h boundary)).bind fun found => ?_
  split
  · exact .pure _
  · exact grows_at (grows_ahead h _) _

theorem grows_lookForward : Grows pageCount (lookForward (C := C)) := by
  refine grows_current.bind fun c => ?_
  split
  · exact grows_through (grows_at h.peekNext 0)
  · exact grows_through (grows_searchForward h _)

theorem grows_lookBackward : Grows pageCount (lookBackward (C := C)) := by
  refine grows_current.bind fun c => ?_
  split
  · exact grows_through (grows_at h.peekPrevious 0)
  · exact grows_through (grows_searchBackward h _)

/-- A union takes no pages back if its heads take none. -/
theorem growing : Growing (Disjunction C) :=
  (merging C).growing h (grows_lookForward h) (grows_lookBackward h)

/-- Opening a union moves no head and takes no page back. -/
theorem grows_ofHeads (heads : List C) : Grows PageFile.pageCount (ofHeads heads) := by
  refine (grows_initialBoundary h).onPart (Over.mk heads) (fun _ => rfl) fun pages => ?_
  simp only [after, ofHeads]
  cases initialBoundary ⟨heads, pages⟩ <;> rfl

end Disjunction

/-! ## Towers -/

omit [Cursor C] in
/-- What runs under one constructor of a layer. -/
theorem Layer.le_after_under {D α : Type} {wrap : D → Layer C} {act : Act (Over D) α}
    {x : Act (Over (Layer C)) α} {s : Over (Layer C)} {c : D} (hact : Grows pageCount act)
    (hrun : x s = Layer.under wrap act c s.pages) : pageCount s ≤ pageCount (after x s) := by
  have hle := hact ⟨c, s.pages⟩
  cases h : act ⟨c, s.pages⟩ with
  | ok a t =>
    have hx : x s = .ok a ⟨wrap t.item, t.pages⟩ := by rw [hrun, under, h]
    rw [after_ok h] at hle
    rw [after_ok hx]
    exact hle
  | error e t =>
    have hx : x s = .error e ⟨wrap t.item, t.pages⟩ := by rw [hrun, under, h]
    rw [after_error h] at hle
    rw [after_error hx]
    exact hle

/-- Each kind of layer takes no pages back if the cursors of the tower below take none. -/
theorem Layer.growing (h : Growing C) : Growing (Layer C) := by
  have hrun : ∀ {α : Type} {act : {D : Type} → [Cursor D] → Act (Over D) α},
      (∀ {D : Type} [Cursor D], Growing D → Grows pageCount (act : Act (Over D) α)) →
      Grows pageCount (Layer.run (C := C) act) := by
    rintro α act hact ⟨layer, pages⟩
    cases layer with
    | same c => exact le_after_under (hact h) rfl
    | walking c => exact le_after_under (hact h.walking) rfl
    | distinct c => exact le_after_under (hact h.distinct) rfl
    | filtered c => exact le_after_under (hact h.filtered) rfl
    | widened c => exact le_after_under (hact h.widened) rfl
    | conjunction c => exact le_after_under (hact (Conjunction.growing h)) rfl
    | disjunction c => exact le_after_under (hact (Disjunction.growing h)) rfl
  exact ⟨hrun fun h => h.peekNext, hrun fun h => h.peekPrevious, hrun fun h => h.next,
    hrun fun h => h.previous, fun key => hrun fun h => h.seek key⟩

/-- Cursors of any height take no pages back, by induction on the height. -/
theorem Tower.growing : (n : Nat) → Growing (Tower n)
  | 0 => Source.growing
  | n + 1 => Layer.growing (Tower.growing n)

namespace AnyCursor

/-- A cursor of whatever height takes no pages back. -/
theorem growing : Growing AnyCursor := by
  have hrun : ∀ {α : Type} {act : {D : Type} → [Cursor D] → Act (Over D) α},
      (∀ {D : Type} [Cursor D], Growing D → Grows pageCount (act : Act (Over D) α)) →
      Grows pageCount (AnyCursor.run act) := by
    rintro α act hact ⟨⟨n, c⟩, pages⟩
    have htower := hact (Tower.growing n) ⟨c, pages⟩
    cases h : (act : Act (Over (Tower n)) α) ⟨c, pages⟩ with
    | ok a s => simpa [after, AnyCursor.run, h, pageCount] using htower
    | error e s => simpa [after, AnyCursor.run, h, pageCount] using htower
  exact ⟨hrun fun h => h.peekNext, hrun fun h => h.peekPrevious, hrun fun h => h.next,
    hrun fun h => h.previous, fun key => hrun fun h => h.seek key⟩

theorem grows_conjunction (cs : List AnyCursor) (matchRoles : Bool) :
    Grows PageFile.pageCount (conjunction cs matchRoles) :=
  (Conjunction.grows_ofHeads (Tower.growing _) _ _).bind fun _ => .pure _

theorem grows_disjunction (cs : List AnyCursor) :
    Grows PageFile.pageCount (disjunction cs) :=
  (Disjunction.grows_ofHeads (Tower.growing _) _).bind fun _ => .pure _

end AnyCursor

/-! ## Taking several tuples -/

theorem Cursor.Growing.collectForward (h : Growing C) (limit : Nat) :
    Grows pageCount (Cursor.collectForward (C := C) limit) := by
  induction limit with
  | zero => exact .pure _
  | succ limit ih =>
    exact h.next.bind_option (.pure _) fun t => ih.bind fun _ => .pure _

theorem Cursor.Growing.collectBackward (h : Growing C) (limit : Nat) :
    Grows pageCount (Cursor.collectBackward (C := C) limit) := by
  induction limit with
  | zero => exact .pure _
  | succ limit ih =>
    exact h.previous.bind_option (.pure _) fun t => ih.bind fun _ => .pure _

end EventIndex
