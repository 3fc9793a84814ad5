import EventIndex.Proofs.Cursor.Listed

/-! # Going back the way one came

A cursor over a list can be led back. The opposite of the steps that found something, the last one first,
finds the same tuples again and ends where the steps began (`Move.finds_undo`), and a look from anywhere
leaves no trace. Whatever is done before or afterwards finds what it finds without the detour, so that
`Retraces` can be said of the answers alone: it holds of every action that opens a cursor over a list
(`Opens.retraces`), wherever the cursor keeps its gap.
-/

namespace EventIndex

open Cursor

/-! ## Moves on a list -/

namespace Move

/-- Whether a move only looks. -/
def IsPeek : Move → Prop
  | peekNext | peekPrevious => True
  | _ => False

/-- Whether a move is a step to a neighbouring gap. -/
def IsStep : Move → Prop
  | next | previous => True
  | _ => False

/-- The step the other way. -/
def opposite : Move → Move
  | next => previous
  | previous => next
  | m => m

/-- The way back: the opposite of each move that found a tuple, the last one first. -/
def undo : (moves : List Move) → (found : List (Option Tuple)) → List Move
  | m :: moves, some _ :: found => undo moves found ++ [m.opposite]
  | _ :: moves, none :: found => undo moves found
  | _, _ => []

variable {ts : List Tuple} {t : Tuple} {p : Nat} {m : Move}

theorem gap_le (m : Move) (h : p ≤ ts.length) : m.gap ts p ≤ ts.length := by
  cases m with
  | peekNext => exact h
  | peekPrevious => exact h
  | next => exact Nat.min_le_right _ _
  | previous => exact Nat.le_trans (Nat.sub_le p 1) h
  | seek key => exact place_le ts key

theorem ends_le (moves : List Move) (h : p ≤ ts.length) : ends ts p moves ≤ ts.length := by
  induction moves generalizing p with
  | nil => exact h
  | cons m moves ih => exact ih (m.gap_le h)

theorem ends_append (ts : List Tuple) (p : Nat) (moves more : List Move) :
    ends ts p (moves ++ more) = ends ts (ends ts p moves) more :=
  List.foldl_append

/-- A walk may be cut; the second part begins where the first one ends. -/
theorem finds_append (ts : List Tuple) (p : Nat) (moves more : List Move) :
    finds ts p (moves ++ more) = finds ts p moves ++ finds ts (ends ts p moves) more := by
  induction moves generalizing p with
  | nil => rfl
  | cons m moves ih => exact congrArg (m.found ts p :: ·) (ih _)

theorem length_finds (ts : List Tuple) (p : Nat) (moves : List Move) :
    (finds ts p moves).length = moves.length := by
  induction moves generalizing p with
  | nil => rfl
  | cons m moves ih => exact congrArg (· + 1) (ih _)

/-- All that is found is in the list. -/
theorem mem_of_mem_finds {moves : List Move} (h : some t ∈ finds ts p moves) : t ∈ ts := by
  induction moves generalizing p with
  | nil => cases h
  | cons m moves ih =>
    rcases List.mem_cons.mp h with hfirst | hrest
    · cases m with
      | peekNext => exact List.mem_of_getElem? hfirst.symm
      | peekPrevious => exact mem_of_before hfirst.symm
      | next => exact List.mem_of_getElem? hfirst.symm
      | previous => exact mem_of_before hfirst.symm
      | seek key => cases hfirst
    · exact ih hrest

/-- A look leaves the place as it is. -/
theorem gap_of_isPeek (hm : m.IsPeek) (ts : List Tuple) (p : Nat) : m.gap ts p = p := by
  cases m with
  | peekNext => rfl
  | peekPrevious => rfl
  | next => cases hm
  | previous => cases hm
  | seek key => cases hm

/-- A step that finds nothing is at the end of the list, and stays there. -/
theorem gap_of_found_eq_none (hm : m.IsStep) (hp : p ≤ ts.length) (h : m.found ts p = none) :
    m.gap ts p = p := by
  cases m with
  | next =>
    have hend : ts.length ≤ p := List.getElem?_eq_none_iff.mp h
    show min (p + 1) ts.length = p
    omega
  | previous =>
    cases p with
    | zero => rfl
    | succ p =>
      have hend : ts.length ≤ p := List.getElem?_eq_none_iff.mp h
      omega
  | peekNext => cases hm
  | peekPrevious => cases hm
  | seek key => cases hm

/-- The step back from one that finds a tuple finds it again and leads to where it was. -/
theorem opposite_of_found_eq_some (hm : m.IsStep) (h : m.found ts p = some t) :
    m.opposite.found ts (m.gap ts p) = some t ∧ m.opposite.gap ts (m.gap ts p) = p := by
  cases m with
  | next =>
    have hlt : p < ts.length := (List.getElem?_eq_some_iff.mp h).1
    have hgap : gap ts p next = p + 1 := Nat.min_eq_left hlt
    rw [hgap]
    exact ⟨h, rfl⟩
  | previous =>
    cases p with
    | zero => cases h
    | succ p =>
      have hlt : p < ts.length := (List.getElem?_eq_some_iff.mp h).1
      exact ⟨h, Nat.min_eq_left hlt⟩
  | peekNext => cases hm
  | peekPrevious => cases hm
  | seek key => cases hm

/-- The way back finds the same tuples, the last one first, and ends where the steps began. -/
theorem finds_undo {steps : List Move} (hsteps : ∀ m ∈ steps, m.IsStep) (hp : p ≤ ts.length) :
    finds ts (ends ts p steps) (undo steps (finds ts p steps)) =
        ((finds ts p steps).filter Option.isSome).reverse ∧
      ends ts (ends ts p steps) (undo steps (finds ts p steps)) = p := by
  induction steps generalizing p with
  | nil => exact ⟨rfl, rfl⟩
  | cons m steps ih =>
    obtain ⟨hm, hrest⟩ := List.forall_mem_cons.mp hsteps
    obtain ⟨hfinds, hends⟩ := ih hrest (m.gap_le hp)
    have hcons : ends ts p (m :: steps) = ends ts (m.gap ts p) steps := rfl
    rw [hcons]
    cases hfound : m.found ts p with
    | none =>
      -- the first step did not move, and the way back leaves it out
      rw [gap_of_found_eq_none hm hp hfound] at hfinds hends ⊢
      rw [finds, hfound, undo, List.filter_cons_of_neg (by simp), gap_of_found_eq_none hm hp hfound]
      exact ⟨hfinds, hends⟩
    | some t =>
      -- the way back from the other steps ends where the first one led, and the step back comes last
      obtain ⟨hagain, hback⟩ := opposite_of_found_eq_some hm hfound
      rw [finds, hfound, undo, List.filter_cons_of_pos (by simp), List.reverse_cons, finds_append,
        ends_append, hfinds, hends]
      refine ⟨?_, hback⟩
      rw [finds, hagain, finds]

end Move

/-! ## Cursors on a list -/

namespace Cursor

variable {C : Type} [Cursor C] {ds : Disks} {ts : List Tuple} {p : Nat} {opened : Act PageFile C}

/-- Opens a cursor and makes some moves. -/
def walkFrom (opened : Act PageFile C) (moves : List Move) : Act PageFile (List (Option Tuple)) := do
  Over.runOn (← opened) (Move.walk moves)

/-- A cursor over a list finds what the moves find in the list. -/
theorem Opens.outcome_walkFrom (h : Opens ds opened ts p) {pages : PageFile} (hpages : pages.Sound)
    (hdisk : ds pages.disk) (moves : List Move) :
    Act.outcome (walkFrom opened moves) pages = .ok (Move.finds ts p moves) := by
  obtain ⟨c, hread, hshows⟩ := h.shows
  obtain ⟨c', p', hwalk, -⟩ := hshows.walk moves
  have hboth : PageFile.Reads ds (walkFrom opened moves) (Move.finds ts p moves) :=
    hread.bind hwalk.runOn
  exact hboth.outcome hpages hdisk

/-- What a detour leaves behind: nothing. -/
structure Retraces (ds : Disks) (opened : Act PageFile C) : Prop where
  /-- A look between any two moves changes no other answer. -/
  peeked : ∀ pages : PageFile, pages.Sound → ds pages.disk →
    ∀ (moves : List Move) (peek : Move) (more : List Move), peek.IsPeek →
    ∃ fs found gs, fs.length = moves.length ∧
      Act.outcome (walkFrom opened (moves ++ more)) pages = .ok (fs ++ gs) ∧
      Act.outcome (walkFrom opened (moves ++ peek :: more)) pages = .ok (fs ++ found :: gs)
  /-- Some steps and their way back change no other answer, and the way back finds what they found. -/
  undone : ∀ pages : PageFile, pages.Sound → ds pages.disk →
    ∀ moves steps more : List Move, (∀ m ∈ steps, m.IsStep) →
    ∃ fs gs hs, fs.length = moves.length ∧
      Act.outcome (walkFrom opened (moves ++ steps)) pages = .ok (fs ++ gs) ∧
      Act.outcome (walkFrom opened (moves ++ more)) pages = .ok (fs ++ hs) ∧
      Act.outcome (walkFrom opened (moves ++ (steps ++ (Move.undo steps gs ++ more)))) pages =
        .ok (fs ++ (gs ++ ((gs.filter Option.isSome).reverse ++ hs)))

/-- Whatever opens a cursor over a list opens one that can be led back. -/
theorem Opens.retraces (h : Opens ds opened ts p) : Retraces ds opened := by
  obtain ⟨c, -, hshows⟩ := h.shows
  have hp : p ≤ ts.length := hshows.inside
  constructor
  · intro pages hpages hdisk moves peek more hpeek
    refine ⟨Move.finds ts p moves, peek.found ts (Move.ends ts p moves),
      Move.finds ts (Move.ends ts p moves) more, Move.length_finds ts p moves, ?_, ?_⟩
    · rw [h.outcome_walkFrom hpages hdisk, Move.finds_append]
    · rw [h.outcome_walkFrom hpages hdisk, Move.finds_append, Move.finds,
        Move.gap_of_isPeek hpeek]
  · intro pages hpages hdisk moves steps more hsteps
    refine ⟨Move.finds ts p moves, Move.finds ts (Move.ends ts p moves) steps,
      Move.finds ts (Move.ends ts p moves) more, Move.length_finds ts p moves, ?_, ?_, ?_⟩
    · rw [h.outcome_walkFrom hpages hdisk, Move.finds_append]
    · rw [h.outcome_walkFrom hpages hdisk, Move.finds_append]
    · -- what comes after the way back starts where the steps did
      obtain ⟨hfinds, hends⟩ := Move.finds_undo hsteps (Move.ends_le moves hp)
      rw [h.outcome_walkFrom hpages hdisk, Move.finds_append, Move.finds_append, Move.finds_append,
        hfinds, hends]

end Cursor

end EventIndex
