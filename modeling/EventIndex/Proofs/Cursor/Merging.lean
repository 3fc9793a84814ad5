import EventIndex.Proofs.Cursor.Heads

/-! # What both merges have in common

An intersection and a union differ in what a look finds. All else they do alike: with a single head
everything is left to the head, and otherwise a step looks and takes the boundary over what it has
found, and seeking moves the boundary while the heads stay where they are. `Merging` says so once for
both, with the two merged cursors as `Conjunction.merging` and `Disjunction.merging`:

- a merge of one head is that head (`Merging.casing`);
- a merge of other than one head goes with its merged list as soon as its looks do
  (`Merging.bounded`).
-/

namespace EventIndex

open Cursor

variable {C M : Type} {ds : Disks}

namespace Merging

variable (heads : M → List C) (put : M → List C → M) (move : M → UInt64 → M)

/-- Runs an action at the only head. -/
def onHead {α : Type} (act : Act (Over C) (Option α)) : Act (Over M) (Option α) :=
  Over.through heads put (Heads.at_ act 0)

/-- Moves the boundary. -/
def moveTo (boundary : UInt64) : Act (Over M) Unit := do
  let x ← Over.current
  Over.replace (move x boundary)

/-- A step of the only head, or a look after which the boundary is taken over what was found. -/
def stepBy (single : Act (Over C) (Option Tuple)) (look : Act (Over M) (Option Tuple))
    (boundaryOf : UInt64 → UInt64) : Act (Over M) (Option Tuple) := do
  match heads (← Over.current) with
  | [_] => onHead heads put single
  | _ =>
    let found ← look
    if let some t := found then moveTo move (boundaryOf t.key)
    return found

/-- Seeks with the only head, or moves the boundary. -/
def seekBy [Cursor C] (key : UInt64) : Act (Over M) Unit := do
  match heads (← Over.current) with
  | [_] =>
    let _ ← onHead heads put (do seek key; return some ())
  | _ => moveTo move key

end Merging

/-- A cursor that merges others. `heads` are those that it merges, `put` puts others in their place, and
`move` moves its boundary. -/
structure Merging (C M : Type) [Cursor C] [Cursor M] where
  heads : M → List C
  put : M → List C → M
  move : M → UInt64 → M
  heads_put : ∀ x hs, heads (put x hs) = hs
  put_put : ∀ x hs hs', put (put x hs) hs' = put x hs'
  next_eq : (next : Act (Over M) (Option Tuple)) =
    Merging.stepBy heads put move next peekNext boundaryAfter
  previous_eq : (previous : Act (Over M) (Option Tuple)) =
    Merging.stepBy heads put move previous peekPrevious id
  seek_eq : ∀ key, (seek key : Act (Over M) Unit) = Merging.seekBy heads put move key
  /-- With a single head, a look is one of the head. -/
  peekNext_eq : ∀ x c f, heads x = [c] →
    (peekNext : Act (Over M) (Option Tuple)) ⟨x, f⟩ = Merging.onHead heads put peekNext ⟨x, f⟩
  peekPrevious_eq : ∀ x c f, heads x = [c] →
    (peekPrevious : Act (Over M) (Option Tuple)) ⟨x, f⟩ = Merging.onHead heads put peekPrevious ⟨x, f⟩
  extent_eq : ∀ x, Cursor.extent x = Heads.extent (heads x)

/-- An intersection merges its heads. -/
def Conjunction.merging (C : Type) [Cursor C] : Merging C (Conjunction C) where
  heads := Conjunction.heads
  put x heads := { x with heads }
  move x boundary := { x with boundary }
  heads_put _ _ := rfl
  put_put _ _ _ := rfl
  next_eq := rfl
  previous_eq := rfl
  seek_eq _ := rfl
  peekNext_eq := by
    rintro ⟨_, m, b⟩ c f ⟨⟩
    rfl
  peekPrevious_eq := by
    rintro ⟨_, m, b⟩ c f ⟨⟩
    rfl
  extent_eq _ := rfl

/-- A union merges its heads. -/
def Disjunction.merging (C : Type) [Cursor C] : Merging C (Disjunction C) where
  heads := Disjunction.heads
  put x heads := { x with heads }
  move x boundary := { x with boundary }
  heads_put _ _ := rfl
  put_put _ _ _ := rfl
  next_eq := rfl
  previous_eq := rfl
  seek_eq _ := rfl
  peekNext_eq := by
    rintro ⟨_, b⟩ c f ⟨⟩
    rfl
  peekPrevious_eq := by
    rintro ⟨_, b⟩ c f ⟨⟩
    rfl
  extent_eq _ := rfl

namespace Merging

variable [Cursor C] [Cursor M] (m : Merging C M) {x x' : M}

/-! ## One head -/

omit [Cursor C] [Cursor M] in
/-- With a single head, what a step or a seek does is up to the head. -/
theorem of_single {α : Type} {heads : M → List C} {single many : Act (Over M) α} {c : C}
    (hheads : heads x = [c]) (f : PageFile) :
    (do match heads (← Over.current) with
        | [_] => single
        | _ => many : Act (Over M) α) ⟨x, f⟩ = single ⟨x, f⟩ := by
  show (match heads x with
    | [_] => single
    | _ => many) ⟨x, f⟩ = _
  rw [hheads]

/-- A merge of one head is that head: what stands beside it is never read. -/
theorem casing (x : M) : Casing fun c : C => m.put x [c] := by
  have hheads (c : C) : m.heads (m.put x [c]) = [c] := m.heads_put x [c]
  have honly {α : Type} (act : Act (Over C) (Option α)) :
      Wraps (fun c => m.put x [c]) act (onHead m.heads m.put act) := by
    intro c f
    rw [onHead, Over.through, hheads, Heads.wraps_at_single act c f]
    cases act ⟨c, f⟩ <;> simp only [m.put_put]
  refine ⟨fun c f => ?_, fun c f => ?_, fun c f => ?_, fun c f => ?_, fun key c f => ?_, fun c => ?_⟩
  · rw [m.peekNext_eq _ c f (hheads c)]
    exact honly peekNext c f
  · rw [m.peekPrevious_eq _ c f (hheads c)]
    exact honly peekPrevious c f
  · rw [m.next_eq, stepBy, of_single (hheads c)]
    exact honly next c f
  · rw [m.previous_eq, stepBy, of_single (hheads c)]
    exact honly previous c f
  · rw [m.seek_eq, seekBy, of_single (hheads c)]
    -- the head answers that it has sought, and the answer is dropped
    have hseek := honly (do seek key; return some ()) c f
    cases hrun : (seek key : Act (Over C) Unit) ⟨c, f⟩ with
    | ok u s =>
      rw [Act.bind_ok hrun] at hseek
      exact Act.bind_ok hseek
    | error e s =>
      rw [Act.bind_error hrun] at hseek
      exact Act.bind_error hseek
  · rw [m.extent_eq, hheads]
    exact Nat.add_zero _

theorem shows_single (hput : m.put x (m.heads x) = x) {c : C} {ts : List Tuple} {p : Nat}
    (hheads : m.heads x = [c]) (h : Shows ds c ts p) : Shows ds x ts p := by
  rw [hheads] at hput
  exact hput ▸ h.cased (m.casing x)

/-! ## Other than one head -/

omit [Cursor C] [Cursor M] in
theorem reads_several {α : Type} {heads : M → List C} {single many : Act (Over M) α} {a : α}
    (hseveral : (heads x).length ≠ 1) (h : Over.Reads ds many x a x') :
    Over.Reads ds (do
      match heads (← Over.current) with
      | [_] => single
      | _ => many) x a x' := by
  refine (Over.Reads.current x).bind ?_
  rcases hheads : heads x with _ | ⟨c₁, _ | ⟨c₂, rest⟩⟩
  · exact h
  · exact absurd (congrArg List.length hheads) hseveral
  · exact h

omit [Cursor C] [Cursor M] in
theorem reads_moveTo {move : M → UInt64 → M} (boundary : UInt64) :
    Over.Reads ds (moveTo move boundary) x () (move x boundary) :=
  (Over.Reads.current x).bind (.replace x _)

omit [Cursor C] [Cursor M] in
/-- A step takes the boundary over what its look has found. -/
theorem reads_stepBy {heads : M → List C} {put : M → List C → M} {move : M → UInt64 → M}
    {single : Act (Over C) (Option Tuple)} {look : Act (Over M) (Option Tuple)} {found : Option Tuple}
    (hseveral : (heads x).length ≠ 1) (hlook : Over.Reads ds look x found x')
    (boundaryOf : UInt64 → UInt64) :
    Over.Reads ds (stepBy heads put move single look boundaryOf) x found
      (found.elim x' fun t => move x' (boundaryOf t.key)) := by
  refine reads_several hseveral (hlook.bind ?_)
  cases found with
  | none => exact .pure x' none
  | some t => exact (reads_moveTo _).bind (.pure _ _)

/-- Merges of other than one head go with their lists if their looks do. -/
theorem bounded {R : M → List Tuple → UInt64 → Prop}
    (hseveral : ∀ {x ts b}, R x ts b → (m.heads x).length ≠ 1)
    (hmove : ∀ {x ts b} b', R x ts b → R (m.move x b') ts b')
    (hstrict : ∀ {x ts b}, R x ts b → ts.Pairwise fun t u => t.key < u.key)
    (hextent : ∀ {x ts b}, R x ts b → ts.length ≤ Cursor.extent x)
    (hnext : ∀ {x ts b}, R x ts b →
      ∃ x', Over.Reads ds peekNext x (firstFrom ts b) x' ∧ R x' ts b)
    (hprevious : ∀ {x ts b}, R x ts b →
      ∃ x', Over.Reads ds peekPrevious x (lastBelow ts b) x' ∧ R x' ts b) : Bounded ds R where
  strict := hstrict
  extent := hextent
  peekNext := hnext
  peekPrevious := hprevious
  next := by
    intro x ts b h
    obtain ⟨x', hrun, h'⟩ := hnext h
    -- a step is a look, and then the boundary moves past what was found
    refine ⟨_, m.next_eq ▸ reads_stepBy (hseveral h) hrun boundaryAfter, ?_⟩
    cases firstFrom ts b with
    | none => exact h'
    | some t => exact hmove _ h'
  previous := by
    intro x ts b h
    obtain ⟨x', hrun, h'⟩ := hprevious h
    refine ⟨_, m.previous_eq ▸ reads_stepBy (hseveral h) hrun id, ?_⟩
    cases lastBelow ts b with
    | none => exact h'
    | some t => exact hmove _ h'
  seek := by
    intro x ts b key h
    rw [m.seek_eq]
    exact ⟨_, reads_several (hseveral h) (reads_moveTo key), hmove key h⟩

end Merging

end EventIndex
