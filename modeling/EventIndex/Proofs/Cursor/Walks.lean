import EventIndex.Proofs.Cursor.Stored

/-! # What readers do with a snapshot

A reader asks a snapshot a `Question`, or opens a cursor on it and makes some `Move`s. All answers are
told by the list that the snapshot shows (`LiesOnAll.reads_ask`, `LiesOnAll.reads_walk`).

Others may go on with the page file between two moves. `Snapshot.walkOn` is a walk in which each move
meets a page file of its own, and `Isolated` says that a snapshot answers on all of some page files
what it answers on the present one.

Main results:

* `Snapshot.LiesOnAll.reads_ask`: every question is answered from the list.
* `Cursor.Shows.walk`, `Snapshot.LiesOnAll.reads_walk`: every walk is answered from the list.
* `Snapshot.LiesOnAll.isolated`: a snapshot that lies on many disks answers alike on all of them.
-/

namespace EventIndex

open Cursor

/-! ## Questions -/

/-- What may be asked of a snapshot. -/
inductive Question where
  | length
  | get (position : Nat)
  | lowerBound (key : UInt64)
  | upperBound (key : UInt64)
  | countInRange (k1 k2 : UInt64)
deriving Repr

/-- What a snapshot answers. -/
inductive Answer where
  | number (n : Nat)
  | tuple (t : Option Tuple)
deriving DecidableEq, Repr

/-- Asks a snapshot. -/
def Snapshot.ask (v : Snapshot) : Question → Act PageFile Answer
  | .length => return .number v.length
  | .get position => return .tuple (← v.get position)
  | .lowerBound key => return .number (← v.lowerBound key)
  | .upperBound key => return .number (← v.upperBound key)
  | .countInRange k1 k2 => return .number (← v.countInRange k1 k2)

/-- What a list of tuples answers. -/
def Question.answer (ts : List Tuple) : Question → Answer
  | length => .number ts.length
  | get position => .tuple ts[position]?
  | lowerBound key => .number (ts.countP fun t => t.key < key)
  | upperBound key => .number (ts.countP fun t => t.key ≤ key)
  | countInRange k1 k2 => .number (ts.countP fun t => k1 ≤ t.key ∧ t.key < k2)

namespace Cursor

/-- Between the places of two keys are the tuples from the one key up to the other. -/
theorem place_sub_place (ts : List Tuple) {k1 k2 : UInt64} (h : k1 ≤ k2) :
    place ts k2 - place ts k1 = ts.countP fun t => k1 ≤ t.key ∧ t.key < k2 := by
  have hsplit : place ts k2 = place ts k1 + ts.countP fun t => k1 ≤ t.key ∧ t.key < k2 := by
    induction ts with
    | nil => rfl
    | cons t ts ih =>
      simp only [place, List.countP_cons, decide_eq_true_eq] at ih ⊢
      rw [ih]
      -- the first tuple is below the lesser key, or between them, or neither
      by_cases h1 : t.key < k1
      · have h2 : t.key < k2 := UInt64.lt_of_lt_of_le h1 h
        simp only [h1, h2, UInt64.not_le.mpr h1, if_true, false_and, if_false]
        omega
      · simp only [h1, UInt64.not_lt.mp h1, if_false, true_and]
        omega
  rw [hsplit, Nat.add_sub_cancel_left]

end Cursor

namespace Snapshot

variable {v : Snapshot} {ds : Disks} {chunks : List (List Tuple)}

/-- The upper bound of a key counts the tuples that are not above it. -/
theorem LiesOnAll.reads_upperBound (h : v.LiesOnAll ds chunks) (key : UInt64) :
    PageFile.Reads ds (v.upperBound key) ((v.tuples chunks).countP fun t => t.key ≤ key) := by
  unfold upperBound
  split
  · -- no key is above the largest one
    rename_i hmax
    have hall : (v.tuples chunks).countP (fun t => t.key ≤ key) = (v.tuples chunks).length := by
      refine List.countP_eq_length.mpr fun t _ => ?_
      rw [decide_eq_true_eq, hmax, UInt64.le_iff_toNat_le]
      exact Nat.le_of_lt_succ t.key.toNat_lt
    rw [hall, h.length_eq]
    exact .pure _
  · rename_i hmax
    have hsame : place (v.tuples chunks) (key + 1) =
        (v.tuples chunks).countP fun t => t.key ≤ key := by
      refine List.countP_congr fun t _ => ?_
      rw [maxKey] at hmax
      simp only [decide_eq_true_eq]
      grind
    rw [← hsame]
    exact h.reads_lowerBound (key + 1)

/-- A range count counts the tuples from the one key up to the other. -/
theorem LiesOnAll.reads_countInRange (h : v.LiesOnAll ds chunks) (k1 k2 : UInt64) :
    PageFile.Reads ds (v.countInRange k1 k2)
      ((v.tuples chunks).countP fun t => k1 ≤ t.key ∧ t.key < k2) := by
  unfold countInRange
  split
  · rename_i hle
    have hnone : (v.tuples chunks).countP (fun t => k1 ≤ t.key ∧ t.key < k2) = 0 := by
      refine List.countP_eq_zero.mpr fun t _ => ?_
      rw [decide_eq_true_eq, not_and, UInt64.not_lt]
      exact fun hkey => UInt64.le_trans hle hkey
    rw [hnone]
    exact .pure _
  · rename_i hlt
    rw [← place_sub_place _ (UInt64.le_of_lt (UInt64.not_le.mp hlt))]
    exact (h.reads_lowerBound k2).bind ((h.reads_lowerBound k1).bind (.pure _))

/-- A snapshot answers what its list does. -/
theorem LiesOnAll.reads_ask (h : v.LiesOnAll ds chunks) (q : Question) :
    PageFile.Reads ds (v.ask q) (q.answer (v.tuples chunks)) := by
  cases q with
  | length =>
    rw [Question.answer, h.length_eq]
    exact .pure _
  | get position => exact (h.reads_get position).bind (.pure _)
  | lowerBound key => exact (h.reads_lowerBound key).bind (.pure _)
  | upperBound key => exact (h.reads_upperBound key).bind (.pure _)
  | countInRange k1 k2 => exact (h.reads_countInRange k1 k2).bind (.pure _)

end Snapshot

/-! ## Walks -/

/-- One step of a cursor. -/
inductive Move where
  | peekNext
  | peekPrevious
  | next
  | previous
  | seek (key : UInt64)
deriving Repr

/-- Where a cursor is opened. -/
inductive Opening where
  | first
  | last
  | atKey (key : UInt64)
deriving Repr

namespace Move

variable {C : Type} [Cursor C]

/-- Makes a move. Who seeks a key finds nothing. -/
def act : Move → Act (Over C) (Option Tuple)
  | peekNext => Cursor.peekNext
  | peekPrevious => Cursor.peekPrevious
  | next => Cursor.next
  | previous => Cursor.previous
  | seek key => do
    Cursor.seek key
    return none

/-- The tuple that a move finds in a list from a place on. -/
def found (ts : List Tuple) (p : Nat) : Move → Option Tuple
  | peekNext | next => ts[p]?
  | peekPrevious | previous => before ts p
  | seek _ => none

/-- The place in a list after a move. -/
def gap (ts : List Tuple) (p : Nat) : Move → Nat
  | peekNext | peekPrevious => p
  | next => min (p + 1) ts.length
  | previous => p - 1
  | seek key => place ts key

/-- Makes some moves, one after another. -/
def walk : List Move → Act (Over C) (List (Option Tuple))
  | [] => return []
  | m :: moves => do
    let found ← m.act
    return found :: (← walk moves)

/-- The tuples that some moves find in a list from a place on. -/
def finds (ts : List Tuple) : (p : Nat) → List Move → List (Option Tuple)
  | _, [] => []
  | p, m :: moves => m.found ts p :: finds ts (m.gap ts p) moves

/-- The place in a list after some moves. -/
def ends (ts : List Tuple) (p : Nat) (moves : List Move) : Nat :=
  moves.foldl (fun p m => m.gap ts p) p

end Move

/-- The place in a list where a cursor is opened. -/
def Opening.gap (ts : List Tuple) : Opening → Nat
  | first => 0
  | last => ts.length
  | atKey key => place ts key

/-- Runs an action on a value over a page file and drops the value. -/
def Over.runOn {C α : Type} (c : C) (act : Act (Over C) α) : Act PageFile α := fun pages =>
  match act ⟨c, pages⟩ with
  | .ok a s => .ok a s.pages
  | .error e s => .error e s.pages

/-- What a cursor finds when each of its moves meets a page file of its own. -/
def Stored.walkOn (c : Stored) : List (PageFile × Move) → Except StorageError (List (Option Tuple))
  | [] => .ok []
  | (pages, m) :: steps =>
    match m.act ⟨c, pages⟩ with
    | .ok found s => (walkOn s.item steps).map (found :: ·)
    | .error e _ => .error e

namespace Snapshot

/-- Opens a cursor. -/
def opened (v : Snapshot) : Opening → Act PageFile Stored
  | .first => return v.first
  | .last => return v.last
  | .atKey key => v.cursorAt key

/-- Opens a cursor and makes some moves. -/
def walk (v : Snapshot) (o : Opening) (moves : List Move) : Act PageFile (List (Option Tuple)) := do
  Over.runOn (← v.opened o) (Move.walk moves)

/-- A walk whose moves meet page files of their own, and the opening of the cursor does too. -/
def walkOn (v : Snapshot) (o : Opening) (pages : PageFile) (steps : List (PageFile × Move)) :
    Except StorageError (List (Option Tuple)) :=
  match v.opened o pages with
  | .ok c _ => c.walkOn steps
  | .error e _ => .error e

end Snapshot

namespace Cursor

variable {C : Type} [Cursor C] {ds : Disks} {c : C} {ts : List Tuple} {p : Nat}
  {R : C → List Tuple → Nat → Prop}

/-- One move is answered from the list, whatever the mimicry. -/
theorem Mimicry.move (hR : Mimicry ds R) (h : R c ts p) (m : Move) :
    ∃ c', Over.Reads ds m.act c (m.found ts p) c' ∧ R c' ts (m.gap ts p) := by
  cases m with
  | peekNext => exact hR.peekNext h
  | peekPrevious => exact hR.peekPrevious h
  | next => exact hR.next h
  | previous => exact hR.previous h
  | seek key =>
    obtain ⟨c', hrun, h'⟩ := hR.seek key h
    exact ⟨c', hrun.bind (.pure c' none), h'⟩

theorem Mimicry.walk_ends (hR : Mimicry ds R) (h : R c ts p) (moves : List Move) :
    ∃ c', Over.Reads ds (Move.walk moves) c (Move.finds ts p moves) c' ∧
      R c' ts (Move.ends ts p moves) := by
  induction moves generalizing c p with
  | nil => exact ⟨c, .pure c [], h⟩
  | cons m moves ih =>
    obtain ⟨c₁, hrun₁, h₁⟩ := hR.move h m
    obtain ⟨c₂, hrun₂, h₂⟩ := ih h₁
    exact ⟨c₂, hrun₁.bind (hrun₂.bind (.pure c₂ _)), h₂⟩

/-- So is a walk of any moves, by induction on them. -/
theorem Mimicry.walk (hR : Mimicry ds R) (h : R c ts p) (moves : List Move) :
    ∃ c' p', Over.Reads ds (Move.walk moves) c (Move.finds ts p moves) c' ∧ R c' ts p' := by
  obtain ⟨c', hrun, h'⟩ := hR.walk_ends h moves
  exact ⟨c', _, hrun, h'⟩

namespace Shows

theorem move (h : Shows ds c ts p) (m : Move) :
    ∃ c', Over.Reads ds m.act c (m.found ts p) c' ∧ Shows ds c' ts (m.gap ts p) :=
  (mimicry_shows ds).move h m

theorem walk (h : Shows ds c ts p) (moves : List Move) :
    ∃ c' p', Over.Reads ds (Move.walk moves) c (Move.finds ts p moves) c' ∧ Shows ds c' ts p' :=
  (mimicry_shows ds).walk h moves

/-- The moves may meet different page files, as long as the list lies on the disks of all of them. -/
theorem walkOn {c : Stored} (h : Shows ds c ts p) {steps : List (PageFile × Move)}
    (hsteps : ∀ step ∈ steps, step.1.Sound ∧ ds step.1.disk) :
    c.walkOn steps = .ok (Move.finds ts p (steps.map Prod.snd)) := by
  induction steps generalizing c p with
  | nil => rfl
  | cons step steps ih =>
    obtain ⟨⟨hsound, hdisk⟩, hrest⟩ := List.forall_mem_cons.mp hsteps
    obtain ⟨c', hrun, h'⟩ := h.move step.2
    obtain ⟨f', hmove, -, -⟩ := hrun step.1 hsound hdisk
    rw [Stored.walkOn, hmove]
    dsimp only
    rw [ih h' hrest]
    rfl

end Shows

end Cursor

theorem Over.Reads.runOn {C α : Type} {ds : Disks} {act : Act (Over C) α} {c c' : C} {a : α}
    (h : Over.Reads ds act c a c') : PageFile.Reads ds (Over.runOn c act) a := by
  intro f hf hd
  obtain ⟨f', hrun, hf', hd'⟩ := h f hf hd
  exact ⟨f', by simp only [Over.runOn, hrun], hf', hd'⟩

namespace Snapshot

variable {v : Snapshot} {ds : Disks} {chunks : List (List Tuple)}

/-- A cursor is opened at its place. -/
theorem LiesOnAll.reads_opened_at (h : v.LiesOnAll ds chunks) (o : Opening) :
    ∃ c, PageFile.Reads ds (v.opened o) c ∧ c.view = v ∧
      Stored.StandsAt ds chunks c (o.gap (v.tuples chunks)) := by
  have hnew : ∀ {p : Nat}, p ≤ (v.tuples chunks).length →
      Stored.StandsAt ds chunks ⟨v, p, none⟩ p :=
    fun hp => ⟨h, fun _ _ hpage => (nomatch hpage), rfl, hp⟩
  cases o with
  | first => exact ⟨_, .pure v.first, rfl, hnew (Nat.zero_le _)⟩
  | last =>
    refine ⟨_, .pure v.last, rfl, ?_⟩
    rw [Opening.gap, last, ← h.length_eq]
    exact hnew (Nat.le_refl _)
  | atKey key => exact ⟨_, h.reads_cursorAt key, rfl, hnew (place_le _ key)⟩

/-- Wherever a cursor is opened, it shows the list from that place. -/
theorem LiesOnAll.reads_opened (h : v.LiesOnAll ds chunks) (o : Opening) :
    ∃ c, PageFile.Reads ds (v.opened o) c ∧
      Shows ds c (v.tuples chunks) (o.gap (v.tuples chunks)) := by
  obtain ⟨c, hopened, hview, hstands⟩ := h.reads_opened_at o
  exact ⟨c, hopened, (Stored.mimicry_standsAt ds).shows ⟨chunks, hstands, by rw [hview]⟩⟩

/-- A walk finds what it finds in the list. -/
theorem LiesOnAll.reads_walk (h : v.LiesOnAll ds chunks) (o : Opening) (moves : List Move) :
    PageFile.Reads ds (v.walk o moves)
      (Move.finds (v.tuples chunks) (o.gap (v.tuples chunks)) moves) := by
  obtain ⟨c, hopened, hshows⟩ := h.reads_opened o
  obtain ⟨c', p', hwalk, -⟩ := hshows.walk moves
  exact hopened.bind hwalk.runOn

/-! ## Isolation -/

/-- A snapshot answers on the page files that may come what it answers on the present one. -/
structure Isolated (v : Snapshot) (now : PageFile) (later : PageFile → Prop) : Prop where
  asked : ∀ q : Question, ∃ answer, Act.outcome (v.ask q) now = .ok answer ∧
    ∀ pages, later pages → Act.outcome (v.ask q) pages = .ok answer
  /-- A walk finds the same when it is made at another time, or with others at work between any two of
  its moves. -/
  walked : ∀ (o : Opening) (moves : List Move), ∃ found,
    Act.outcome (v.walk o moves) now = .ok found ∧
    (∀ pages, later pages → Act.outcome (v.walk o moves) pages = .ok found) ∧
    ∀ pages (steps : List (PageFile × Move)), later pages → (∀ step ∈ steps, later step.1) →
      steps.map Prod.snd = moves → v.walkOn o pages steps = .ok found

/-- A snapshot that lies on many disks answers the same on all of them. -/
theorem LiesOnAll.isolated (h : v.LiesOnAll ds chunks) {now : PageFile} {later : PageFile → Prop}
    (hnow : now.Sound ∧ ds now.disk) (hlater : ∀ pages, later pages → pages.Sound ∧ ds pages.disk) :
    v.Isolated now later := by
  refine ⟨fun q => ⟨_, (h.reads_ask q).outcome hnow.1 hnow.2, fun pages hpages => ?_⟩,
    fun o moves => ?_⟩
  · exact (h.reads_ask q).outcome (hlater pages hpages).1 (hlater pages hpages).2
  · refine ⟨_, (h.reads_walk o moves).outcome hnow.1 hnow.2, fun pages hpages => ?_, ?_⟩
    · exact (h.reads_walk o moves).outcome (hlater pages hpages).1 (hlater pages hpages).2
    · rintro pages steps hpages hsteps rfl
      obtain ⟨c, hopened, hshows⟩ := h.reads_opened o
      obtain ⟨f', hopen, -, -⟩ := hopened pages (hlater pages hpages).1 (hlater pages hpages).2
      rw [walkOn, hopen]
      exact hshows.walkOn fun step hstep => hlater step.1 (hsteps step hstep)

end Snapshot

end EventIndex
