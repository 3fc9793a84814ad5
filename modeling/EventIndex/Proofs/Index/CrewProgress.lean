import Mathlib.Algebra.BigOperators.Intervals
import EventIndex.Proofs.Index.Barriers

/-! # A crew comes to rest

The *load* of a crew is the number of turns that its workers and a flush under way still have before
them. Every such turn lowers it by one (`Runs.load_eq`), and while it is not 0 one of them is possible
(`Runs.goes_on`). So a crew that gets nothing new to do is at rest after as many turns as its load says,
whoever takes them (`Runs.comes_to_rest`).
-/

namespace EventIndex

/-- The turns that a worker spends on a job: it takes a task, runs it and records how that went; it takes
a barrier and answers. -/
def Job.load {τ : Type} : Job τ → Nat
  | .task _ => 3
  | .barrier => 2

namespace Crew

open Finset

variable {τ σ : Type} {run : τ → Act σ Unit} {group : τ → Nat} {c c' : Crew τ σ}
  {log log' : List (Entry τ)} {e : Entry τ} {i n workers : Nat} {state : σ} {o o' : Outline τ}
  {d : Desk τ} {turn : Turn τ}

/-! ## The load -/

/-- Whether an entry is about a turn that brings something new to do. -/
def Entry.bringsWork : Entry τ → Bool
  | submitted _ | refused _ _ | flushBegan => true
  | _ => false

/-- The turns that a worker still spends on what it has in hand. -/
def Hand.load : Hand τ → Nat
  | free => 0
  | holding _ => 2
  | reporting _ _ => 1
  | answering => 1

def Desk.load (d : Desk τ) : Nat := (d.queue.map Job.load).sum + d.hand.load

/-- The turns that a flush still takes, and those that its barriers give to so many workers. -/
def flushLoad (n : Nat) : Option Nat → Nat
  | none => 0
  | some k => 3 * (n - k) + (2 * n - max k n) + 1

def Outline.load (o : Outline τ) : Nat :=
  ∑ i ∈ range o.size, (o.desk i).load + flushLoad o.size o.flushing

/-- When one desk changes and the flush goes on, the load changes as their loads together do. -/
theorem Outline.load_of_desk (hi : i < o.size) (hsize : o'.size = o.size)
    (hdesk : ∀ j, o'.desk j = if j = i then d else o.desk j)
    (hload : d.load + flushLoad o.size o'.flushing + 1 =
      (o.desk i).load + flushLoad o.size o.flushing) : o'.load + 1 = o.load := by
  have hmem : i ∈ range o.size := mem_range.mpr hi
  have hrest : ∑ j ∈ (range o.size).erase i, (o'.desk j).load =
      ∑ j ∈ (range o.size).erase i, (o.desk j).load := by
    refine sum_congr rfl fun j hj => ?_
    rw [hdesk, if_neg (ne_of_mem_erase hj)]
  have hone : (o'.desk i).load = d.load := by rw [hdesk, if_pos rfl]
  rw [load, load, hsize, ← sum_erase_add _ _ hmem, hrest, hone,
    ← sum_erase_add _ (fun j => (o.desk j).load) hmem]
  omega

/-- A turn that brings nothing new to do takes one off the load. -/
theorem Step.load_eq (hfree : ∀ i, o.size ≤ i → (o.desk i).hand = .free) (hs : Step group o e o')
    (he : e.bringsWork = false) : o'.load + 1 = o.load := by
  -- only workers with a queue have something in hand
  have hlt : ∀ {i hand}, (o.desk i).hand = hand → hand ≠ .free → i < o.size := by
    rintro i hand rfl hhand
    by_contra hle
    exact hhand (hfree i (Nat.le_of_not_lt hle))
  cases hs with
  | submitted => cases he
  | flushBegan => cases he
  | @took i job rest hi hhand hqueue =>
    refine Outline.load_of_desk hi rfl (fun _ => rfl) ?_
    cases job <;> simp [Desk.load, hqueue, hhand, handOf, Hand.load, Job.load] <;> omega
  | ran error hhand =>
    refine Outline.load_of_desk (hlt hhand (by simp)) rfl (fun _ => rfl) ?_
    simp [Desk.load, hhand, Hand.load]
    omega
  | recorded hhand =>
    refine Outline.load_of_desk (hlt hhand (by simp)) rfl (fun _ => rfl) ?_
    simp [Desk.load, hhand, Hand.load]
    omega
  | answered hhand =>
    refine Outline.load_of_desk (hlt hhand (by simp)) rfl (fun _ => rfl) ?_
    simp [Desk.load, hhand, Hand.load]
    omega
  | raised hstage hi hroom =>
    refine Outline.load_of_desk hi rfl (fun _ => rfl) ?_
    simp [Desk.load, Job.load, hstage, flushLoad]
    omega
  | heard hstage hi hanswered =>
    refine Outline.load_of_desk hi rfl (fun _ => rfl) ?_
    simp [Desk.load, hstage, flushLoad]
    omega
  | @flushEnded k hstage hend =>
    have hflush : flushLoad o.size (some k) = 1 := by
      simp only [flushLoad]
      omega
    rw [Outline.load, Outline.load, hstage, hflush]
    rfl

namespace Runs

/-- Only workers with a queue have something in hand. -/
theorem hand_free (h : Runs run group (start workers state) log c) (hi : c.size ≤ i) :
    c.hand i = .free := by
  refine induct (I := fun _ o => ∀ i, o.size ≤ i → (o.desk i).hand = .free) (fun _ _ => rfl) ?_ h i hi
  intro log e o o' _ hfree hs i hi
  rw [hs.size_eq] at hi
  have hold := hfree i hi
  -- only a worker that there is has something in hand
  have hne : ∀ {j hand}, (o.desk j).hand = hand → hand ≠ .free → i ≠ j := by
    rintro j hand rfl hhand rfl
    exact hhand hold
  cases hs with
  | @submitted t =>
    by_cases heq : i = group t % o.size
    · subst heq
      simpa using hold
    · simpa [heq] using hold
  | took hlt => simpa [Nat.ne_of_gt (Nat.lt_of_lt_of_le hlt hi)] using hold
  | ran _ hhand => simpa [hne hhand (by simp)] using hold
  | recorded hhand => simpa [hne hhand (by simp)] using hold
  | answered hhand => simpa [hne hhand (by simp)] using hold
  | flushBegan => exact hold
  | raised _ hlt => simpa [Nat.ne_of_gt (Nat.lt_of_lt_of_le hlt hi)] using hold
  | heard _ hlt => simpa [Nat.ne_of_gt (Nat.lt_of_lt_of_le hlt hi)] using hold
  | flushEnded => exact hold

/-- Turns that bring nothing new to do are as many as the load loses. -/
theorem load_eq (h : Runs run group (start workers state) log c) (h' : Runs run group c log' c')
    (hquiet : ∀ e ∈ log', e.bringsWork = false) :
    c'.outline.load + log'.length = c.outline.load := by
  induction h' with
  | rest => rfl
  | @turn turn log' e c₁ c₂ hruns hnext ih =>
    have hstep := step_of_next (h.trans hruns).size_pos hnext
    have hlast := hstep.load_eq (fun i hi => (h.trans hruns).hand_free hi) (hquiet e (by simp))
    have hbefore := ih fun e he => hquiet e (List.mem_append_left _ he)
    rw [List.length_append, List.length_singleton]
    omega

end Runs

/-! ## Going on -/

/-- Nobody has anything to do. -/
structure AtRest (c : Crew τ σ) : Prop where
  queue : ∀ i, c.queue i = []
  hand : ∀ i, c.hand i = .free
  flushing : c.flushing = none

/-- A worker with something to do can do it. -/
theorem work_possible (run : τ → Act σ Unit) (h : c.queue i ≠ [] ∨ c.hand i ≠ .free) :
    ∃ e c', c.work run i = some (e, c') ∧ e.bringsWork = false := by
  rw [work]
  cases hhand : c.hand i with
  | free =>
    cases hqueue : c.queue i with
    | nil => simp [hqueue, hhand] at h
    | cons job rest => exact ⟨_, _, rfl, rfl⟩
  | holding t => exact ⟨_, _, rfl, rfl⟩
  | reporting t error => exact ⟨_, _, rfl, rfl⟩
  | answering => exact ⟨_, _, rfl, rfl⟩

/-- A worker with nothing to do has given the answer that a flush waits for. -/
theorem Runs.answered_of_idle {k : Nat} (h : Runs run group (start workers state) log c)
    (hqueue : c.queue i = []) (hhand : c.hand i = .free) (hstage : c.flushing = some k)
    (hi : i < c.size) (hraised : i < k) (hheard : k ≤ c.size + i) : c.answered i = true := by
  have htokens : (c.queue i).countP Job.isBarrier + (c.hand i).isAnswering.toNat +
      (c.answered i).toNat = due c.size i c.flushing := (h.attended hi).tokens
  rw [hqueue, hhand, hstage, due, if_pos ⟨hraised, hheard⟩] at htokens
  -- no place is left for its token but this
  cases hanswered : c.answered i with
  | false => simp [hanswered, Hand.isAnswering] at htokens
  | true => rfl

/-- A flush can go on when no worker has anything to do: all queues have room, and all answers are given
that it waits for. -/
theorem flush_possible {k : Nat} (h : Runs run group (start workers state) log c)
    (hqueue : ∀ i, c.queue i = []) (hhand : ∀ i, c.hand i = .free) (hstage : c.flushing = some k) :
    ∃ e c', c.flush = some (e, c') ∧ e.bringsWork = false := by
  rw [flush, hstage]
  dsimp only
  split
  · have hroom : c.hasRoom k = true := by
      rw [hasRoom, hqueue]
      rfl
    rw [if_pos hroom]
    exact ⟨_, _, rfl, rfl⟩
  · split
    · have hanswered := h.answered_of_idle (hqueue (k - c.size)) (hhand _) hstage (by omega) (by omega)
        (by omega)
      rw [if_pos hanswered]
      exact ⟨_, _, rfl, rfl⟩
    · exact ⟨_, _, rfl, rfl⟩

theorem AtRest.load_eq (h : c.AtRest) : c.outline.load = 0 := by
  have hdesk : ∀ i ∈ range c.outline.size, (c.outline.desk i).load = 0 := by
    intro i _
    show ((c.queue i).map Job.load).sum + (c.hand i).load = 0
    rw [h.queue, h.hand]
    rfl
  rw [Outline.load, sum_eq_zero hdesk]
  show 0 + flushLoad c.size c.flushing = 0
  rw [h.flushing]
  rfl

/-- Either nobody has anything to do, or somebody can go on with it. -/
theorem Runs.goes_on (h : Runs run group (start workers state) log c) :
    c.AtRest ∨ ∃ turn e c', next run group turn c = some (e, c') ∧ e.bringsWork = false := by
  by_cases hwork : ∃ i, c.queue i ≠ [] ∨ c.hand i ≠ .free
  · obtain ⟨i, hi⟩ := hwork
    exact .inr ⟨.work i, work_possible run hi⟩
  · have hqueue : ∀ i, c.queue i = [] := by
      intro i
      by_contra hne
      exact hwork ⟨i, .inl hne⟩
    have hhand : ∀ i, c.hand i = .free := by
      intro i
      by_contra hne
      exact hwork ⟨i, .inr hne⟩
    cases hstage : c.flushing with
    | none => exact .inl ⟨hqueue, hhand, hstage⟩
    | some k => exact .inr ⟨.flush, flush_possible h hqueue hhand hstage⟩

/-- A crew that gets nothing new to do takes no more turns than its load says. It is at rest after so
many, and can go on before. -/
theorem Runs.comes_to_rest (h : Runs run group (start workers state) log c)
    (h' : Runs run group c log' c') (hquiet : ∀ e ∈ log', e.bringsWork = false) :
    (log'.length = c.outline.load ∧ c'.AtRest) ∨
      (log'.length < c.outline.load ∧
        ∃ turn e c'', next run group turn c' = some (e, c'') ∧ e.bringsWork = false) := by
  have hload := h.load_eq h' hquiet
  rcases (h.trans h').goes_on with hrest | hmore
  · left
    rw [hrest.load_eq] at hload
    exact ⟨by omega, hrest⟩
  · right
    obtain ⟨turn, e, c'', hnext, he⟩ := hmore
    have hstep := step_of_next (h.trans h').size_pos hnext
    have hlast := hstep.load_eq (fun i hi => (h.trans h').hand_free hi) he
    exact ⟨by omega, turn, e, c'', hnext, he⟩

end Crew

end EventIndex
