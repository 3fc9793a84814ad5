import EventIndex.Proofs.Index.Totals

/-! # A ledger at rest

A ledger is at rest when nothing is pending and no job waits. All that was written to a list is then in
the list, and all registered events have their timestamps (`Rested.list_eq`). A flush brings a ledger to
rest: it hands everything on and lets the workers empty their queues (`settlingOrder`).

Main results:

* `settle_empty`: workers that empty their queues leave nothing behind.
* `Ledger.Rested.list_eq`, `Ledger.Rested.stamps_eq`: at rest, all that was written is in its list.
-/

namespace EventIndex

variable {n : Nat}

/-! ## Empty queues -/

namespace Staffed

variable {τ σ : Type} {run : τ → Act σ Unit} {s : Staffed τ σ}

/-- The workers that take the jobs when the queues are emptied. -/
def settlingOrder (run : τ → Act σ Unit) : (fuel : Nat) → Staffed τ σ → List Nat
  | 0, _ => []
  | fuel + 1, s =>
    match s.pool.queues.findIdx? (!·.isEmpty) with
    | none => []
    | some i => i :: settlingOrder run fuel (s.work run i)

/-- Several workers take a job each, one after another. -/
def workAll (run : τ → Act σ Unit) (workers : List Nat) (s : Staffed τ σ) : Staffed τ σ :=
  workers.foldl (fun s i => s.work run i) s

theorem settleWithin_eq_workAll (fuel : Nat) (s : Staffed τ σ) :
    settleWithin run fuel s = s.workAll run (settlingOrder run fuel s) := by
  induction fuel generalizing s with
  | zero => rfl
  | succ fuel ih =>
    rw [settleWithin, settlingOrder]
    cases s.pool.queues.findIdx? (!·.isEmpty) with
    | none => rfl
    | some i => exact ih (s.work run i)

/-- A worker that takes a job leaves its queue without it. -/
theorem queues_work {i : Nat} {job : Job τ} {rest : List (Job τ)}
    (h : s.pool.queues[i]? = some (job :: rest)) :
    (s.work run i).pool.queues = s.pool.queues.set i rest := by
  cases job with
  | task t =>
    rw [Recorder.work_task h]
    cases Recorder.errorOf (Act.outcome (run t) s.state) <;> rfl
  | barrier => rw [Recorder.work_barrier h]

/-- A job fewer waits. -/
theorem waiting_work {i : Nat} {job : Job τ} {rest : List (Job τ)}
    (h : s.pool.queues[i]? = some (job :: rest)) :
    (s.work run i).pool.waiting + 1 = s.pool.waiting := by
  obtain ⟨hi, hget⟩ := List.getElem?_eq_some_iff.mp h
  have hsplit := List.set_getElem_self hi
  have hsum : ∀ queue : List (Job τ), (s.pool.queues.set i queue).flatten.length =
      (s.pool.queues.take i).flatten.length + (queue.length +
        (s.pool.queues.drop (i + 1)).flatten.length) := by
    intro queue
    rw [List.set_eq_take_append_cons_drop, if_pos hi, List.flatten_append, List.flatten_cons,
      List.length_append, List.length_append]
  have hrest := hsum rest
  have hall := hsum s.pool.queues[i]
  rw [hsplit, hget, List.length_cons] at hall
  rw [Pool.waiting, Pool.waiting, queues_work h, hrest, hall]
  omega

/-- Workers that may take as many jobs as there are leave no queue with one. -/
theorem settleWithin_empty {fuel : Nat} (h : s.pool.waiting ≤ fuel) :
    ∀ queue ∈ (settleWithin run fuel s).pool.queues, queue = [] := by
  induction fuel generalizing s with
  | zero =>
    have hnone : s.pool.queues.flatten = [] := List.length_eq_zero_iff.mp (Nat.le_zero.mp h)
    exact List.flatten_eq_nil_iff.mp hnone
  | succ fuel ih =>
    rw [settleWithin]
    cases hfind : s.pool.queues.findIdx? (!·.isEmpty) with
    | none =>
      intro queue hqueue
      have hempty := List.findIdx?_eq_none_iff.mp hfind queue hqueue
      simpa using hempty
    | some i =>
      obtain ⟨hi, hne, -⟩ := List.findIdx?_eq_some_iff_getElem.mp hfind
      obtain ⟨job, rest, hcons⟩ := List.exists_cons_of_ne_nil
        (fun hnil => by simp [hnil] at hne : s.pool.queues[i] ≠ [])
      have hget : s.pool.queues[i]? = some (job :: rest) := by
        rw [List.getElem?_eq_getElem hi, hcons]
      have hless : (s.work run i).pool.waiting + 1 = s.pool.waiting := waiting_work hget
      exact ih (by omega)

/-- Workers that empty their queues leave nothing behind. -/
theorem settle_empty (run : τ → Act σ Unit) (s : Staffed τ σ) :
    ∀ queue ∈ (settle run s).pool.queues, queue = [] := settleWithin_empty (Nat.le_refl _)

end Staffed

/-! ## Rest -/

namespace Ledger

variable {kind? : SetId → Option Kind} {l : Ledger}

/-- Everything was handed on. -/
structure HandedOn (l : Ledger) (n : Nat) : Prop where
  pending : ∀ id : Fin n, (l.pending id).entries = #[]
  timeline : l.timeline.pending = #[]

/-- Everything was handed on, nothing waits, and no error does. -/
structure Rested (l : Ledger) (n : Nat) : Prop extends HandedOn l n where
  queues : ∀ queue ∈ l.staffed.pool.queues, queue = []
  firstError : l.staffed.pool.firstError = none

/-- Nothing waits for any account. -/
theorem queued_of_empty (a : Account kind?) {p : Pool Task} (h : ∀ queue ∈ p.queues, queue = []) :
    a.queued p = [] := by
  rw [Account.queued]
  cases hget : p.queues[a.group % p.queues.length]? with
  | none => rfl
  | some queue =>
    rw [h queue (List.mem_of_getElem? hget)]
    rfl

/-- All timestamps are in their list when none is pending and no job waits. -/
theorem stamps_eq_of_empty (hpending : l.timeline.pending = #[])
    (hqueues : ∀ queue ∈ l.staffed.pool.queues, queue = []) :
    l.book.stamps = (Account.ofStamps : Account kind?).total l := by
  have hnone : (Account.ofStamps : Account kind?).pending l.pending l.timeline = [] := by
    show l.timeline.pending.toList = []
    rw [hpending]
  rw [Account.total, queued_of_empty _ hqueues, hnone, List.append_nil, List.append_nil]
  rfl

/-- All timestamps are in their list. -/
theorem Rested.stamps_eq (h : l.Rested n) :
    l.book.stamps = (Account.ofStamps : Account kind?).total l :=
  stamps_eq_of_empty h.timeline h.queues

/-- All that was written to a list is in the list. -/
theorem Rested.list_eq (h : l.Rested n) (id : Fin n) {k : Kind} (hset : kind? id = some k)
    (value : ValueId) : l.book.lists id value = (Account.ofList hset value).total l := by
  have hpending : (Account.ofList hset value).pending l.pending l.timeline = [] := by
    show entriesOf value (l.pending id).entries.toList = []
    rw [h.pending id]
    rfl
  rw [Account.total, queued_of_empty _ h.queues, hpending, List.append_nil, List.append_nil]
  rfl

/-- Who only reads, and workers without jobs, do not disturb a ledger at rest. -/
theorem Rested.work (h : l.Rested n) (i : Nat) : (l.next (.work i : Call n)).Rested n := by
  have hidle : l.staffed.pool.queues[i]? = none ∨ l.staffed.pool.queues[i]? = some [] := by
    cases hget : l.staffed.pool.queues[i]? with
    | none => exact .inl rfl
    | some queue =>
      rw [h.queues queue (List.mem_of_getElem? hget)]
      exact .inr rfl
  have hsame : l.staffed.work Book.perform i = l.staffed := Recorder.work_idle hidle
  show Rested { l with staffed := l.staffed.work Book.perform i } n
  rw [hsame]
  exact h

/-! ## Handing everything on -/

/-- A flush of one set empties its batch, and fills none. -/
theorem pending_flushSet {id : SetId} (set : Fin n)
    (h : id = set ∨ (l.pending id).entries = #[]) :
    ((l.next (.flushSet set)).pending id).entries = #[] := by
  simp only [Ledger.next]
  split
  · rename_i hempty
    rcases h with rfl | h
    · simpa [Batch.isEmpty] using hempty
    · exact h
  · show (Function.update l.pending set (l.pending set).cleared id).entries = #[]
    by_cases hid : id = set
    · rw [hid, Function.update_self]
      rfl
    · rw [Function.update_of_ne hid]
      exact h.resolve_left hid

/-- When sets are flushed, nothing is pending for them. -/
theorem pending_flushSets (sets : List (Fin n)) {id : Fin n}
    (h : id ∈ sets ∨ (l.pending id).entries = #[]) :
    ((l.run (sets.map .flushSet)).pending id).entries = #[] := by
  induction sets generalizing l with
  | nil => exact h.resolve_left (List.not_mem_nil)
  | cons set sets ih =>
    refine ih ?_
    rcases h with h | h
    · rcases List.mem_cons.mp h with rfl | h
      · exact .inr (pending_flushSet id (.inl rfl))
      · exact .inl h
    · exact .inr (pending_flushSet set (.inr h))

theorem timeline_flushSets (sets : List (Fin n)) :
    (l.run (sets.map Call.flushSet)).timeline = l.timeline := by
  induction sets generalizing l with
  | nil => rfl
  | cons set sets ih =>
    refine (ih (l := l.next (.flushSet set))).trans ?_
    simp only [Ledger.next]
    split <;> rfl

/-- When timestamps are flushed, none is pending. -/
theorem timeline_flushStamps : (l.next (.flushStamps : Call n)).timeline.pending = #[] := by
  simp only [Ledger.next]
  split
  · rename_i hempty
    simpa using hempty
  · rfl

/-- Workers change the lists and the pool alone. -/
theorem run_works (workers : List Nat) :
    l.run (workers.map (.work : Nat → Call n)) =
      { l with staffed := l.staffed.workAll Book.perform workers } := by
  induction workers generalizing l with
  | nil => rfl
  | cons worker workers ih => exact ih (l := l.next (.work worker : Call n))

/-- Whatever workers do, nothing gets pending. -/
theorem HandedOn.run_works (h : l.HandedOn n) (workers : List Nat) :
    (l.run (workers.map (.work : Nat → Call n))).HandedOn n := by
  rw [Ledger.run_works]
  exact ⟨h.pending, h.timeline⟩

theorem run_cons (l : Ledger) (call : Call n) (calls : List (Call n)) :
    l.run (call :: calls) = (l.next call).run calls := rfl

theorem run_append (l : Ledger) (before after : List (Call n)) :
    l.run (before ++ after) = (l.run before).run after := List.foldl_append

end Ledger

end EventIndex
