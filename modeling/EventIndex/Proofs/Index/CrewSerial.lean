import EventIndex.Proofs.Index.CrewProgress
import EventIndex.Proofs.Index.Ingestion

/-! # A crew one job at a time

What a staffed pool does is one of the ways a crew may go: a worker that does a job takes its turns in a
row (`work_runs`), and so do the workers when they empty their queues (`settle_runs`). A submission to the
pool is one to the crew after which they do that (`submit_runs`). A flush of the pool is a flush of the crew
in which the barriers are raised first, the workers then empty their queues, and all answers are heard at
the end (`Runs.flush_runs`).

Nothing is claimed of other ways a crew may go. What is proved of all of them holds of this one, and so
of the pool.
-/

namespace EventIndex

namespace Crew

variable {τ σ : Type} {run : τ → Act σ Unit} {group : τ → Nat} {c c' : Crew τ σ}
  {log : List (Entry τ)} {i k workers : Nat} {state : σ} {job : Job τ} {rest : List (Job τ)}

/-! ## The turns of a worker -/

theorem grip_self (c : Crew τ σ) (i : Nat) (h : Hand τ) : (c.grip i h).hand i = h := if_pos rfl

/-- A worker with a free hand takes the job at the front of its queue. -/
theorem next_free (hhand : c.hand i = .free) (hqueue : c.queue i = job :: rest) :
    next run group (.work i) c =
      some (.took i job, (c.onPool (·.leave i rest)).grip i (handOf job)) := by
  rw [next, work, hhand, hqueue]

/-- A worker with a task in its hand runs it. -/
theorem next_holding {t : τ} (hhand : c.hand i = .holding t) :
    next run group (.work i) c = some (.ran i t (attempt (run t) c.staffed.state).1,
      (c.withState (attempt (run t) c.staffed.state).2).grip i
        (.reporting t (attempt (run t) c.staffed.state).1)) := by
  rw [next, work, hhand]

/-- A worker that has run its task records what has come of it. -/
theorem next_reporting {t : τ} {error : Option StorageError} (hhand : c.hand i = .reporting t error) :
    next run group (.work i) c =
      some (.recorded i t error, (c.onPool (·.record error)).grip i .free) := by
  rw [next, work, hhand]

/-- A worker with a barrier in its hand answers it. -/
theorem next_answering (hhand : c.hand i = .answering) :
    next run group (.work i) c = some (.answered i, (c.answer i true).grip i .free) := by
  rw [next, work, hhand]

/-- A task that is run leaves its error, if any, and the state that it has made. -/
theorem attempt_eq (act : Act σ Unit) (state : σ) :
    attempt act state = (Recorder.errorOf (Act.outcome act state), Act.after act state) := by
  rw [attempt, Act.outcome, Act.after]
  cases act state <;> rfl

/-- A worker that does a job. -/
theorem work_runs (run : τ → Act σ Unit) (group : τ → Nat) (hhand : ∀ i, c.hand i = .free)
    (hqueue : c.queue i = job :: rest) :
    ∃ log c', Runs run group c log c' ∧ c'.staffed = c.staffed.work run i ∧
      (∀ i, c'.hand i = .free) ∧ c'.flushing = c.flushing := by
  have hget : c.staffed.pool.queues[i]? = some (job :: rest) := by
    cases hget : c.staffed.pool.queues[i]? with
    | none => simp [queue, hget] at hqueue
    | some jobs => rw [← hqueue, queue, hget, Option.getD_some]
  have htake : Runs run group c [.took i job] ((c.onPool (·.leave i rest)).grip i (handOf job)) :=
    .one (next_free (hhand i) hqueue)
  cases job with
  | barrier =>
    -- a barrier is answered with nothing in between
    refine ⟨_, _, htake.turn (next_answering (grip_self _ i _)), ?_, ?_, rfl⟩
    · rw [Recorder.work_barrier hget]
      rfl
    · intro j
      by_cases hj : j = i <;> simp [grip, answer, onPool, hj, hhand]
  | task t =>
    -- a task is run, and what came of it is reported
    refine ⟨_, _, (htake.turn (next_holding (grip_self _ i _))).turn
      (next_reporting (grip_self _ i _)), ?_, ?_, rfl⟩
    · rw [Recorder.work_task hget, attempt_eq]
      rfl
    · intro j
      by_cases hj : j = i <;> simp [grip, withState, onPool, hj, hhand]

/-- The workers empty their queues, one after another. -/
theorem settle_runs (run : τ → Act σ Unit) (group : τ → Nat) (hhand : ∀ i, c.hand i = .free)
    (fuel : Nat) :
    ∃ log c', Runs run group c log c' ∧ c'.staffed = c.staffed.settleWithin run fuel ∧
      (∀ i, c'.hand i = .free) ∧ c'.flushing = c.flushing := by
  -- the first worker with something to do takes all its steps before the next one moves
  induction fuel generalizing c with
  | zero => exact ⟨[], c, .rest, rfl, hhand, rfl⟩
  | succ fuel ih =>
    rw [Staffed.settleWithin]
    cases hfind : c.staffed.pool.queues.findIdx? (!·.isEmpty) with
    | none => exact ⟨[], c, .rest, rfl, hhand, rfl⟩
    | some i =>
      obtain ⟨hi, hne, -⟩ := List.findIdx?_eq_some_iff_getElem.mp hfind
      obtain ⟨job, rest, hcons⟩ := List.exists_cons_of_ne_nil
        (fun hnil => by simp [hnil] at hne : c.staffed.pool.queues[i] ≠ [])
      have hqueue : c.queue i = job :: rest := by
        rw [queue, List.getElem?_eq_getElem hi, hcons, Option.getD_some]
      obtain ⟨log₁, c₁, hruns₁, hstaffed₁, hhand₁, hstage₁⟩ := work_runs run group hhand hqueue
      obtain ⟨log₂, c₂, hruns₂, hstaffed₂, hhand₂, hstage₂⟩ := ih hhand₁
      refine ⟨_, c₂, hruns₁.trans hruns₂, ?_, hhand₂, hstage₂.trans hstage₁⟩
      rw [hstaffed₂, hstaffed₁]

/-- A task that is submitted to a pool runs with all that wait, before anybody else moves. -/
theorem submit_runs (run : τ → Act σ Unit) (group : τ → Nat) (hhand : ∀ i, c.hand i = .free)
    (hopen : 0 < c.size) {t : τ} (hroom : c.hasRoom (group t % c.size) = true) :
    ∃ log c', Runs run group c (.submitted t :: log) c' ∧
      c'.staffed = Act.after (Staffed.submit run (group t) t) c.staffed ∧
      (∀ i, c'.hand i = .free) ∧ c'.flushing = c.flushing := by
  have hisOpen : c.staffed.pool.isOpen = true := isOpen_of_size hopen
  obtain ⟨staffed, hdefer⟩ : ∃ staffed, Staffed.defer (group t) t c.staffed = .ok () staffed := by
    rw [Staffed.defer, if_pos hisOpen]
    exact ⟨_, rfl⟩
  have hnext : next run group (.submit t) c = some (.submitted t, { c with staffed }) := by
    rw [next, submit, if_pos hroom, hdefer]
  obtain ⟨log, c', hruns, hstaffed, hhand', hstage⟩ :=
    settle_runs (c := { c with staffed }) run group hhand staffed.pool.waiting
  refine ⟨log, c', (Runs.one hnext).trans hruns, hstaffed.trans ?_, hhand', hstage⟩
  have hsubmit : Staffed.submit run (group t) t c.staffed = .ok () (Staffed.settle run staffed) := by
    show (Staffed.defer (group t) t >>= fun _ => modify (Staffed.settle run)) c.staffed = _
    rw [Act.bind_ok hdefer]
    rfl
  rw [Act.after, hsubmit]
  rfl

/-! ## A flush -/

/-- The queues when the first `k` barriers are raised. -/
def raisedTo (queues : List (List (Job τ))) (k : Nat) : List (List (Job τ)) :=
  queues.mapIdx fun j jobs => if j < k then jobs ++ [.barrier] else jobs

theorem raisedTo_succ (queues : List (List (Job τ))) (k : Nat) :
    (raisedTo queues k).modify k (· ++ [.barrier]) = raisedTo queues (k + 1) := by
  refine List.ext_getElem? fun j => ?_
  rw [List.getElem?_modify, raisedTo, raisedTo, List.getElem?_mapIdx, List.getElem?_mapIdx]
  cases queues[j]? with
  | none => rfl
  | some jobs =>
    rcases Nat.lt_trichotomy j k with hlt | rfl | hgt
    · simp [hlt, Nat.ne_of_gt hlt, Nat.lt_succ_of_lt hlt]
    · simp
    · simp [Nat.ne_of_lt hgt, Nat.not_lt.mpr (Nat.le_of_lt hgt), Nat.not_lt.mpr (Nat.succ_le_of_lt hgt)]

theorem raisedTo_zero (queues : List (List (Job τ))) : raisedTo queues 0 = queues := by
  refine List.ext_getElem? fun j => ?_
  rw [raisedTo, List.getElem?_mapIdx]
  cases queues[j]? <;> simp

/-- At last each queue has its barrier. -/
theorem raisedTo_length (queues : List (List (Job τ))) :
    raisedTo queues queues.length = queues.map (· ++ [.barrier]) := by
  refine List.ext_getElem (by simp [raisedTo]) fun j hj _ => ?_
  have hlt : j < queues.length := by simpa [raisedTo] using hj
  simp [raisedTo, hlt]

/-- A flush raises its barriers, nobody else comes between. -/
theorem raise_runs (run : τ → Act σ Unit) (group : τ → Nat) (hstage : c.flushing = some 0)
    (hroom : ∀ i < c.size, c.hasRoom i = true) (hk : k ≤ c.size) :
    ∃ log c', Runs run group c log c' ∧
      c'.staffed = ⟨{ c.staffed.pool with queues := raisedTo c.staffed.pool.queues k },
        c.staffed.state⟩ ∧ c'.hand = c.hand ∧ c'.flushing = some k := by
  induction k with
  | zero => exact ⟨[], c, .rest, by rw [raisedTo_zero], rfl, hstage⟩
  | succ k ih =>
    obtain ⟨log, c₁, hruns, hstaffed, hhand, hstage₁⟩ := ih (Nat.le_of_succ_le hk)
    have hsize : c₁.size = c.size := by
      rw [size, hstaffed]
      exact List.length_mapIdx
    -- the queue of the next worker has no barrier yet, so there is room as at first
    have hqueue : c₁.queue k = c.queue k := by
      rw [queue, hstaffed]
      show ((raisedTo c.staffed.pool.queues k)[k]?).getD [] = _
      rw [raisedTo, List.getElem?_mapIdx, queue]
      cases c.staffed.pool.queues[k]? <;> simp
    have hnext : next run group .flush c₁ =
        some (.raised k, (c₁.onPool (·.enqueue k .barrier)).withFlush (some (k + 1))) := by
      have hroom₁ : c₁.hasRoom k = true := by
        rw [hasRoom, hqueue]
        exact hroom k hk
      rw [next, flush, hstage₁]
      exact (if_pos (hsize ▸ hk)).trans (if_pos hroom₁)
    refine ⟨_, _, hruns.turn hnext, ?_, hhand, rfl⟩
    show Staffed.mk (c₁.staffed.pool.enqueue k .barrier) c₁.staffed.state = _
    rw [hstaffed, Pool.enqueue, raisedTo_succ]

/-- A flush hears all answers when the workers have nothing else to do. -/
theorem hear_runs (h : Runs run group (start workers state) log c) (hqueue : ∀ i, c.queue i = [])
    (hhand : ∀ i, c.hand i = .free) (hstage : c.flushing = some (c.size + k)) (hk : k ≤ c.size) :
    ∃ log' c', Runs run group c log' c' ∧ c'.staffed = c.staffed ∧ c'.hand = c.hand ∧
      c'.flushing = some (2 * c.size) := by
  induction hleft : c.size - k generalizing c k log with
  | zero => exact ⟨[], c, .rest, rfl, rfl, by rw [hstage]; congr; omega⟩
  | succ left ih =>
    have hanswered := h.answered_of_idle (hqueue k) (hhand k) hstage (by omega) (by omega) (by omega)
    have hnext : next run group .flush c =
        some (.heard k, (c.answer k false).withFlush (some (c.size + k + 1))) := by
      rw [next, flush, hstage]
      dsimp only
      rw [if_neg (by omega), if_pos (by omega), Nat.add_sub_cancel_left, if_pos hanswered]
    obtain ⟨log', c', hruns, hrest⟩ := ih (h.turn hnext) hqueue hhand (Nat.add_assoc _ _ _ ▸ rfl)
      (show k + 1 ≤ c.size by omega) (show c.size - (k + 1) = left by omega)
    exact ⟨_, c', (Runs.one hnext).trans hruns, hrest⟩

/-- The flush of a pool is a flush of the crew: it gives the same answer and leaves the same pool. -/
theorem Runs.flush_runs (h : Runs run group (start workers state) log c)
    (hhand : ∀ i, c.hand i = .free) (hstage : c.flushing = none)
    (hroom : ∀ i < c.size, c.hasRoom i = true) :
    ∃ log' error c', Runs run group c (.flushBegan :: log' ++ [.flushEnded error]) c' ∧
      c'.staffed = Act.after (Staffed.flush run) c.staffed ∧
      Act.outcome (Staffed.flush run) c.staffed = Pool.verdict error ∧ c'.AtRest := by
  have hbegin : next run group .flush c = some (.flushBegan, c.withFlush (some 0)) := by
    rw [next, flush, hstage]
  -- the barriers are raised, one for each worker
  obtain ⟨log₁, c₁, hraise, hstaffed₁, hhand₁, hstage₁⟩ :=
    raise_runs (c := c.withFlush (some 0)) run group rfl hroom (Nat.le_refl _)
  have hbarriers : c₁.staffed = ⟨c.staffed.pool.raiseBarriers, c.staffed.state⟩ :=
    hstaffed₁.trans (by rw [show (c.withFlush (some 0)).size = _ from rfl, size, raisedTo_length]; rfl)
  -- the workers empty their queues, the barriers with them
  obtain ⟨log₂, c₂, hsettle, hstaffed₂, hhand₂, hstage₂⟩ :=
    settle_runs (c := c₁) run group (fun i => by rw [hhand₁]; exact hhand i) c₁.staffed.pool.waiting
  have hsettled : c₂.staffed = Staffed.settle run ⟨c.staffed.pool.raiseBarriers, c.staffed.state⟩ := by
    rw [hstaffed₂, hbarriers]
    rfl
  have hqueue₂ : ∀ i, c₂.queue i = [] := by
    intro i
    rw [queue, hsettled]
    cases hget : (Staffed.settle run ⟨c.staffed.pool.raiseBarriers, c.staffed.state⟩).pool.queues[i]? with
    | none => rfl
    | some jobs => exact Staffed.settle_empty run _ jobs (List.mem_of_getElem? hget)
  have hreach := ((h.turn hbegin).trans hraise).trans hsettle
  have hsize₂ : c₂.size = c.size := hreach.size_eq.trans h.size_eq.symm
  have hstage₂' : c₂.flushing = some (c₂.size + 0) := by
    rw [hstage₂, hstage₁, hsize₂]
    rfl
  -- the answers are heard, and the flush is over
  obtain ⟨log₃, c₃, hhear, hstaffed₃, hhand₃, hstage₃⟩ :=
    hear_runs hreach hqueue₂ hhand₂ hstage₂' (Nat.zero_le _)
  have hend : next run group .flush c₃ =
      some (.flushEnded c₃.staffed.pool.firstError, (c₃.onPool .handOut).withFlush none) := by
    have hsize₃ : c₃.size = c₂.size := (hreach.trans hhear).size_eq.trans hreach.size_eq.symm
    rw [next, flush, hstage₃, ← hsize₃]
    dsimp only
    rw [if_neg (by omega), if_neg (Nat.lt_irrefl _)]
  obtain ⟨hafter, houtcome⟩ := Staffed.flush_spec run c.staffed (hsettled.symm.trans hstaffed₃.symm)
  have hruns := ((((Runs.one hbegin).trans hraise).trans hsettle).trans hhear).turn hend
  refine ⟨log₁ ++ log₂ ++ log₃, _, (c₃.onPool .handOut).withFlush none, ?_, hafter.symm, houtcome,
    ⟨?_, ?_, rfl⟩⟩
  · simpa using hruns
  · intro i
    show c₃.queue i = []
    rw [queue, hstaffed₃]
    exact hqueue₂ i
  · intro i
    show c₃.hand i = .free
    rw [hhand₃]
    exact hhand₂ i

end Crew

end EventIndex
