import EventIndex.Proofs.Index.CrewSteps

/-! # The tasks of a crew in order

The tasks of a worker pass through four stages: they are submitted, taken, run and recorded, and none
overtakes another. Between the first two stages they lie in the queue, and between the others one of them
is in the worker's hand (`InOrder`). The tasks of a group all go to one worker, so the same holds of each
group (`Runs.linesUp`).

The pool keeps the first of the errors that were recorded since a flush returned (`Runs.firstError_eq`).
Its state and its counters are as the log tells (`Runs.accounts`).

Main results:

* `InOrder.step`, `Runs.inOrder`: each turn, and so each run, keeps the tasks of every worker in order.
* `Runs.linesUp`: so do the tasks of each group.
* `Runs.firstError_eq`: which error the pool keeps.
* `Runs.accounts`: the state is what the tasks make of it, in the order in which they have run.
-/

namespace EventIndex

namespace Crew

variable {τ σ : Type} {run : τ → Act σ Unit} {group : τ → Nat} {c : Crew τ σ} {log : List (Entry τ)}
  {e : Entry τ} {i n g workers : Nat} {state : σ} {t : τ} {o o' : Outline τ}

/-! ## The tasks of a worker -/

/-- Whether a task goes to a worker, of so many. -/
def assigned (group : τ → Nat) (n i : Nat) (t : τ) : Bool := group t % n = i

/-- Where the tasks of a worker are, the oldest ones last in each stage. -/
structure InOrder (group : τ → Nat) (log : List (Entry τ)) (o : Outline τ) (i : Nat) : Prop where
  waiting : (submissions log).filter (assigned group o.size i) =
    (taken log).filter (assigned group o.size i) ++ tasksIn (o.desk i).queue
  held : (taken log).filter (assigned group o.size i) =
    ((ran log).filter fun r => assigned group o.size i r.1).map Prod.fst ++ (o.desk i).hand.unrun
  unrecorded : (ran log).filter (fun r => assigned group o.size i r.1) =
    (recorded log).filter (fun r => assigned group o.size i r.1) ++ (o.desk i).hand.unrecorded

namespace InOrder

/-- A task in a queue is there because of its group. -/
theorem assigned_of_queue (h : InOrder group log o i) (ht : t ∈ tasksIn (o.desk i).queue) :
    assigned group o.size i t = true := by
  have hmem : t ∈ (submissions log).filter (assigned group o.size i) := by
    rw [h.waiting]
    exact List.mem_append_right _ ht
  exact (List.mem_filter.mp hmem).2

/-- A task in the hand of a worker is there because of its group. -/
theorem assigned_of_unrun (h : InOrder group log o i) (ht : t ∈ (o.desk i).hand.unrun) :
    assigned group o.size i t = true := by
  have hmem : t ∈ (taken log).filter (assigned group o.size i) := by
    rw [h.held]
    exact List.mem_append_right _ ht
  exact (List.mem_filter.mp hmem).2

/-- A task that the worker is about to report is there because of its group. -/
theorem assigned_of_unrecorded {r : τ × Option StorageError} (h : InOrder group log o i)
    (hr : r ∈ (o.desk i).hand.unrecorded) : assigned group o.size i r.1 = true := by
  have hmem : r ∈ (ran log).filter fun r => assigned group o.size i r.1 := by
    rw [h.unrecorded]
    exact List.mem_append_right _ hr
  exact (List.mem_filter.mp hmem).2

/-- A turn that is about no task of a worker moves none of its tasks on. -/
theorem of_frame (h : InOrder group log o i) (hsize : o'.size = o.size)
    (htask : ∀ t ∈ e.task?, assigned group o.size i t = false)
    (hqueue : tasksIn (o'.desk i).queue = tasksIn (o.desk i).queue)
    (hunrun : (o'.desk i).hand.unrun = (o.desk i).hand.unrun)
    (hunrecorded : (o'.desk i).hand.unrecorded = (o.desk i).hand.unrecorded) :
    InOrder group (log ++ [e]) o' i := by
  have hsub : e.submission?.toList.filter (assigned group o.size i) = [] := by
    cases e <;> simp_all [Entry.submission?, Entry.task?]
  have htake : e.taking?.toList.filter (assigned group o.size i) = [] := by
    rcases e with _ | _ | ⟨_, _ | _⟩ | _ <;> simp_all [Entry.taking?, Entry.task?]
  have hrun : e.running?.toList.filter (fun r => assigned group o.size i r.1) = [] := by
    cases e <;> simp_all [Entry.running?, Entry.task?]
  have hrec : e.record?.toList.filter (fun r => assigned group o.size i r.1) = [] := by
    cases e <;> simp_all [Entry.record?, Entry.task?]
  constructor
  · simpa [hsize, hsub, htake, hqueue] using h.waiting
  · simpa [hsize, htake, hrun, hunrun] using h.held
  · simpa [hsize, hrun, hrec, hunrecorded] using h.unrecorded

/-- A task of one worker is none of another. -/
theorem not_assigned {j : Nat} (h : assigned group n i t = true) (hne : j ≠ i) :
    assigned group n j t = false :=
  decide_eq_false fun heq => hne (heq.symm.trans (of_decide_eq_true h))

/-- A turn that is about a task of one worker moves none of another. -/
theorem of_other {j : Nat} (h : InOrder group log o j) (hsize : o'.size = o.size)
    (hdesk : o'.desk j = o.desk j) (htask : ∀ t ∈ e.task?, assigned group o.size i t = true)
    (hne : j ≠ i) : InOrder group (log ++ [e]) o' j := by
  refine h.of_frame hsize ?_ ?_ ?_ ?_
  · intro t ht
    exact not_assigned (htask t ht) hne
  · rw [hdesk]
  · rw [hdesk]
  · rw [hdesk]

attribute [local simp] Entry.submission? Entry.taking? Entry.running? Entry.record? Entry.task?

/-- Every turn keeps the tasks in order. -/
theorem step (h : ∀ i, InOrder group log o i) (hs : Step group o e o') (j : Nat) :
    InOrder group (log ++ [e]) o' j := by
  have hj := h j
  cases hs with
  -- a turn about a task moves it to its next stage, and is nothing to the other workers
  | @submitted t hroom =>
    have ht : assigned group o.size (group t % o.size) t = true := decide_eq_true rfl
    by_cases hji : j = group t % o.size
    · subst hji
      constructor
      · simp [ht, hj.waiting, tasksIn]
      · simpa using hj.held
      · simpa using hj.unrecorded
    · exact hj.of_other rfl (if_neg hji) (by simp [ht]) hji
  | @took i job rest hlt hhand hqueue =>
    cases job with
    | task t =>
      have ht : assigned group o.size i t = true := (h i).assigned_of_queue (by simp [hqueue])
      by_cases hji : j = i
      · subst hji
        constructor
        · simpa [ht, hqueue] using hj.waiting
        · simpa [ht, hhand, Hand.unrun, handOf] using hj.held
        · simpa [hhand, Hand.unrecorded, handOf] using hj.unrecorded
      · exact hj.of_other rfl (if_neg hji) (by simp [ht]) hji
    | barrier =>
      -- a barrier is no task, so the stages stay as they are
      refine hj.of_frame rfl (by simp) ?_ ?_ ?_ <;> by_cases hji : j = i <;>
        simp [hji, hqueue, hhand, handOf, Hand.unrun, Hand.unrecorded]
  | @ran i t error hhand =>
    have ht : assigned group o.size i t = true := (h i).assigned_of_unrun (by simp [hhand, Hand.unrun])
    by_cases hji : j = i
    · subst hji
      constructor
      · simpa using hj.waiting
      · simpa [ht, hhand, Hand.unrun] using hj.held
      · simpa [ht, hhand, Hand.unrecorded] using hj.unrecorded
    · exact hj.of_other rfl (if_neg hji) (by simp [ht]) hji
  | @recorded i t error hhand =>
    have ht : assigned group o.size i t = true :=
      (h i).assigned_of_unrecorded (r := (t, error)) (by simp [hhand, Hand.unrecorded])
    by_cases hji : j = i
    · subst hji
      constructor
      · simpa using hj.waiting
      · simpa [hhand, Hand.unrun] using hj.held
      · simpa [ht, hhand, Hand.unrecorded] using hj.unrecorded
    · exact hj.of_other rfl (if_neg hji) (by simp [ht]) hji
  | @answered i hhand =>
    refine hj.of_frame rfl (by simp) ?_ ?_ ?_ <;> by_cases hji : j = i <;>
      simp [hji, hhand, Hand.unrun, Hand.unrecorded]
  | flushBegan => exact hj.of_frame rfl (by simp) rfl rfl rfl
  | @raised i =>
    refine hj.of_frame rfl (by simp) ?_ ?_ ?_ <;> by_cases hji : j = i <;> simp [hji, tasksIn]
  | @heard i =>
    refine hj.of_frame rfl (by simp) ?_ ?_ ?_ <;> by_cases hji : j = i <;> simp [hji]
  | flushEnded => exact hj.of_frame rfl (by simp) rfl rfl rfl

end InOrder

/-- At the start there are no tasks. -/
theorem inOrder_start (group : τ → Nat) (workers : Nat) (state : σ) (i : Nat) :
    InOrder group [] (start workers state : Crew τ σ).outline i := by
  constructor
  · show _ = _ ++ tasksIn ((start workers state : Crew τ σ).queue i)
    rw [queue_start]
    rfl
  · rfl
  · rfl

/-- Whatever the order of the turns, the tasks of each worker are in order. -/
theorem Runs.inOrder (h : Runs run group (start workers state) log c) (i : Nat) :
    InOrder group log c.outline i :=
  Runs.induct (I := fun log o => ∀ i, InOrder group log o i) (inOrder_start group workers state)
    (fun _ h hs => InOrder.step h hs) h i

/-! ## The tasks of a group -/

/-- The tasks of a group that were submitted. -/
def submittedOf (group : τ → Nat) (g : Nat) (log : List (Entry τ)) : List τ :=
  (submissions log).filter fun t => group t = g

/-- The tasks of a group that were taken from the queue. -/
def takenOf (group : τ → Nat) (g : Nat) (log : List (Entry τ)) : List τ :=
  (taken log).filter fun t => group t = g

/-- The tasks of a group that have run, with their errors. -/
def ranOf (group : τ → Nat) (g : Nat) (log : List (Entry τ)) : List (τ × Option StorageError) :=
  (ran log).filter fun r => group r.1 = g

/-- The tasks of a group whose result is recorded, with their errors. -/
def recordedOf (group : τ → Nat) (g : Nat) (log : List (Entry τ)) : List (τ × Option StorageError) :=
  (recorded log).filter fun r => group r.1 = g

/-- All tasks of a group go to the same worker. -/
theorem filter_assigned {α : Type} (f : α → τ) (xs : List α) :
    (xs.filter fun a => assigned group n (g % n) (f a)).filter (fun a => group (f a) = g) =
      xs.filter fun a => group (f a) = g := by
  rw [List.filter_filter]
  refine List.filter_congr fun a _ => ?_
  by_cases hg : group (f a) = g <;> simp [assigned, hg]

/-- Among the tasks of its worker a group has all of its own. -/
theorem filter_assigned_tasks (xs : List τ) :
    (xs.filter (assigned group n (g % n))).filter (fun t => group t = g) =
      xs.filter fun t => group t = g :=
  filter_assigned id xs

/-- The worker of a group has the tasks of the group in order, among its others. -/
theorem InOrder.of_group (h : InOrder group log o (g % o.size)) :
    submittedOf group g log = takenOf group g log ++
        (tasksIn (o.desk (g % o.size)).queue).filter (fun t => group t = g) ∧
      takenOf group g log = (ranOf group g log).map Prod.fst ++
        (o.desk (g % o.size)).hand.unrun.filter (fun t => group t = g) ∧
      ranOf group g log = recordedOf group g log ++
        (o.desk (g % o.size)).hand.unrecorded.filter (fun r => group r.1 = g) := by
  refine ⟨?_, ?_, ?_⟩
  · have hpart := congrArg (List.filter fun t => group t = g) h.waiting
    rwa [List.filter_append, filter_assigned_tasks, filter_assigned_tasks] at hpart
  · have hpart := congrArg (List.filter fun t => group t = g) h.held
    rw [List.filter_append, filter_assigned_tasks, List.filter_map] at hpart
    have hran : ((ran log).filter fun r => assigned group o.size (g % o.size) r.1).filter
        (fun r => group r.1 = g) = ranOf group g log := filter_assigned Prod.fst (ran log)
    exact hpart.trans (congrArg (fun xs => List.map Prod.fst xs ++ _) hran)
  · have hpart := congrArg (List.filter fun r => group r.1 = g) h.unrecorded
    rwa [List.filter_append, filter_assigned Prod.fst, filter_assigned Prod.fst] at hpart

/-- A worker has one task in its hand at most. -/
theorem Hand.length_le_one (hand : Hand τ) : hand.unrun.length + hand.unrecorded.length ≤ 1 := by
  cases hand <;> exact Nat.le_of_ble_eq_true rfl

/-- The tasks of a group run one after the other, in the order of their submission. -/
structure LinesUp (group : τ → Nat) (g : Nat) (log : List (Entry τ)) : Prop where
  taken : takenOf group g log <+: submittedOf group g log
  ran : (ranOf group g log).map Prod.fst <+: takenOf group g log
  recorded : recordedOf group g log <+: ranOf group g log
  /-- A task is taken only after the result of the one before it is recorded. -/
  one_by_one : (takenOf group g log).length ≤ (recordedOf group g log).length + 1

/-- Whatever the order of the turns, the tasks of each group line up. -/
theorem Runs.linesUp (h : Runs run group (start workers state) log c) (g : Nat) :
    LinesUp group g log := by
  obtain ⟨htaken, hran, hrecorded⟩ := (h.inOrder (g % c.size)).of_group
  refine ⟨⟨_, htaken.symm⟩, ⟨_, hran.symm⟩, ⟨_, hrecorded.symm⟩, ?_⟩
  have hhand := (c.outline.desk (g % c.size)).hand.length_le_one
  have hunrun := List.length_filter_le (fun t => decide (group t = g))
    (c.outline.desk (g % c.size)).hand.unrun
  have hunrecorded := List.length_filter_le (fun r => decide (group r.1 = g))
    (c.outline.desk (g % c.size)).hand.unrecorded
  rw [hran, hrecorded, List.length_append, List.length_map, List.length_append]
  show _ + (List.filter _ (c.outline.desk (g % c.size)).hand.unrecorded).length +
    (List.filter _ (c.outline.desk (g % c.size)).hand.unrun).length ≤ _
  omega

/-- A task has its result recorded after it ran, once enough results of its group are recorded. -/
theorem Runs.recorded_after {ranBefore ranAfter : List (Entry τ)} {error : Option StorageError}
    (h : Runs run group (start workers state) log c)
    (hran : log = ranBefore ++ .ran i t error :: ranAfter)
    (hcount : (ranOf group (group t) ranBefore).length < (recordedOf group (group t) log).length) :
    (t, error) ∈ recorded ranAfter := by
  have hranOf : ranOf group (group t) log =
      ranOf group (group t) ranBefore ++ (t, error) :: ranOf group (group t) ranAfter := by
    rw [hran, List.append_cons, ranOf, ran_append, ran_append, ran_singleton, List.filter_append,
      List.filter_append, List.append_assoc]
    simp [ranOf, Entry.running?]
  have hrecordedOf : recordedOf group (group t) log =
      recordedOf group (group t) ranBefore ++ recordedOf group (group t) ranAfter := by
    rw [hran, List.append_cons, recordedOf, recorded_append, recorded_append, recorded_singleton,
      List.filter_append, List.filter_append, List.append_assoc]
    simp [recordedOf, Entry.record?]
  -- its place among the results is the one that it has among the runs
  have hplace : (recordedOf group (group t) log)[(ranOf group (group t) ranBefore).length]? =
      some (t, error) := by
    obtain ⟨unrecorded, hunrecorded⟩ := (h.linesUp (group t)).recorded
    have hget := congrArg (fun rs => rs[(ranOf group (group t) ranBefore).length]?) hunrecorded
    rwa [List.getElem?_append_left hcount, hranOf, List.getElem?_append_right (Nat.le_refl _),
      Nat.sub_self, List.getElem?_cons_zero] at hget
  have hprefix : ranBefore <+: log := ⟨_, hran.symm⟩
  obtain ⟨_, hbefore⟩ := h.of_prefix hprefix
  rw [hrecordedOf, List.getElem?_append_right (hbefore.linesUp (group t)).recorded.length_le] at hplace
  exact (List.mem_filter.mp (List.mem_of_getElem? hplace)).1

/-- Once the worker of a group has nothing to do, every task of the group has run. -/
theorem Runs.all_ran (h : Runs run group (start workers state) log c)
    (hqueue : c.queue (g % c.size) = []) (hhand : c.hand (g % c.size) = .free) :
    (ranOf group g log).map Prod.fst = submittedOf group g log ∧
      recordedOf group g log = ranOf group g log := by
  obtain ⟨htaken, hran, hrecorded⟩ := (h.inOrder (g % c.size)).of_group
  have hqueue' : (c.outline.desk (g % c.outline.size)).queue = [] := hqueue
  have hhand' : (c.outline.desk (g % c.outline.size)).hand = .free := hhand
  rw [hqueue'] at htaken
  rw [hhand'] at hran hrecorded
  rw [htaken, hran, hrecorded]
  simp [tasksIn, Hand.unrun, Hand.unrecorded]

/-! ## The first error -/

theorem errors_singleton (e : Entry τ) : errors [e] = (e.record?.bind Prod.snd).toList := by
  rw [errors, recorded_singleton]
  rcases e.record? with _ | ⟨_, _ | _⟩ <;> rfl

/-- The pool keeps the first of the errors recorded since a flush returned. -/
theorem Runs.firstError_eq (h : Runs run group (start workers state) log c) :
    c.staffed.pool.firstError = (errors (sinceFlush log)).head? := by
  refine Runs.induct (I := fun log o => o.firstError = (errors (sinceFlush log)).head?) rfl ?_ h
  intro log e o o' _ hi hs
  have hgrows : e.endsFlush = false → (errors (sinceFlush (log ++ [e]))).head? =
      o.firstError.or (e.record?.bind Prod.snd) := by
    intro hends
    rw [sinceFlush_concat hends, errors_append, errors_singleton, List.head?_append, hi,
      Option.head?_toList]
  cases hs with
  | flushEnded hstage hend =>
    rw [sinceFlush_flushEnded]
    rfl
  | recorded hhand => exact (hgrows rfl).symm
  | _ => exact (Option.or_none.symm.trans (hgrows rfl).symm)

/-! ## The state and the counters -/

/-- Some tasks, run one after the other, lead from one state to another and have these errors. -/
def Replays (run : τ → Act σ Unit) : σ → List (τ × Option StorageError) → σ → Prop
  | s, [], s' => s' = s
  | s, (t, error) :: rs, s' => (attempt (run t) s).1 = error ∧ Replays run (attempt (run t) s).2 rs s'

/-- Tasks are run one after the other. -/
theorem Replays.append {rs rs' : List (τ × Option StorageError)} {s s' s'' : σ}
    (h : Replays run s rs s') (h' : Replays run s' rs' s'') : Replays run s (rs ++ rs') s'' := by
  induction rs generalizing s with
  | nil =>
    cases h
    exact h'
  | cons r rs ih => exact ⟨h.1, ih h.2⟩

/-- The log tells how a crew came from one state and its counters to another. -/
structure Accounts (run : τ → Act σ Unit) (s : Staffed τ σ) (log : List (Entry τ)) (s' : Staffed τ σ) :
    Prop where
  state : Replays run s.state (ran log) s'.state
  submitted : s'.pool.submitted = s.pool.submitted + (submissions log).length
  completed : s'.pool.completed = s.pool.completed + (recorded log).length
  failed : s'.pool.failed = s.pool.failed + (errors log).length

namespace Accounts

variable {s s' s'' : Staffed τ σ} {log' : List (Entry τ)} {turn : Turn τ} {c' : Crew τ σ}

/-- What two logs account for is accounted for by both together. -/
theorem trans (h : Accounts run s log s') (h' : Accounts run s' log' s'') :
    Accounts run s (log ++ log') s'' where
  state := by
    rw [ran_append]
    exact h.state.append h'.state
  submitted := by rw [h'.submitted, h.submitted, submissions_append, List.length_append, Nat.add_assoc]
  completed := by rw [h'.completed, h.completed, recorded_append, List.length_append, Nat.add_assoc]
  failed := by rw [h'.failed, h.failed, errors_append, List.length_append, Nat.add_assoc]

/-- A submission is counted, and the state stays. -/
theorem of_submit {t : τ} (h : submit group t c = some (e, c')) :
    Accounts run c.staffed [e] c'.staffed := by
  rw [submit, Staffed.defer] at h
  split at h
  · split at h
    · rename_i hdefer
      split at hdefer
      · cases hdefer
        cases h
        exact ⟨rfl, rfl, rfl, rfl⟩
      · cases hdefer
    · rename_i hdefer
      split at hdefer
      · cases hdefer
      · -- a crew that is closed takes no task
        cases hdefer
        cases h
        exact ⟨rfl, rfl, rfl, rfl⟩
  · cases h

/-- A task that is run changes the state and is counted; what else a worker does leaves the state as it is. -/
theorem of_work {i : Nat} (h : c.work run i = some (e, c')) :
    Accounts run c.staffed [e] c'.staffed := by
  rw [work] at h
  split at h
  · split at h
    · cases h
    · rename_i job rest hqueue
      cases h
      cases job <;> exact ⟨rfl, rfl, rfl, rfl⟩
  · -- the task is run: here the state changes
    cases h
    exact ⟨⟨rfl, rfl⟩, rfl, rfl, rfl⟩
  · rename_i t error hhand
    cases h
    cases error <;> exact ⟨rfl, rfl, rfl, rfl⟩
  · cases h
    exact ⟨rfl, rfl, rfl, rfl⟩

/-- A flush touches neither the state nor the counters. -/
theorem of_flush (h : c.flush = some (e, c')) : Accounts run c.staffed [e] c'.staffed := by
  rw [flush] at h
  split at h
  · cases h
    exact ⟨rfl, rfl, rfl, rfl⟩
  · split at h
    · split at h
      · cases h
        exact ⟨rfl, rfl, rfl, rfl⟩
      · cases h
    · split at h
      · dsimp only at h
        split at h
        · cases h
          exact ⟨rfl, rfl, rfl, rfl⟩
        · cases h
      · cases h
        exact ⟨rfl, rfl, rfl, rfl⟩

/-- Each turn does with the state and the counters what its entry says. -/
theorem of_next (h : next run group turn c = some (e, c')) : Accounts run c.staffed [e] c'.staffed := by
  cases turn with
  | submit t => exact of_submit h
  | work i => exact of_work h
  | flush => exact of_flush h

end Accounts

/-- The state of a crew is what the tasks that have run make of it, and the counters go with the log. -/
theorem Runs.accounts {c' : Crew τ σ} (h : Runs run group c log c') :
    Accounts run c.staffed log c'.staffed := by
  induction h with
  | rest => exact ⟨rfl, rfl, rfl, rfl⟩
  | turn _ hnext ih => exact ih.trans (.of_next hnext)

end Crew

end EventIndex
