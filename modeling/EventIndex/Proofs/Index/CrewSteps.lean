import Mathlib.Data.List.DropRight
import EventIndex.Index.Crew

/-! # The turns of a crew

`Step` says what a turn can do, with one case for each entry of the log, and `Runs` says that a crew
takes some turns and what its log is then. A property of the log and the crew that every step keeps holds
whatever order the turns come in (`Runs.induct`).

The log tells which tasks were submitted, taken, run and recorded, each in order.

An `Outline` leaves out the state that the tasks work on, so the steps are the same for every kind of
task, and a proof about the order of things need not know what running one does.

* `step_of_next`: whatever turn is taken, what happens is one of the steps.
* `Runs.induct`: what holds at the start and is kept by each step holds after every run.
* `submissions`, `taken`, `ran`, `recorded`: the tasks of a log at the four moments of their life.
* `sinceFlush`, `errors`: the part of a log behind the last flush, and the errors that its tasks ended
  in.
-/

namespace EventIndex

namespace Crew

variable {τ σ : Type}

/-! ## Reading a log -/

namespace Entry

/-- The task that an entry says was submitted. -/
def submission? : Entry τ → Option τ
  | submitted t => some t
  | _ => none

/-- The task that an entry says was taken from its queue. -/
def taking? : Entry τ → Option τ
  | took _ (.task t) => some t
  | _ => none

/-- The task that an entry says was run, with the error it ended in. -/
def running? : Entry τ → Option (τ × Option StorageError)
  | ran _ t error => some (t, error)
  | _ => none

/-- The task whose outcome an entry says was recorded, with the error. -/
def record? : Entry τ → Option (τ × Option StorageError)
  | recorded _ t error => some (t, error)
  | _ => none

/-- The task that an entry is about. -/
def task? : Entry τ → Option τ
  | submitted t => some t
  | took _ (.task t) => some t
  | ran _ t _ => some t
  | recorded _ t _ => some t
  | _ => none

/-- Whether a flush returns. -/
def endsFlush : Entry τ → Bool
  | flushEnded _ => true
  | _ => false

end Entry

section Log

variable {log : List (Entry τ)} {e : Entry τ}

/-- The submitted tasks. -/
def submissions (log : List (Entry τ)) : List τ := log.filterMap Entry.submission?

/-- The tasks that workers have taken. -/
def taken (log : List (Entry τ)) : List τ := log.filterMap Entry.taking?

/-- The tasks that have run, with their errors. -/
def ran (log : List (Entry τ)) : List (τ × Option StorageError) := log.filterMap Entry.running?

/-- The tasks whose result is recorded, with their errors. -/
def recorded (log : List (Entry τ)) : List (τ × Option StorageError) := log.filterMap Entry.record?

/-- What came after the last return of a flush. -/
def sinceFlush (log : List (Entry τ)) : List (Entry τ) := log.rtakeWhile fun e => !e.endsFlush

/-- The errors that are recorded in a log. -/
def errors (log : List (Entry τ)) : List StorageError := (recorded log).filterMap Prod.snd

@[simp] theorem submissions_append (log log' : List (Entry τ)) :
    submissions (log ++ log') = submissions log ++ submissions log' := List.filterMap_append

@[simp] theorem taken_append (log log' : List (Entry τ)) :
    taken (log ++ log') = taken log ++ taken log' := List.filterMap_append

@[simp] theorem ran_append (log log' : List (Entry τ)) : ran (log ++ log') = ran log ++ ran log' :=
  List.filterMap_append

@[simp] theorem recorded_append (log log' : List (Entry τ)) :
    recorded (log ++ log') = recorded log ++ recorded log' := List.filterMap_append

/-- A view of one entry is what the entry shows, if it shows anything. -/
theorem filterMap_singleton {α : Type} (view : Entry τ → Option α) (e : Entry τ) :
    [e].filterMap view = (view e).toList := by
  rw [List.filterMap_cons]
  cases view e <;> rfl

@[simp] theorem submissions_singleton (e : Entry τ) : submissions [e] = e.submission?.toList :=
  filterMap_singleton _ e

@[simp] theorem taken_singleton (e : Entry τ) : taken [e] = e.taking?.toList := filterMap_singleton _ e

@[simp] theorem ran_singleton (e : Entry τ) : ran [e] = e.running?.toList := filterMap_singleton _ e

@[simp] theorem recorded_singleton (e : Entry τ) : recorded [e] = e.record?.toList :=
  filterMap_singleton _ e

/-- An entry that ends no flush is the newest of what happened since the last. -/
theorem sinceFlush_concat (h : e.endsFlush = false) : sinceFlush (log ++ [e]) = sinceFlush log ++ [e] :=
  List.rtakeWhile_concat_pos _ _ _ (by rw [h]; rfl)

/-- Nothing has happened yet since a flush that has just ended. -/
theorem sinceFlush_flushEnded (log : List (Entry τ)) (error : Option StorageError) :
    sinceFlush (log ++ [.flushEnded error]) = [] :=
  List.rtakeWhile_concat_neg _ _ _ Bool.false_ne_true

/-- The errors of a log are those of its parts, the earlier ones first. -/
theorem errors_append (log log' : List (Entry τ)) : errors (log ++ log') = errors log ++ errors log' := by
  rw [errors, recorded_append, List.filterMap_append]
  rfl

/-- Part of a log in which no flush returns comes after the last return. -/
theorem suffix_sinceFlush {before after : List (Entry τ)} (h : ∀ e ∈ after, e.endsFlush = false) :
    after <:+ sinceFlush (before ++ after) := by
  induction after using List.reverseRecOn with
  | nil => exact List.nil_suffix
  | append_singleton after e ih =>
    have hlast := h e (by simp)
    rw [← List.append_assoc, sinceFlush_concat hlast]
    obtain ⟨between, hbetween⟩ := ih fun e he => h e (List.mem_append_left _ he)
    exact ⟨between, by rw [← hbetween, List.append_assoc]⟩

/-- An error that is recorded after the last return of a flush. -/
theorem mem_errors_sinceFlush {before after : List (Entry τ)} {t : τ} {error : StorageError}
    (h : (t, some error) ∈ recorded after) (hafter : ∀ e ∈ after, e.endsFlush = false) :
    error ∈ errors (sinceFlush (before ++ after)) := by
  obtain ⟨earlier, hearlier⟩ := suffix_sinceFlush hafter
  rw [← hearlier, errors_append]
  exact List.mem_append_right _ (List.mem_filterMap.mpr ⟨_, h, rfl⟩)

end Log

/-- The tasks in some jobs. -/
def tasksIn (jobs : List (Job τ)) : List τ :=
  jobs.filterMap fun
    | .task t => some t
    | .barrier => none

@[simp] theorem tasksIn_task (t : τ) (jobs : List (Job τ)) : tasksIn (.task t :: jobs) = t :: tasksIn jobs :=
  rfl

@[simp] theorem tasksIn_barrier (jobs : List (Job τ)) : tasksIn (.barrier :: jobs) = tasksIn jobs := rfl

@[simp] theorem tasksIn_append (jobs jobs' : List (Job τ)) :
    tasksIn (jobs ++ jobs') = tasksIn jobs ++ tasksIn jobs' := List.filterMap_append

namespace Hand

/-- The task in a hand that is still to run. -/
def unrun : Hand τ → List τ
  | holding t => [t]
  | _ => []

/-- The task in a hand whose result is still to be recorded. -/
def unrecorded : Hand τ → List (τ × Option StorageError)
  | reporting t error => [(t, error)]
  | _ => []

end Hand

/-! ## Outlines -/

/-- What a worker has before it. -/
structure Desk (τ : Type) where
  queue : List (Job τ)
  hand : Hand τ
  answered : Bool

/-- A crew without its state and its counters. -/
@[ext]
structure Outline (τ : Type) where
  size : Nat
  desk : Nat → Desk τ
  flushing : Option Nat
  firstError : Option StorageError

/-- The outline with another desk for a worker. -/
def Outline.lay (o : Outline τ) (i : Nat) (d : Desk τ) : Outline τ :=
  { o with desk := fun j => if j = i then d else o.desk j }

@[simp] theorem Outline.desk_lay (o : Outline τ) (i : Nat) (d : Desk τ) (j : Nat) :
    (o.lay i d).desk j = if j = i then d else o.desk j := rfl

@[simp] theorem Outline.size_lay (o : Outline τ) (i : Nat) (d : Desk τ) : (o.lay i d).size = o.size := rfl

@[simp] theorem Outline.flushing_lay (o : Outline τ) (i : Nat) (d : Desk τ) :
    (o.lay i d).flushing = o.flushing := rfl

/-- What of a crew the steps speak of: its desks, its size, the flush under way and the first error. -/
def outline (c : Crew τ σ) : Outline τ where
  size := c.size
  desk i := ⟨c.queue i, c.hand i, c.answered i⟩
  flushing := c.flushing
  firstError := c.staffed.pool.firstError

variable {run : τ → Act σ Unit} {group : τ → Nat} {c c₁ c' c₂ : Crew τ σ} {log log' : List (Entry τ)}
  {e : Entry τ} {i j : Nat} {jobs : List (Job τ)} {job : Job τ} {turn : Turn τ} {o o' : Outline τ}

/-- There is nothing in the queue of a worker that is not there. -/
theorem queue_eq_nil (h : c.size ≤ i) : c.queue i = [] := by
  rw [queue, List.getElem?_eq_none h]
  rfl

/-- Only a worker that is there has a task waiting. -/
theorem lt_size (h : c.queue i ≠ []) : i < c.size := by
  by_contra hle
  exact h (queue_eq_nil (Nat.le_of_not_lt hle))

/-- A crew begins with empty queues. -/
theorem queue_start (workers : Nat) (state : σ) (i : Nat) :
    (start workers state : Crew τ σ).queue i = [] := by
  show ((List.replicate _ [])[i]?).getD [] = _
  rw [List.getElem?_replicate]
  split <;> rfl

/-- Leaving jobs in a queue changes no other queue. -/
theorem queue_leave (h : i < c.size) (j : Nat) :
    (c.onPool (·.leave i jobs)).queue j = if j = i then jobs else c.queue j := by
  show ((c.staffed.pool.queues.set i jobs)[j]?).getD [] = _
  rw [List.getElem?_set]
  split
  · rename_i heq
    rw [if_pos heq.symm, if_pos (show i < c.staffed.pool.queues.length from h)]
    rfl
  · rename_i hne
    rw [if_neg fun heq => hne heq.symm]
    rfl

/-- A job goes to the end of its own queue and to no other. -/
theorem queue_enqueue (h : i < c.size) (j : Nat) :
    (c.onPool (·.enqueue i job)).queue j = if j = i then c.queue i ++ [job] else c.queue j := by
  show ((c.staffed.pool.queues.modify i (· ++ [job]))[j]?).getD [] = _
  rw [List.getElem?_modify]
  split
  · rename_i heq
    subst heq
    rw [if_pos rfl, queue, List.getElem?_eq_getElem h]
    rfl
  · rename_i hne
    rw [if_neg fun heq => hne heq.symm]
    show (id <$> c.staffed.pool.queues[j]?).getD [] = _
    rw [id_map]
    rfl

/-- A crew that agrees with another but for one desk has the other's outline with that desk laid. -/
theorem outline_eq_lay {d : Desk τ} (hsize : c'.size = c.size) (hflushing : c'.flushing = c.flushing)
    (herror : c'.staffed.pool.firstError = c.staffed.pool.firstError)
    (hdesk : ∀ j, c'.outline.desk j = if j = i then d else c.outline.desk j) :
    c'.outline = c.outline.lay i d :=
  Outline.ext hsize (funext hdesk) hflushing herror

/-- A taken job is gone from the queue at one desk, and the rest of the outline stays. -/
theorem outline_leave (h : i < c.size) :
    (c.onPool (·.leave i jobs)).outline = c.outline.lay i { c.outline.desk i with queue := jobs } := by
  refine outline_eq_lay List.length_set rfl rfl fun j => ?_
  show Desk.mk _ _ _ = _
  rw [queue_leave h]
  split
  · rename_i heq
    rw [heq]
    rfl
  · rfl

/-- A new job is at the end of the queue at one desk, and the rest of the outline stays. -/
theorem outline_enqueue (h : i < c.size) :
    (c.onPool (·.enqueue i job)).outline =
      c.outline.lay i { c.outline.desk i with queue := c.queue i ++ [job] } := by
  refine outline_eq_lay (List.length_modify _ _ _) rfl rfl fun j => ?_
  show Desk.mk _ _ _ = _
  rw [queue_enqueue h]
  split
  · rename_i heq
    rw [heq]
    rfl
  · rfl

/-- A worker that takes something into its hand changes its own desk only. -/
theorem outline_grip (c : Crew τ σ) (i : Nat) (h : Hand τ) :
    (c.grip i h).outline = c.outline.lay i { c.outline.desk i with hand := h } := by
  refine outline_eq_lay rfl rfl rfl fun j => ?_
  show Desk.mk _ (if j = i then h else c.hand j) _ = _
  split
  · rename_i heq
    rw [heq]
    rfl
  · rfl

/-- A worker that answers a barrier changes its own desk only. -/
theorem outline_answer (c : Crew τ σ) (i : Nat) (given : Bool) :
    (c.answer i given).outline = c.outline.lay i { c.outline.desk i with answered := given } := by
  refine outline_eq_lay rfl rfl rfl fun j => ?_
  show Desk.mk _ _ (if j = i then given else c.answered j) = _
  split
  · rename_i heq
    rw [heq]
    rfl
  · rfl

theorem outline_withFlush (c : Crew τ σ) (flushing : Option Nat) :
    (c.withFlush flushing).outline = { c.outline with flushing } := rfl

/-- A recorded error is the first one if there was none before. -/
theorem outline_record (c : Crew τ σ) (error : Option StorageError) :
    (c.onPool (·.record error)).outline =
      { c.outline with firstError := c.outline.firstError.or error } := by
  cases error with
  | none =>
    rw [Option.or_none]
    rfl
  | some e =>
    have hfirst : some (c.staffed.pool.firstError.getD e) = c.outline.firstError.or (some e) := by
      show _ = c.staffed.pool.firstError.or (some e)
      cases c.staffed.pool.firstError <;> rfl
    rw [← hfirst]
    rfl

/-! ## One turn -/

/-- What a turn can do to the outline of a crew that takes tasks. -/
inductive Step (group : τ → Nat) (o : Outline τ) : Entry τ → Outline τ → Prop
  | submitted {t : τ} (hroom : (o.desk (group t % o.size)).queue.length < Pool.queueDepth) :
    Step group o (.submitted t) (o.lay (group t % o.size)
      { o.desk (group t % o.size) with queue := (o.desk (group t % o.size)).queue ++ [.task t] })
  | took {i : Nat} {job : Job τ} {rest : List (Job τ)} (hlt : i < o.size)
    (hhand : (o.desk i).hand = .free) (hqueue : (o.desk i).queue = job :: rest) :
    Step group o (.took i job) (o.lay i { o.desk i with queue := rest, hand := handOf job })
  | ran {i : Nat} {t : τ} (error : Option StorageError) (hhand : (o.desk i).hand = .holding t) :
    Step group o (.ran i t error) (o.lay i { o.desk i with hand := .reporting t error })
  | recorded {i : Nat} {t : τ} {error : Option StorageError}
    (hhand : (o.desk i).hand = .reporting t error) :
    Step group o (.recorded i t error)
      { o.lay i { o.desk i with hand := .free } with firstError := o.firstError.or error }
  | answered {i : Nat} (hhand : (o.desk i).hand = .answering) :
    Step group o (.answered i) (o.lay i { o.desk i with hand := .free, answered := true })
  | flushBegan (hstage : o.flushing = none) :
    Step group o .flushBegan { o with flushing := some 0 }
  | raised {i : Nat} (hstage : o.flushing = some i) (hlt : i < o.size)
    (hroom : (o.desk i).queue.length < Pool.queueDepth) :
    Step group o (.raised i)
      { o.lay i { o.desk i with queue := (o.desk i).queue ++ [.barrier] } with
        flushing := some (i + 1) }
  | heard {i : Nat} (hstage : o.flushing = some (o.size + i)) (hlt : i < o.size)
    (hanswered : (o.desk i).answered = true) :
    Step group o (.heard i)
      { o.lay i { o.desk i with answered := false } with flushing := some (o.size + i + 1) }
  | flushEnded {k : Nat} (hstage : o.flushing = some k) (hend : 2 * o.size ≤ k) :
    Step group o (.flushEnded o.firstError) { o with flushing := none, firstError := none }

/-- Of two changes of one desk the second is seen. -/
theorem Outline.lay_lay (o : Outline τ) (i : Nat) (d d' : Desk τ) :
    (o.lay i d).lay i d' = o.lay i d' := by
  simp only [lay, mk.injEq, true_and, and_true]
  funext j
  split <;> rfl

/-- A pool with a worker takes tasks. -/
theorem isOpen_of_size (h : 0 < c.size) : c.staffed.pool.isOpen = true := by
  rw [Pool.isOpen, Bool.not_eq_true', List.isEmpty_eq_false_iff]
  exact List.length_pos_iff.mp h

/-- Submitting a task is a step, where there is a worker to take it. -/
theorem step_submit {t : τ} (hopen : 0 < c.size) (h : c.submit group t = some (e, c')) :
    Step group c.outline e c'.outline := by
  have hlt : group t % c.size < c.size := Nat.mod_lt _ hopen
  rw [submit] at h
  split at h
  · rename_i hroom
    rw [Staffed.defer, if_pos (isOpen_of_size hopen)] at h
    cases h
    have hstep : Step group c.outline (.submitted t)
        (c.onPool (·.enqueue (group t % c.size) (.task t))).outline := by
      rw [outline_enqueue hlt]
      exact .submitted (of_decide_eq_true hroom)
    -- the counter is not in the outline
    exact hstep
  · cases h

/-- A turn of a worker is a step: what it does depends on what it has in its hand and on its queue. -/
theorem step_work (h : c.work run i = some (e, c')) : Step group c.outline e c'.outline := by
  rw [work] at h
  split at h
  · rename_i hhand
    split at h
    · cases h
    · rename_i job rest hqueue
      cases h
      have hlt : i < c.size := lt_size (by rw [hqueue]; exact List.cons_ne_nil _ _)
      rw [outline_grip, outline_leave hlt, Outline.lay_lay, Outline.desk_lay, if_pos rfl]
      exact .took hlt hhand hqueue
  · rename_i t hhand
    cases h
    rw [outline_grip]
    exact .ran _ hhand
  · rename_i t error hhand
    cases h
    rw [outline_grip, outline_record]
    exact .recorded hhand
  · rename_i hhand
    cases h
    rw [outline_grip, outline_answer, Outline.lay_lay, Outline.desk_lay, if_pos rfl]
    exact .answered hhand

/-- A turn of the flush is a step: it raises the next barrier, hears an answer, or ends. -/
theorem step_flush (h : c.flush = some (e, c')) : Step group c.outline e c'.outline := by
  rw [flush] at h
  split at h
  · rename_i hstage
    cases h
    exact .flushBegan hstage
  · rename_i k hstage
    split at h
    · rename_i hlt
      split at h
      · rename_i hroom
        cases h
        rw [outline_withFlush, outline_enqueue hlt]
        -- there is room in the next queue, and its barrier is raised
        exact .raised hstage hlt (of_decide_eq_true hroom)
      · cases h
    · rename_i hge
      -- all barriers stand, and the answers are heard one after the other
      obtain ⟨i, rfl⟩ := Nat.exists_eq_add_of_le (Nat.le_of_not_lt hge)
      rw [Nat.add_sub_cancel_left] at h
      split at h
      · rename_i hlt
        dsimp only at h
        split at h
        · rename_i hanswered
          cases h
          rw [outline_withFlush, outline_answer]
          exact .heard hstage (by show i < c.size; omega) hanswered
        · cases h
      · rename_i hend
        cases h
        exact .flushEnded hstage (Nat.le_of_not_lt hend)

/-- A turn of a crew that takes tasks. -/
theorem step_of_next (hopen : 0 < c.size) (h : next run group turn c = some (e, c')) :
    Step group c.outline e c'.outline := by
  cases turn with
  | submit t => exact step_submit hopen h
  | work i => exact step_work h
  | flush => exact step_flush h

/-- A flush returns after it has heard all workers. -/
theorem Step.of_flushEnded {error : Option StorageError} (h : Step group o (.flushEnded error) o') :
    ∃ k, o.flushing = some k ∧ 2 * o.size ≤ k ∧ error = o.firstError := by
  cases h with
  | flushEnded hstage hend => exact ⟨_, hstage, hend, rfl⟩

/-- No worker comes or goes. -/
theorem Step.size_eq (h : Step group o e o') : o'.size = o.size := by
  cases h <;> rfl

/-! ## Many turns -/

/-- A crew takes some turns, one after the other, and a log tells which. -/
inductive Runs (run : τ → Act σ Unit) (group : τ → Nat) (c : Crew τ σ) :
    List (Entry τ) → Crew τ σ → Prop
  | rest : Runs run group c [] c
  | turn {turn : Turn τ} {log : List (Entry τ)} {e : Entry τ} {c₁ c₂ : Crew τ σ}
    (h : Runs run group c log c₁) (hnext : next run group turn c₁ = some (e, c₂)) :
    Runs run group c (log ++ [e]) c₂

namespace Runs

/-- A turn that is taken is a run by itself. -/
theorem one (h : next run group turn c = some (e, c')) : Runs run group c [e] c' := .turn .rest h

/-- Runs are put one behind the other, and so are their logs. -/
theorem trans (h : Runs run group c log c₁) (h' : Runs run group c₁ log' c₂) :
    Runs run group c (log ++ log') c₂ := by
  induction h' with
  | rest => rwa [List.append_nil]
  | turn _ hnext ih =>
    rw [← List.append_assoc]
    exact .turn ih hnext

/-- Following a list of turns is a run with the log that it gives. -/
theorem of_follow {turns : List (Turn τ)} (h : follow run group turns c = some (log, c')) :
    Runs run group c log c' := by
  induction turns generalizing c log with
  | nil =>
    cases h
    exact .rest
  | cons turn turns ih =>
    obtain ⟨⟨e, c₁⟩, hnext, h⟩ := Option.bind_eq_some_iff.mp h
    obtain ⟨⟨log', c₂⟩, hrest, h⟩ := Option.bind_eq_some_iff.mp h
    cases h
    exact (Runs.one hnext).trans (ih hrest)

/-- What a log begins with is the log of fewer turns. -/
theorem of_prefix (h : Runs run group c log c₂) {before : List (Entry τ)} (hbefore : before <+: log) :
    ∃ c₁, Runs run group c before c₁ := by
  induction h with
  | rest =>
    rw [List.prefix_nil.mp hbefore]
    exact ⟨c, .rest⟩
  | turn hruns hnext ih =>
    rcases List.prefix_concat_iff.mp hbefore with rfl | hbefore
    · exact ⟨_, .turn hruns hnext⟩
    · exact ih hbefore

/-- The last turn of several. -/
theorem of_concat (h : Runs run group c (log ++ [e]) c₂) :
    ∃ turn c₁, Runs run group c log c₁ ∧ next run group turn c₁ = some (e, c₂) := by
  generalize hlog : log ++ [e] = whole at h
  cases h with
  | rest => exact absurd hlog (by simp)
  | turn hruns hnext =>
    obtain ⟨rfl, hlast⟩ := List.append_inj' hlog rfl
    cases hlast
    exact ⟨_, _, hruns, hnext⟩

/-- What holds of a crew at rest and of its empty log, and is kept by every turn, always holds. -/
theorem induct {I : List (Entry τ) → Outline τ → Prop} {workers : Nat} {state : σ}
    (hstart : I [] (start workers state : Crew τ σ).outline)
    (hstep : ∀ {log e} {o o' : Outline τ}, o.size = max workers 1 → I log o → Step group o e o' →
      I (log ++ [e]) o')
    (h : Runs run group (start workers state) log c) : I log c.outline := by
  have hboth : c.outline.size = max workers 1 ∧ I log c.outline := by
    induction h with
    | rest => exact ⟨List.length_replicate, hstart⟩
    | turn _ hnext ih =>
      obtain ⟨hsize, hi⟩ := ih
      have hopen : 0 < max workers 1 := Nat.lt_of_lt_of_le Nat.zero_lt_one (Nat.le_max_right _ _)
      have hs := step_of_next (hopen.trans_eq hsize.symm) hnext
      exact ⟨hs.size_eq.trans hsize, hstep hsize hi hs⟩
  exact hboth.2

/-- A crew keeps its workers. -/
theorem size_eq {workers : Nat} {state : σ} (h : Runs run group (start workers state) log c) :
    c.size = max workers 1 :=
  induct (I := fun _ o => o.size = max workers 1) List.length_replicate
    (fun _ hi hs => hs.size_eq.trans hi) h

/-- A crew always takes tasks. -/
theorem size_pos {workers : Nat} {state : σ} (h : Runs run group (start workers state) log c) :
    0 < c.size := by
  rw [h.size_eq]
  exact Nat.lt_of_lt_of_le Nat.zero_lt_one (Nat.le_max_right _ _)

/-- No task is refused. -/
theorem not_refused {workers : Nat} {state : σ} (h : Runs run group (start workers state) log c)
    (t : τ) (error : StorageError) : .refused t error ∉ log := by
  refine induct (I := fun log _ => .refused t error ∉ log) List.not_mem_nil ?_ h
  intro log e o o' _ hi hs hmem
  rcases List.mem_append.mp hmem with hmem | hmem
  · exact hi hmem
  · cases List.mem_singleton.mp hmem
    cases hs

end Runs

end Crew

end EventIndex
