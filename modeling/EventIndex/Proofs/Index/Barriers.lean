import EventIndex.Proofs.Index.CrewOrder

/-! # Flushes of a crew

A flush waits for the answers to its barriers. A barrier is first in a queue, then in the hand of the
worker, and at last an answer that is not heard yet; these are the *tokens* of a desk. While a flush
raises barriers and hears answers, there is one token on each desk whose barrier is raised and whose
answer is not heard, and none elsewhere (`Attended.tokens`).

Whatever was submitted before the flush began stands before the barrier, and is done when the barrier has
left the queue (`Attended.covers`). When the flush returns, no token is left (`Runs.flush_waits`).

Main results:

* `Attended.step`, `Runs.attended`: each turn, and so each run, leaves the workers as a flush expects
  them.
* `Runs.flush_waits`: what is done when a flush returns.
* `Runs.flush_reports`, `Runs.flush_tells`: which error it hands out.
-/

namespace EventIndex

/-- Whether a job is a barrier. -/
def Job.isBarrier {τ : Type} : Job τ → Bool
  | .task _ => false
  | .barrier => true

namespace Crew

variable {τ σ : Type} {run : τ → Act σ Unit} {group : τ → Nat} {c : Crew τ σ}
  {log before : List (Entry τ)} {e : Entry τ} {i j n g workers : Nat} {state : σ} {o o' : Outline τ}
  {d d' : Desk τ} {ts us : List τ}

/-! ## What a flush waits for -/

/-- Some tasks begin with all that a worker was given before some flush began. -/
def Covers (group : τ → Nat) (log : List (Entry τ)) (n i : Nat) (ts : List τ) : Prop :=
  ∀ before, before ++ [.flushBegan] <+: log → (submissions before).filter (assigned group n i) <+: ts

theorem Covers.mono (h : Covers group log n i ts) (hts : ts <+: us) : Covers group log n i us :=
  fun before hbefore => (h before hbefore).trans hts

theorem Covers.concat (h : Covers group log n i ts) (he : e ≠ .flushBegan) :
    Covers group (log ++ [e]) n i ts := by
  intro before hbefore
  rcases List.prefix_concat_iff.mp hbefore with heq | hbefore
  · have hlast := (List.append_inj' heq rfl).2
    exact absurd (List.singleton_inj.mp hlast).symm he
  · exact h before hbefore

/-- Nothing was submitted before a flush that has not been submitted. -/
theorem covers_submissions (group : τ → Nat) (log : List (Entry τ)) (n i : Nat) :
    Covers group log n i ((submissions log).filter (assigned group n i)) := by
  intro before hbefore
  exact (((List.prefix_append _ _).trans hbefore).filterMap _).filter _

/-- The tasks before the first barrier in some jobs, if there is one. -/
def ahead : List (Job τ) → Option (List τ)
  | [] => none
  | .barrier :: _ => some []
  | .task t :: jobs => (ahead jobs).map (t :: ·)

/-- The first barrier of two parts is that of the first part, if there is one. -/
theorem ahead_append (jobs jobs' : List (Job τ)) :
    ahead (jobs ++ jobs') = (ahead jobs).or ((ahead jobs').map (tasksIn jobs ++ ·)) := by
  induction jobs with
  | nil => simp [ahead, tasksIn]
  | cons job jobs ih =>
    cases job with
    | barrier => rfl
    | task t =>
      rw [List.cons_append, ahead, ahead, ih, Option.map_or, Option.map_map]
      rfl

/-- Where there is no barrier nothing is ahead of it. -/
theorem ahead_eq_none {jobs : List (Job τ)} (h : jobs.countP Job.isBarrier = 0) : ahead jobs = none := by
  induction jobs with
  | nil => rfl
  | cons job jobs ih =>
    cases job with
    | barrier => simp [Job.isBarrier] at h
    | task t =>
      rw [ahead, ih (by simpa [Job.isBarrier] using h)]
      rfl

/-- The tasks of a worker that are done. -/
def finished (group : τ → Nat) (log : List (Entry τ)) (n i : Nat) : List τ :=
  ((recorded log).filter fun r => assigned group n i r.1).map Prod.fst

/-- The tasks of a worker that are done when there is no barrier in its queue: those before the barrier,
or those that are done already. -/
def promised (group : τ → Nat) (log : List (Entry τ)) (n i : Nat) (jobs : List (Job τ)) : List τ :=
  match ahead jobs with
  | some ts => (taken log).filter (assigned group n i) ++ ts
  | none => finished group log n i

/-- What is finished stays finished. -/
theorem finished_concat (group : τ → Nat) (log : List (Entry τ)) (e : Entry τ) (n i : Nat) :
    finished group log n i <+: finished group (log ++ [e]) n i := by
  rw [finished, finished, recorded_append]
  exact ((List.prefix_append _ _).filter _).map _

/-- What is promised stays promised while the worker takes nothing and no barrier comes first. -/
theorem promised_concat {jobs jobs' : List (Job τ)} (hahead : ahead jobs' = ahead jobs)
    (htake : ∀ t ∈ e.taking?, assigned group n i t = false) :
    promised group log n i jobs <+: promised group (log ++ [e]) n i jobs' := by
  have htaken : (taken (log ++ [e])).filter (assigned group n i) =
      (taken log).filter (assigned group n i) := by
    rw [taken_append, taken_singleton, List.filter_append, List.append_right_eq_self,
      List.filter_eq_nil_iff]
    intro t ht
    rw [htake t (Option.mem_toList.mp ht)]
    exact Bool.false_ne_true
  rw [promised, promised, hahead, htaken]
  split
  · exact List.prefix_rfl
  · exact finished_concat _ _ _ _ _

/-- A task that was promised is promised when the worker has taken it. -/
theorem promised_task {jobs : List (Job τ)} (ht : assigned group n i t = true) :
    promised group log n i (.task t :: jobs) <+: promised group (log ++ [.took j (.task t)]) n i jobs := by
  have htaken : (taken (log ++ [.took j (.task t)])).filter (assigned group n i) =
      (taken log).filter (assigned group n i) ++ [t] := by
    simp [Entry.taking?, ht]
  rw [promised, promised, ahead, htaken]
  cases ahead jobs with
  | none => exact finished_concat _ _ _ _ _
  | some ts =>
    show _ ++ t :: ts <+: _ ++ [t] ++ ts
    rw [List.append_assoc]
    exact List.prefix_rfl

/-- When a worker takes a barrier, it is done with all that came before. -/
theorem promised_barrier {jobs : List (Job τ)} (h : InOrder group log o i)
    (hhand : (o.desk i).hand = .free) (hjobs : jobs.countP Job.isBarrier = 0) :
    promised group log o.size i (.barrier :: jobs) <+:
      promised group (log ++ [.took j .barrier]) o.size i jobs := by
  have htaken : (taken log).filter (assigned group o.size i) = finished group log o.size i := by
    rw [h.held, h.unrecorded, hhand]
    simp only [Hand.unrun, Hand.unrecorded, List.append_nil, finished]
  rw [promised, promised, ahead_eq_none hjobs, ahead, htaken]
  show _ ++ [] <+: _
  rw [List.append_nil]
  exact finished_concat _ _ _ _ _

/-- A new barrier promises all that was submitted. -/
theorem promised_raised {jobs : List (Job τ)} (h : InOrder group log o i)
    (hjobs : (o.desk i).queue = jobs) (hcount : jobs.countP Job.isBarrier = 0) :
    promised group (log ++ [.raised j]) o.size i (jobs ++ [.barrier]) =
      (submissions log).filter (assigned group o.size i) := by
  rw [promised, ahead_append, ahead_eq_none hcount, Option.none_or, ahead, Option.map_some,
    List.append_nil, taken_append, taken_singleton, h.waiting, hjobs]
  show List.filter _ (taken log ++ []) ++ _ = _
  rw [List.append_nil]

def Hand.isAnswering : Hand τ → Bool
  | answering => true
  | _ => false

/-- The barriers and answers on a desk. -/
def Desk.tokens (d : Desk τ) : Nat :=
  d.queue.countP Job.isBarrier + d.hand.isAnswering.toNat + d.answered.toNat

/-- The tokens that belong on the desk of a worker, of so many. -/
def due (n i : Nat) : Option Nat → Nat
  | none => 0
  | some k => if i < k ∧ k ≤ n + i then 1 else 0

theorem due_le_one (n i : Nat) (flushing : Option Nat) : due n i flushing ≤ 1 := by
  unfold due
  split
  · exact Nat.zero_le 1
  · split <;> decide

/-- While a flush turns from one worker to the next, the others keep their tokens. -/
theorem due_succ {k : Nat} (hi : i ≠ k) (hi' : n + i ≠ k) : due n i (some (k + 1)) = due n i (some k) := by
  have hlt : i < k + 1 ↔ i < k := by omega
  have hle : k + 1 ≤ n + i ↔ k ≤ n + i := by omega
  simp only [due, hlt, hle]

/-- A worker as a flush expects it. -/
structure Attended (group : τ → Nat) (log : List (Entry τ)) (o : Outline τ) (i : Nat) : Prop where
  tokens : (o.desk i).tokens = due o.size i o.flushing
  covers : ∀ k, o.flushing = some k → i < k →
    Covers group log o.size i (promised group log o.size i (o.desk i).queue)

namespace Attended

/-- A turn keeps its promises to a flush that has come to a worker. -/
theorem of_promised (h : Attended group log o i) (he : e ≠ .flushBegan) (hsize : o'.size = o.size)
    (htokens : (o'.desk i).tokens = due o.size i o'.flushing)
    (hflushing : ∀ k', o'.flushing = some k' → i < k' → ∃ k, o.flushing = some k ∧ i < k)
    (hpromised : promised group log o.size i (o.desk i).queue <+:
      promised group (log ++ [e]) o.size i (o'.desk i).queue) :
    Attended group (log ++ [e]) o' i where
  tokens := by rw [htokens, hsize]
  covers := by
    intro k' hk' hlt'
    obtain ⟨k, hk, hlt⟩ := hflushing k' hk' hlt'
    rw [hsize]
    exact ((h.covers k hk hlt).concat he).mono hpromised

/-- A turn of somebody else is no concern of a worker. -/
theorem of_frame (h : Attended group log o i) (he : e ≠ .flushBegan) (hsize : o'.size = o.size)
    (hdesk : o'.desk i = o.desk i) (hflushing : o'.flushing = o.flushing)
    (htake : ∀ t ∈ e.taking?, assigned group o.size i t = false) :
    Attended group (log ++ [e]) o' i := by
  refine h.of_promised he hsize ?_ ?_ ?_
  · rw [hdesk, h.tokens, hflushing]
  · rw [hflushing]
    exact fun k hk hlt => ⟨k, hk, hlt⟩
  · rw [hdesk]
    exact promised_concat rfl htake

/-- A worker may go on with what it has in hand, as long as no token gets lost. -/
theorem of_same_queue (h : Attended group log o j) (he : e ≠ .flushBegan) (htaking : e.taking? = none)
    (hsize : o'.size = o.size) (hdesk : ∀ j, o'.desk j = if j = i then d else o.desk j)
    (hqueue : d.queue = (o.desk i).queue) (hflushing : o'.flushing = o.flushing)
    (htokens : j = i → d.tokens = (o.desk i).tokens) : Attended group (log ++ [e]) o' j := by
  refine h.of_promised he hsize ?_ ?_ (promised_concat ?_ (by simp [htaking]))
  · rw [hflushing, ← h.tokens, hdesk]
    split
    · rename_i hji
      rw [htokens hji, hji]
    · rfl
  · rw [hflushing]
    exact fun k hk hlt => ⟨k, hk, hlt⟩
  · rw [hdesk]
    split
    · rename_i hji
      rw [hqueue, hji]
    · rfl

/-- A flush that turns to the next worker is no concern of the others. -/
theorem of_turning {k : Nat} (h : Attended group log o i) (he : e ≠ .flushBegan)
    (htaking : e.taking? = none) (hsize : o'.size = o.size) (hdesk : o'.desk i = o.desk i)
    (hstage : o.flushing = some k) (hstage' : o'.flushing = some (k + 1)) (hi : i ≠ k)
    (hi' : o.size + i ≠ k) : Attended group (log ++ [e]) o' i := by
  refine h.of_promised he hsize ?_ ?_ ?_
  · rw [hdesk, h.tokens, hstage, hstage', due_succ hi hi']
  · intro k' hk' hlt
    rw [hstage', Option.some.injEq] at hk'
    exact ⟨k, hstage, by omega⟩
  · rw [hdesk]
    exact promised_concat rfl (by simp [htaking])

attribute [local simp] Entry.taking? Job.isBarrier Hand.isAnswering Desk.tokens List.countP_cons

/-- A worker takes the job that comes first in its queue. If it is a barrier, its token goes from the queue to
the hand. -/
theorem took {job : Job τ} {rest : List (Job τ)} (hin : InOrder group log o i)
    (h : Attended group log o i) (hhand : (o.desk i).hand = .free)
    (hqueue : (o.desk i).queue = job :: rest) :
    Attended group (log ++ [.took i job])
      (o.lay i { o.desk i with queue := rest, hand := handOf job }) i := by
  have htokens := h.tokens
  have hle := due_le_one o.size i o.flushing
  have hnew : (o.lay i { o.desk i with queue := rest, hand := handOf job }).desk i =
      { o.desk i with queue := rest, hand := handOf job } := if_pos rfl
  refine h.of_promised (by simp) rfl ?_ (fun k hk hlt => ⟨k, hk, hlt⟩) ?_
  · cases job <;> simpa [hqueue, hhand, handOf] using htokens
  · rw [hnew, hqueue]
    cases job with
    | task t => exact promised_task (hin.assigned_of_queue (by simp [hqueue]))
    | barrier =>
      -- there is one barrier at most, so that none is left in the queue
      refine promised_barrier hin hhand ?_
      simp [hqueue] at htokens
      omega

/-- A worker answers. It had no answer lying there, for there would be two tokens. -/
theorem answering (h : Attended group log o i) (hhand : (o.desk i).hand = .answering) :
    { o.desk i with hand := .free, answered := true : Desk τ }.tokens = (o.desk i).tokens := by
  have htokens := h.tokens
  have hle := due_le_one o.size i o.flushing
  simp [hhand] at htokens ⊢
  cases hanswer : (o.desk i).answered with
  | false => rfl
  | true =>
    simp [hanswer] at htokens
    omega

/-- A flush puts its barrier on a desk that has no token, behind all that was submitted. -/
theorem raised (hin : InOrder group log o i) (h : Attended group log o i) (hlt : i < o.size)
    (hstage : o.flushing = some i) :
    Attended group (log ++ [.raised i])
      { o.lay i { o.desk i with queue := (o.desk i).queue ++ [.barrier] } with
        flushing := some (i + 1) } i := by
  have hnone : (o.desk i).tokens = 0 := by
    rw [h.tokens, hstage, due, if_neg (fun h => Nat.lt_irrefl i h.1)]
  have hcount : (o.desk i).queue.countP Job.isBarrier = 0 := by
    simp at hnone
    simpa using hnone.1.1
  constructor
  · have hdue : due o.size i (some (i + 1)) = 1 := if_pos ⟨Nat.lt_succ_self i, by omega⟩
    show Desk.tokens (if i = i then _ else _) = due o.size i (some (i + 1))
    rw [if_pos rfl, hdue, ← Nat.zero_add 1, ← hnone]
    simp [Nat.add_right_comm]
  · intro k hk hlt'
    show Covers group _ o.size i (promised group _ o.size i (ite (i = i) _ _ : Desk τ).queue)
    rw [if_pos rfl, promised_raised hin rfl hcount]
    exact (covers_submissions group log o.size i).concat (by simp)

/-- A flush hears the answer of a worker, and no token is left on the desk. -/
theorem heard (h : Attended group log o i) (hlt : i < o.size)
    (hstage : o.flushing = some (o.size + i)) (hanswered : (o.desk i).answered = true) :
    Attended group (log ++ [.heard i])
      { o.lay i { o.desk i with answered := false } with flushing := some (o.size + i + 1) } i := by
  have hdue : due o.size i (some (o.size + i)) = 1 := if_pos ⟨by omega, Nat.le_refl _⟩
  have hdue' : due o.size i (some (o.size + i + 1)) = 0 := if_neg (by omega)
  refine h.of_promised (by simp) rfl ?_ ?_ (promised_concat (by simp) (by simp))
  · have htokens := h.tokens
    rw [hstage, hdue, Desk.tokens, hanswered, Bool.toNat_true, Nat.add_eq_right] at htokens
    show Desk.tokens (if i = i then _ else _) = due o.size i (some (o.size + i + 1))
    rw [if_pos rfl, hdue']
    exact htokens
  · exact fun k' hk' _ => ⟨_, hstage, by omega⟩

/-- Every turn leaves the workers as a flush expects them. -/
theorem step (hin : ∀ i, InOrder group log o i) (h : ∀ i < o.size, Attended group log o i)
    (hs : Step group o e o') (hj : j < o.size) : Attended group (log ++ [e]) o' j := by
  have hatt := h j hj
  have htokens := hatt.tokens
  cases hs with
  | @submitted t hroom =>
    refine hatt.of_promised (by simp) rfl ?_ (fun k hk hlt => ⟨k, hk, hlt⟩) (promised_concat ?_ (by simp))
    · by_cases hji : j = group t % o.size <;> simpa [hji] using htokens
    · by_cases hji : j = group t % o.size
      · simp [hji, ahead_append, ahead]
      · simp [hji]
  | @took i job rest hlt hhand hqueue =>
    by_cases hji : j = i
    · subst hji
      exact hatt.took (hin j) hhand hqueue
    · refine hatt.of_frame (by simp) rfl (by simp [hji]) rfl ?_
      cases job with
      | barrier => simp
      | task t =>
        have ht := (hin i).assigned_of_queue (t := t) (by simp [hqueue])
        simp [InOrder.not_assigned ht hji]
  | @ran i t error hhand =>
    refine hatt.of_same_queue (by simp) rfl rfl (fun _ => rfl) rfl rfl fun _ => ?_
    simp [hhand]
  | @recorded i t error hhand =>
    refine hatt.of_same_queue (by simp) rfl rfl (fun _ => rfl) rfl rfl fun _ => ?_
    simp [hhand]
  | @answered i hhand =>
    refine hatt.of_same_queue (by simp) rfl rfl (fun _ => rfl) rfl rfl fun hji => ?_
    subst hji
    exact hatt.answering hhand
  | flushBegan hstage =>
    -- nothing is expected of anybody until a barrier is raised
    constructor
    · rw [hstage] at htokens
      exact htokens
    · intro k hk hlt
      cases hk
      exact absurd hlt (Nat.not_lt_zero j)
  | @raised i hstage hlt hroom =>
    by_cases hji : j = i
    · subst hji
      exact hatt.raised (hin j) hlt hstage
    · exact hatt.of_turning (by simp) rfl rfl (if_neg hji) hstage rfl hji (by omega)
  | @heard i hstage hlt hanswered =>
    by_cases hji : j = i
    · subst hji
      exact hatt.heard hlt hstage hanswered
    · exact hatt.of_turning (by simp) rfl rfl (if_neg hji) hstage rfl (by omega) (by omega)
  | @flushEnded k hstage hend =>
    -- all answers are heard, and nothing is expected any more
    refine hatt.of_promised (by simp) rfl ?_ ?_ (promised_concat rfl (by simp))
    · rw [hstage, due, if_neg (by omega)] at htokens
      exact htokens
    · intro k' hk'
      cases hk'

end Attended

namespace Runs

/-- Whatever the order of the turns, a flush finds the workers as it expects them. -/
theorem attended (h : Runs run group (start workers state) log c) (hi : i < c.size) :
    Attended group log c.outline i := by
  refine (Runs.induct (I := fun log o => (∀ i, InOrder group log o i) ∧
    ∀ i < o.size, Attended group log o i) ?_ ?_ h).2 i hi
  · refine ⟨inOrder_start group workers state, fun i _ => ⟨?_, fun k hk => nomatch hk⟩⟩
    show ((start workers state : Crew τ σ).queue i).countP Job.isBarrier + 0 + 0 = 0
    rw [queue_start]
    rfl
  · rintro log e o o' - ⟨hin, hatt⟩ hs
    refine ⟨InOrder.step hin hs, fun i hi => Attended.step hin hatt hs ?_⟩
    rwa [← hs.size_eq]

/-! ## When a flush returns -/

variable {error : Option StorageError}

/-- When a flush returns, all that was submitted before a flush began is done. -/
theorem flush_waits (h : Runs run group (start workers state) (log ++ [.flushEnded error]) c)
    (hbegan : before ++ [.flushBegan] <+: log) (g : Nat) :
    submittedOf group g before <+: (recordedOf group g log).map Prod.fst := by
  obtain ⟨turn, c₁, hruns, hnext⟩ := h.of_concat
  have hlt : g % c₁.size < c₁.size := Nat.mod_lt _ hruns.size_pos
  have hatt := hruns.attended hlt
  obtain ⟨k, hstage, hend, -⟩ := (step_of_next hruns.size_pos hnext).of_flushEnded
  have hend' : 2 * c₁.size ≤ k := hend
  -- no token is left, so that the worker is done with what the flush waits for
  have htokens := hatt.tokens
  rw [hstage, due, if_neg (by show ¬ (_ ∧ k ≤ c₁.size + _); omega), Desk.tokens] at htokens
  have hcovers := hatt.covers k hstage (by omega)
  rw [promised, ahead_eq_none (by omega)] at hcovers
  have hpart := (hcovers before hbegan).filter fun t => decide (group t = g)
  have hdone : (finished group log c₁.outline.size (g % c₁.size)).filter (fun t => decide (group t = g)) =
      (recordedOf group g log).map Prod.fst := by
    rw [finished, List.filter_map]
    exact congrArg (List.map Prod.fst) (filter_assigned Prod.fst (recorded log))
  rwa [hdone, show c₁.outline.size = c₁.size from rfl, filter_assigned_tasks] at hpart

/-- A flush hands out the first error recorded since the last one returned. -/
theorem flush_reports (h : Runs run group (start workers state) (log ++ [.flushEnded error]) c) :
    error = (errors (sinceFlush log)).head? := by
  obtain ⟨turn, c₁, hruns, hnext⟩ := h.of_concat
  obtain ⟨-, -, -, herror⟩ := (step_of_next hruns.size_pos hnext).of_flushEnded
  exact herror.trans hruns.firstError_eq

/-- A task that fails after the last flush, and that was submitted before this flush began, does not go
unnoticed. Of its group, no more tasks ran before it than were submitted before the flush. -/
theorem flush_tells {ranBefore ranAfter : List (Entry τ)} {t : τ} {e : StorageError}
    (h : Runs run group (start workers state) (log ++ [.flushEnded error]) c)
    (hbegan : before ++ [.flushBegan] <+: log) (hran : log = ranBefore ++ .ran i t (some e) :: ranAfter)
    (hsince : ∀ entry ∈ ranAfter, entry.endsFlush = false)
    (hcovered : (ranOf group (group t) ranBefore).length <
      (submittedOf group (group t) before).length) :
    ∃ first, error = some first := by
  obtain ⟨-, _, hruns, -⟩ := h.of_concat
  -- the flush has waited for the task
  have hwaited := (h.flush_waits hbegan (group t)).length_le
  rw [List.length_map] at hwaited
  have hnew : (t, some e) ∈ recorded ranAfter := hruns.recorded_after hran (by omega)
  have herror : e ∈ errors (sinceFlush log) := by
    rw [hran, List.append_cons]
    exact mem_errors_sinceFlush hnew hsince
  rw [h.flush_reports]
  cases hall : errors (sinceFlush log) with
  | nil => simp [hall] at herror
  | cons first _ => exact ⟨first, rfl⟩

end Runs

end Crew

end EventIndex
