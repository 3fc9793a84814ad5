import EventIndex.Proofs.Index.AtWork

/-! # The index does what its ledger does

`next_spec` says that each call keeps an index sound and does to its ledger what the call does to a
ledger; `run_spec` says it of any number of calls.

`strandedAfter` follows the lists that are in memory without being tracked. A batch that fails adds
those that it came to and that were not in memory, and only writing a list out at once takes it away.

The proofs go call by call. For each call a lemma says what it does to a sound index, as a step of the
index and as the same call on its ledger; `next_spec` puts them together, and `run_spec` follows by
induction on the calls.
-/

namespace EventIndex

/-- An event that is accepted is the next one, and its timestamp waits to be appended. -/
theorem Timeline.accept_eq_ok {t t' : Timeline} {time : Timestamp} {id : EventId}
    (h : t.accept time = .ok (id, t')) :
    t.isDisposed = false ∧ t.last.any (time < ·) = false ∧ id = t.nextId ∧
      t' = { t with
        last := some time
        nextId := t.nextId + 1
        pending := t.pending.push (.plain time) } := by
  unfold accept checkLive at h
  cases hlive : t.isDisposed with
  | true => simp [hlive] at h
  | false =>
    cases hlast : t.last.any (time < ·) with
    | true => simp [hlive, hlast] at h
    | false =>
      simp only [hlive, hlast, Bool.false_eq_true, if_false, Except.ok.injEq, Prod.mk.injEq] at h
      exact ⟨rfl, rfl, h.1.symm, h.2.symm⟩

/-- The timestamp of an event is refused if it comes too late. -/
theorem Timeline.error_of_accept {t : Timeline} {time : Timestamp} {e : StorageError}
    (hlive : t.isDisposed = false) (h : t.accept time = .error e) :
    ∃ last, e = .outOfOrder time last := by
  simp only [accept, checkLive, hlive, Bool.false_eq_true, if_false] at h
  split at h
  · exact ⟨_, (Except.error.inj h).symm⟩
  · cases h

namespace Recorder

variable {n : Nat} {r r' r'' : Recorder} {c c' c'' : Contents} {extra extra' extra'' : List OwnerKey}

/-- The lists that a call leaves in memory without being tracked. -/
def strandedAfter (r : Recorder) (b : Book) (stranded : List OwnerKey) : Call n → List OwnerKey
  | .discard set value => stranded.erase ⟨set, value⟩
  | .work worker =>
    match r.intake.pool.queues[worker]? with
    | some (.task t :: _) => r.archive.strandedBy b t ++ stranded
    | _ => stranded
  | _ => stranded

/-- The lists that some calls leave in memory without being tracked. -/
def strandedIn (r : Recorder) (l : Ledger) (stranded : List OwnerKey) :
    List (Call n) → List OwnerKey
  | [] => stranded
  | call :: calls =>
    (r.next call).strandedIn (l.next call) (r.strandedAfter l.book stranded call) calls

/-! ## Steps -/

/-- From one state of an index to the next. -/
structure Step (r r' : Recorder) (n : Nat) (c c' : Contents) (extra : List OwnerKey) : Prop where
  sound : r'.Sound n c' extra
  extends_ : ∀ id v, (c.lists id v).Extends (c'.lists id v)
  stampsExtend : r.archive.stamps.directory.toList <+: r'.archive.stamps.directory.toList ∧
    c.stamps <+: c'.stamps
  capacity_eq : r'.archive.residency.capacity = r.archive.residency.capacity
  pageCapacity_eq : r'.archive.shelf.pages.payloadCapacity = r.archive.shelf.pages.payloadCapacity

/-- A sound index steps to itself. -/
theorem Sound.step_refl (hs : r.Sound n c extra) : Step r r n c c extra :=
  ⟨hs, fun id v => .refl (c.lists id v), ⟨List.prefix_refl _, List.prefix_refl _⟩, rfl, rfl⟩

/-- Two steps are one. -/
theorem Step.trans (h : Step r r' n c c' extra) (h' : Step r' r'' n c' c'' extra') :
    Step r r'' n c c'' extra' where
  sound := h'.sound
  extends_ id v := (h.extends_ id v).trans (h'.extends_ id v)
  stampsExtend :=
    ⟨h.stampsExtend.1.trans h'.stampsExtend.1, h.stampsExtend.2.trans h'.stampsExtend.2⟩
  capacity_eq := h'.capacity_eq.trans h.capacity_eq
  pageCapacity_eq := h'.pageCapacity_eq.trans h.pageCapacity_eq

/-- A step of the archive is one of the index. -/
theorem Step.of_archive {a : Archive} (hs : r.Sound n c extra)
    (hstep : Archive.Step r.archive a c c') (ht : a.Tidy extra') :
    Step r (r.withArchive a) n c c' extra' where
  sound := hs.of_step hstep ht
  extends_ := hstep.extends_
  stampsExtend := hstep.stampsExtend
  capacity_eq := hstep.capacity_eq
  pageCapacity_eq := hstep.pageCapacity_eq

/-- A call, as a step of the index and of its ledger. -/
structure Follows (r r' : Recorder) (n : Nat) (c c' : Contents) (extra : List OwnerKey)
    (l : Ledger) : Prop where
  step : Step r r' n c c' extra
  ledger_eq : r'.ledger c' = l

/-- Replacing pending writes is a step that no page takes part in. -/
theorem Step.withPending {id : SetId} {set : IndexSet} {batch : Batch} (hs : r.Sound n c extra)
    (hset : r.archive.set? id = some set)
    (hfits : ∀ e ∈ batch.entries.toList, set.kind.Holds e.2) :
    Step r (r.withPending id batch) n c c extra where
  sound := hs.withPending hset hfits
  extends_ id v := .refl (c.lists id v)
  stampsExtend := by
    show _ <+: (r.archive.withPending id batch).stamps.directory.toList ∧ _
    rw [Archive.stamps_withPending]
    exact ⟨List.prefix_refl _, List.prefix_refl _⟩
  capacity_eq := congrArg Residency.capacity Archive.residency_withPending
  pageCapacity_eq := congrArg PageFile.payloadCapacity Archive.pages_withPending

/-- Handing a task on is a step that no page takes part in. -/
theorem Step.handed {t : Task} (hs : r.Sound n c extra)
    (hfits : Archive.Fits (r.archive.book c) t) : Step r (r.handed t) n c c extra where
  sound := hs.handed hfits
  extends_ id v := .refl (c.lists id v)
  stampsExtend := by
    rw [archive_handed]
    exact ⟨List.prefix_refl _, List.prefix_refl _⟩
  capacity_eq := by rw [archive_handed]
  pageCapacity_eq := by rw [archive_handed]

/-! ## Writing -/

/-- The pending writes of a set are handed on. -/
theorem handOn_spec (hs : r.Sound n c extra) (id : Fin n) :
    ∃ r', onIntake (Intake.handOn Intake.defer id) r = .ok () r' ∧
      Step r r' n c c extra ∧ r'.ledger c = (r.ledger c).handOn id := by
  obtain ⟨set, hset⟩ := hs.set? id
  have hstep : Step r (r.withPending id set.pending.cleared) n c c extra :=
    .withPending hs hset (by simp [Batch.cleared])
  have hfits : Archive.Fits ((r.withPending id set.pending.cleared).archive.book c)
      (.batch id set.pending.entries.toList) := by
    intro k hk e he
    have hbook : (r.withPending id set.pending.cleared).archive.book c = r.archive.book c :=
      Archive.book_withPending
    rw [hbook] at hk
    have hkind : set.kind = k := by simpa [Archive.book, hset] using hk
    exact hkind ▸ hs.pending id set hset e he
  refine ⟨_, handOn_eq hs hset, hstep.trans (.handed hstep.sound hfits), ?_⟩
  have hpending : (r.ledger c).pending id = set.pending := by simp [ledger, hset]
  rw [ledger_handed, ledger_withPending hset, Ledger.handOn, hpending]

/-- A write joins the pending ones of its set. -/
theorem push_spec (hs : r.Sound n c extra) (id : Fin n) (value : ValueId) {t : Tuple}
    (ht : (((r.ledger c).book.kind? id).getD .plain).Holds t) :
    ∃ r', onIntake (Intake.pushVia Intake.defer id value t) r = .ok () r' ∧
      Step r r' n c c extra ∧ r'.ledger c = (r.ledger c).push id value t := by
  obtain ⟨set, hset⟩ := hs.set? id
  have hkind : (r.ledger c).book.kind? id = some set.kind := by
    simp [Ledger.book, ledger, Archive.book, hset]
  have hpending : (r.ledger c).pending id = set.pending := by simp [ledger, hset]
  rw [hkind, Option.getD_some] at ht
  obtain ⟨batch, hbatch⟩ : ∃ b, b = set.pending.push value t := ⟨_, rfl⟩
  have hfits : ∀ e ∈ batch.entries.toList, set.kind.Holds e.2 := by
    intro e he
    simp only [hbatch, Batch.push, Array.toList_push, List.mem_append, List.mem_singleton] at he
    rcases he with he | rfl
    · exact hs.pending id set hset e he
    · exact ht
  have hstep : Step r (r.withPending id batch) n c c extra := .withPending hs hset hfits
  have hact : onIntake (Intake.pushVia Intake.defer id value t) r =
      onIntake (if batch.isFull then Intake.handOn Intake.defer id else pure ())
        (r.withPending id batch) := by
    refine onIntake_congr ?_
    unfold Intake.pushVia
    rw [Act.bind_ok (checkLive_eq hs id), Act.bind_ok (pending_eq hset), ← hbatch,
      Act.bind_ok (setPending_eq _ _ _)]
    rfl
  have hledger : (r.ledger c).push id value t =
      if batch.isFull then ((r.withPending id batch).ledger c).handOn id
      else (r.withPending id batch).ledger c := by
    rw [ledger_withPending hset, Ledger.push, hpending, ← hbatch]
    simp only [Function.update_self]
  -- a full batch is handed on at once
  rw [hact, hledger]
  split
  · obtain ⟨r', hrun, hstep', hledger'⟩ := handOn_spec hstep.sound id
    exact ⟨r', hrun, hstep.trans hstep', hledger'⟩
  · exact ⟨_, rfl, hstep, rfl⟩

/-- The pending writes of a set are handed on if there are any. -/
theorem flushSet_spec (hs : r.Sound n c extra) (id : Fin n) :
    ∃ r', onIntake (Intake.flushSetVia Intake.defer id) r = .ok () r' ∧ Step r r' n c c extra ∧
      r'.ledger c =
        if ((r.ledger c).pending id).isEmpty then r.ledger c else (r.ledger c).handOn id := by
  obtain ⟨set, hset⟩ := hs.set? id
  have hpending : (r.ledger c).pending id = set.pending := by simp [ledger, hset]
  have hact : onIntake (Intake.flushSetVia Intake.defer id) r =
      onIntake (if !set.pending.isEmpty then Intake.handOn Intake.defer id else pure ()) r := by
    refine onIntake_congr ?_
    unfold Intake.flushSetVia
    rw [Act.bind_ok (checkLive_eq hs id), Act.bind_ok (pending_eq hset)]
  rw [hact, hpending]
  cases hempty : set.pending.isEmpty with
  | true => exact ⟨r, rfl, hs.step_refl, rfl⟩
  | false => exact handOn_spec hs id

/-! ## Registering events -/

/-- The timeline of an index changes and nothing else. -/
theorem Step.withTimeline {timeline : Timeline} (hs : r.Sound n c extra)
    (hlive : timeline.isDisposed = false) (hstamps : ∀ t ∈ timeline.pending.toList, Kind.stamp.Holds t) :
    Step r ⟨r.intake, timeline⟩ n c c extra :=
  ⟨⟨hs.archive, hs.tidy, hs.size, hs.pending, hs.queues, hs.isOpen, hlive, hstamps⟩,
    fun id v => .refl (c.lists id v), ⟨List.prefix_refl _, List.prefix_refl _⟩, rfl, rfl⟩

/-- The pending timestamps are handed on. -/
theorem handOnStamps_spec (hs : r.Sound n c extra) :
    ∃ r', handOnStamps Intake.defer r = .ok () r' ∧ Step r r' n c c extra ∧
      r'.ledger c = (r.ledger c).handOnStamps := by
  let r₁ : Recorder := ⟨r.intake, r.timeline.cleared⟩
  have hstep : Step r r₁ n c c extra := .withTimeline hs hs.isLive (by simp [Timeline.cleared])
  have hfits : Archive.Fits (r₁.archive.book c) (.stamps r.timeline.pending.toList) := hs.stamps
  refine ⟨r₁.handed (.stamps r.timeline.pending.toList), ?_,
    hstep.trans (.handed hstep.sound hfits), ?_⟩
  · have hget : (get : Act Recorder Recorder) r = .ok r r := rfl
    have hmodify : (modify fun r : Recorder => { r with timeline := r.timeline.cleared } :
      Act Recorder PUnit) r = .ok ⟨⟩ r₁ := rfl
    unfold handOnStamps
    rw [Act.bind_ok hget, Act.bind_ok hmodify]
    exact onIntake_ok (defer_eq hs.isOpen _)
  · rw [ledger_handed]
    rfl

/-- The pending timestamps are handed on if there are any. -/
theorem flushStamps_spec (hs : r.Sound n c extra) :
    ∃ r', flushStampsVia Intake.defer r = .ok () r' ∧ Step r r' n c c extra ∧
      r'.ledger c =
        if r.timeline.pending.isEmpty then r.ledger c else (r.ledger c).handOnStamps := by
  have hget : (get : Act Recorder Recorder) r = .ok r r := rfl
  have hlive : (Act.ofExcept r.timeline.checkLive : Act Recorder Unit) r = .ok () r := by
    simp only [Timeline.checkLive, hs.isLive, Bool.false_eq_true, if_false]
    rfl
  have hact : flushStampsVia Intake.defer r =
      (if !r.timeline.pending.isEmpty then handOnStamps Intake.defer else pure ()) r := by
    unfold flushStampsVia
    rw [Act.bind_ok hget, Act.bind_ok hlive]
  rw [hact]
  cases hempty : r.timeline.pending.isEmpty with
  | true => exact ⟨r, rfl, hs.step_refl, rfl⟩
  | false => exact handOnStamps_spec hs

/-- An event is registered, or its timestamp is refused and nothing happens. -/
theorem register_spec (hs : r.Sound n c extra) (time : Timestamp) :
    Step r (Act.after (registerVia Intake.defer time) r) n c c extra ∧
      (Act.after (registerVia Intake.defer time) r).ledger c = (r.ledger c).register time ∧
      Act.outcome (registerVia Intake.defer time) r = (r.timeline.accept time).map (·.1) := by
  have hget : (get : Act Recorder Recorder) r = .ok r r := rfl
  cases haccept : r.timeline.accept time with
  | error e =>
    -- a time that is refused changes nothing
    have hrun : registerVia Intake.defer time r = .error e r := by
      unfold registerVia
      rw [Act.bind_ok hget, haccept]
      rfl
    rw [Act.after_error hrun, Act.outcome_error hrun]
    refine ⟨hs.step_refl, ?_, rfl⟩
    simp only [Ledger.register, ledger, haccept]
  | ok answer =>
    rcases answer with ⟨id, timeline⟩
    obtain ⟨-, -, -, htimeline⟩ := Timeline.accept_eq_ok haccept
    have hlive : timeline.isDisposed = false := htimeline ▸ hs.isLive
    have hstamps : ∀ t ∈ timeline.pending.toList, Kind.stamp.Holds t := by
      intro t ht
      simp only [htimeline, Array.toList_push, List.mem_append, List.mem_singleton] at ht
      rcases ht with ht | rfl
      · exact hs.stamps t ht
      · rfl
    have hstep : Step r ⟨r.intake, timeline⟩ n c c extra := .withTimeline hs hlive hstamps
    have haccept' : (Act.ofExcept (r.timeline.accept time) : Act Recorder (EventId × Timeline)) r =
        .ok (id, timeline) r := by
      rw [haccept]
      rfl
    have hact : registerVia Intake.defer time r =
        ((if timeline.isFull then handOnStamps Intake.defer else pure ()) >>= fun _ => pure id :
          Act Recorder EventId) ⟨r.intake, timeline⟩ := by
      unfold registerVia
      rw [Act.bind_ok hget, Act.bind_ok haccept']
      dsimp only
      cases timeline.isFull <;> rfl
    have hledger : (r.ledger c).register time =
        if timeline.isFull then (ledger ⟨r.intake, timeline⟩ c).handOnStamps
        else ledger ⟨r.intake, timeline⟩ c := by
      simp only [Ledger.register, ledger, haccept]
      rfl
    -- the times are handed on when there are enough for a task
    rw [Act.after_congr hact, Act.outcome_congr hact, hledger]
    split
    · obtain ⟨r', hrun, hstep', hledger'⟩ := handOnStamps_spec hstep.sound
      have hrun' := Act.bind_ok (f := fun _ => (pure id : Act Recorder EventId)) hrun
      rw [Act.after_congr hrun', Act.outcome_congr hrun']
      exact ⟨hstep.trans hstep', hledger', rfl⟩
    · exact ⟨hstep, rfl, rfl⟩

/-! ## Workers -/

/-- The error of an answer, if it is one. -/
def errorOf {α : Type} : Except StorageError α → Option StorageError
  | .ok _ => none
  | .error e => some e

/-- An answer is an error or it has none. -/
theorem errorOf_eq_some {α : Type} {answer : Except StorageError α} {e : StorageError} :
    errorOf answer = some e ↔ answer = .error e := by
  cases answer <;> simp [errorOf]

theorem errorOf_ok {α σ : Type} {x : Act σ α} {s s' : σ} {a : α} (h : x s = .ok a s') :
    errorOf (Act.outcome x s) = none := by
  rw [Act.outcome_ok h]
  rfl

@[simp] theorem errorOf_map {α β : Type} (f : α → β) (answer : Except StorageError α) :
    errorOf (answer.map f) = errorOf answer := by
  cases answer <;> rfl

/-- A worker does the oldest task of its queue, and the pool keeps count. -/
theorem work_task {τ σ : Type} {run : τ → Act σ Unit} {s : Staffed τ σ} {i : Nat} {t : τ}
    {rest : List (Job τ)} (h : s.pool.queues[i]? = some (.task t :: rest)) :
    s.work run i = ⟨{ s.pool with queues := s.pool.queues.set i rest }.record
      (errorOf (Act.outcome (run t) s.state)), Act.after (run t) s.state⟩ := by
  rcases s with ⟨pool, state⟩
  have h' : pool.queues[i]? = some (.task t :: rest) := h
  simp only [Staffed.work, h', Act.outcome, Act.after]
  cases run t state <;> rfl

/-- A barrier is taken off the queue. -/
theorem work_barrier {τ σ : Type} {run : τ → Act σ Unit} {s : Staffed τ σ} {i : Nat}
    {rest : List (Job τ)} (h : s.pool.queues[i]? = some (.barrier :: rest)) :
    s.work run i = ⟨{ s.pool with queues := s.pool.queues.set i rest }, s.state⟩ := by
  rcases s with ⟨pool, state⟩
  have h' : pool.queues[i]? = some (.barrier :: rest) := h
  simp only [Staffed.work, h']

/-- A worker without jobs does nothing. -/
theorem work_idle {τ σ : Type} {run : τ → Act σ Unit} {s : Staffed τ σ} {i : Nat}
    (h : s.pool.queues[i]? = none ∨ s.pool.queues[i]? = some []) : s.work run i = s := by
  rcases s with ⟨pool, state⟩
  rcases h with h | h
  · have h' : pool.queues[i]? = none := h
    simp only [Staffed.work, h']
  · have h' : pool.queues[i]? = some [] := h
    simp only [Staffed.work, h']

/-- All that a worker may do: nothing, the oldest task of its queue, or a barrier comes off the queue. -/
theorem work_cases {τ σ : Type} (run : τ → Act σ Unit) (s : Staffed τ σ) (i : Nat) :
    s.work run i = s ∨
    (∃ t rest, s.pool.queues[i]? = some (.task t :: rest) ∧
      s.work run i = ⟨{ s.pool with queues := s.pool.queues.set i rest }.record
        (errorOf (Act.outcome (run t) s.state)), Act.after (run t) s.state⟩) ∨
    ∃ rest, s.pool.queues[i]? = some (.barrier :: rest) ∧
      s.work run i = ⟨{ s.pool with queues := s.pool.queues.set i rest }, s.state⟩ := by
  rcases hget : s.pool.queues[i]? with _ | _ | ⟨t | _, rest⟩
  · exact .inl (work_idle (.inl hget))
  · exact .inl (work_idle (.inr hget))
  · exact .inr (.inl ⟨t, rest, rfl, work_task hget⟩)
  · exact .inr (.inr ⟨rest, rfl, work_barrier hget⟩)

@[simp] theorem queues_record {τ : Type} (p : Pool τ) (e : Option StorageError) :
    (p.record e).queues = p.queues := by
  cases e <;> rfl

/-- The index with another pool. -/
def withPool (r : Recorder) (pool : Pool Task) : Recorder := ⟨⟨pool, r.intake.state⟩, r.timeline⟩

/-- Jobs may leave the queues at any time, and others that are no tasks may come. -/
theorem Step.withPool {pool : Pool Task} (hs : r.Sound n c extra)
    (hjobs : ∀ queue ∈ pool.queues, ∀ t, Job.task t ∈ queue →
      ∃ queue' ∈ r.intake.pool.queues, Job.task t ∈ queue')
    (hlength : pool.queues.length = r.intake.pool.queues.length) :
    Step r (r.withPool pool) n c c extra := by
  refine ⟨⟨hs.archive, hs.tidy, hs.size, hs.pending, fun queue hqueue t ht => ?_, ?_, hs.isLive,
    hs.stamps⟩, fun id v => .refl (c.lists id v), ⟨List.prefix_refl _, List.prefix_refl _⟩, rfl, rfl⟩
  · obtain ⟨queue', hqueue', ht'⟩ := hjobs queue hqueue t ht
    exact hs.queues queue' hqueue' t ht'
  · have hopen := hs.isOpen
    simp only [Pool.isOpen, Bool.not_eq_true', List.isEmpty_eq_false_iff,
      ← List.length_pos_iff] at hopen ⊢
    show 0 < pool.queues.length
    rw [hlength]
    exact hopen

/-- A queue without its first job. -/
theorem Step.pop {pool : Pool Task} {i : Nat} {job : Job Task} {rest : List (Job Task)}
    (hs : r.Sound n c extra) (hget : r.intake.pool.queues[i]? = some (job :: rest))
    (hpool : pool.queues = r.intake.pool.queues.set i rest) :
    Step r (r.withPool pool) n c c extra := by
  refine .withPool hs (fun queue hqueue t ht => ?_) (by rw [hpool, List.length_set])
  rw [hpool] at hqueue
  rcases List.mem_or_eq_of_mem_set hqueue with hqueue | rfl
  · exact ⟨queue, hqueue, ht⟩
  · exact ⟨job :: queue, List.mem_of_getElem? hget, List.mem_cons_of_mem job ht⟩

/-- A task that a worker takes does what it does to the book. -/
theorem Sound.performs (hs : r.Sound n c extra) {worker : Nat} {t : Task} {rest : List (Job Task)}
    (hget : r.intake.pool.queues[worker]? = some (.task t :: rest))
    (hroom : (r.next (.work worker : Call n)).pageCount ≤ maxPages) :
    ∃ c', Archive.Performs (Archive.perform t) (Book.perform t) r.archive c c'
      (r.archive.strandedBy (r.archive.book c) t ++ extra) := by
  have hfits : Archive.Fits (r.archive.book c) t :=
    hs.queues _ (List.mem_of_getElem? hget) t List.mem_cons_self
  have hnext : r.next (.work worker : Call n) =
      { r with intake := r.intake.work Archive.perform worker } := rfl
  rw [hnext, work_task hget] at hroom
  exact Archive.perform_spec hs.archive hs.tidy hfits hroom

/-- A worker takes a job. -/
theorem work_spec (hs : r.Sound n c extra) (worker : Nat)
    (hroom : (r.next (.work worker : Call n)).pageCount ≤ maxPages) :
    ∃ c', Step r (r.next (.work worker : Call n)) n c c'
        (r.strandedAfter (r.ledger c).book extra (.work worker : Call n)) ∧
      (r.next (.work worker : Call n)).ledger c' =
        { r.ledger c with staffed := (r.ledger c).staffed.work Book.perform worker } := by
  have hnext : r.next (.work worker : Call n) =
      { r with intake := r.intake.work Archive.perform worker } := rfl
  rw [hnext]
  simp only [strandedAfter]
  rcases hget : r.intake.pool.queues[worker]? with _ | _ | ⟨t | _, rest⟩
  · rw [work_idle (.inl hget), work_idle (s := (r.ledger c).staffed) (.inl hget)]
    exact ⟨c, hs.step_refl, rfl⟩
  · rw [work_idle (.inr hget), work_idle (s := (r.ledger c).staffed) (.inr hget)]
    exact ⟨c, hs.step_refl, rfl⟩
  · obtain ⟨c', h⟩ := hs.performs hget hroom
    rw [work_task hget, work_task (s := (r.ledger c).staffed) hget]
    let popped : Pool Task := { r.intake.pool with queues := r.intake.pool.queues.set worker rest }
    -- the archive does the task first, and only then does the job leave the queue
    have hpop := Step.pop (hs.of_step h.step h.tidy) hget
      (queues_record popped (errorOf (Act.outcome (Archive.perform t) r.archive)))
    refine ⟨c', (Step.of_archive hs h.step h.tidy).trans hpop, ?_⟩
    have hledger := ledger_withArchive c c' h.step.outline_eq
    have hbook : (r.ledger c).staffed.state = r.archive.book c := rfl
    rw [h.book_eq] at hledger
    rw [hbook, ← h.outcome_eq]
    exact congrArg (fun l : Ledger => Ledger.mk
      ⟨popped.record (errorOf (Act.outcome (Archive.perform t) r.archive)), l.staffed.state⟩
      l.pending l.timeline) hledger
  · rw [work_barrier hget, work_barrier (s := (r.ledger c).staffed) hget]
    exact ⟨c, .pop hs hget rfl, rfl⟩

/-! ## Readers, and lists written out at once -/

/-- A reader finds the list that the ledger has, in memory or taken back, and the ledger stays as it is. -/
theorem lookUp_spec (hs : r.Sound n c extra) (id : Fin n) (value : ValueId)
    (hroom : (r.next (.lookUp id value)).pageCount ≤ maxPages) :
    ∃ view chunks r' c', onArchive (Archive.lookUp id value) r = .ok view r' ∧
      Step r r' n c c' extra ∧ r'.ledger c' = r.ledger c ∧
      view.Within (c'.lists id value) chunks ∧
      view.tuples chunks = (r.ledger c).book.lists id value := by
  obtain ⟨set, hset⟩ := hs.set? id
  have hnext : r.next (.lookUp id value) =
      r.withArchive (Act.after (Archive.lookUp id value) r.archive) := by
    refine Eq.trans ?_ (after_onArchive _ r)
    exact Act.after_bind_pure (onArchive (Archive.lookUp id value)) r
  rw [hnext] at hroom
  obtain ⟨view, chunks, a', c', hrun, hstep, hbook, ht, hview, htuples⟩ :=
    Archive.lookUp_spec value hs.archive hs.tidy hset hroom
  refine ⟨view, chunks, r.withArchive a', c', ?_, .of_archive hs hstep ht,
    ledger_withArchive_of_book hstep.outline_eq hbook, hview, htuples⟩
  rw [onArchive_eq, hrun]

/-- A list that is written out at once is still in the ledger. It is in memory no more, tracked or not. -/
theorem discard_spec (hs : r.Sound n c extra) (id : Fin n) (value : ValueId)
    (hroom : (r.next (.discard id value)).pageCount ≤ maxPages) :
    ∃ c', Step r (r.next (.discard id value)) n c c' (extra.erase ⟨id, value⟩) ∧
      (r.next (.discard id value)).ledger c' = r.ledger c := by
  have hnext : r.next (.discard id value) =
      r.withArchive (Act.after (Archive.discard id value) r.archive) := after_onArchive _ r
  rw [hnext] at hroom ⊢
  obtain ⟨c', hstep, hbook, ht, -⟩ := Archive.discard_spec hs.archive hs.tidy hroom
  exact ⟨c', .of_archive hs hstep ht, ledger_withArchive_of_book hstep.outline_eq hbook⟩

/-- Whether it was in memory or not, the list is not there afterwards. -/
theorem isResident_discard (hs : r.Sound n c extra) (id : Fin n) (value : ValueId)
    (hroom : (r.next (.discard id value)).pageCount ≤ maxPages) :
    (r.next (.discard id value)).archive.isResident ⟨id, value⟩ = false := by
  have hnext : r.next (.discard id value) =
      r.withArchive (Act.after (Archive.discard id value) r.archive) := after_onArchive _ r
  rw [hnext] at hroom ⊢
  exact Archive.isResident_discard hs.archive hroom

/-- A page may be read at any time, and there need not be one. -/
theorem readPage_spec (hs : r.Sound n c extra) (page : PageId) :
    Step r (r.next (.readPage page : Call n)) n c c extra ∧
      (r.next (.readPage page : Call n)).ledger c = r.ledger c := by
  have hnext : r.next (.readPage page : Call n) =
      r.withArchive (Act.after (Archive.onPages (PageFile.read page)) r.archive) := by
    refine Eq.trans ?_ (after_onArchive _ r)
    exact Act.after_bind_pure (onPages (PageFile.read page)) r
  rw [hnext]
  obtain ⟨hstep, hbook, ht⟩ := Archive.onPages_spec (PageFile.read page) hs.archive hs.tidy
    (PageFile.after_read hs.archive.shelf.file page)
  exact ⟨.of_archive hs hstep ht, ledger_withArchive_of_book hstep.outline_eq hbook⟩

/-! ## Every call -/

/-- Every call goes along every trend. -/
theorem next_trend {R : Shelf → Shelf → Prop} [IsPreorder Shelf R] (hR : Shelf.Trend R) (r : Recorder)
    (call : Call n) : R r.shelf (r.next call).shelf := by
  have hdefer : ∀ t, Act.Leads (InvImage R Intake.shelf) (Intake.defer t) := Intake.leads_defer
  cases call with
  | push set value key role =>
    exact (Act.Leads.get.bind fun s => leads_onIntake (Intake.leads_pushVia hR.pending hdefer _ _ _)) r
  | flushSet set => exact leads_onIntake (Intake.leads_flushSetVia hR.pending hdefer _) r
  | lookUp set value =>
    exact ((leads_onArchive (Archive.leads_lookUp hR _ _)).bind fun _ => .pure _) r
  | discard set value => exact leads_onArchive (Archive.leads_discard hR _ _) r
  | register time => exact ((leads_registerVia hdefer time).bind fun _ => .pure _) r
  | flushStamps => exact leads_flushStampsVia hdefer r
  | work worker => exact Intake.leads_work hR r.intake worker
  | raiseBarriers => exact refl r.shelf
  | takeError => exact refl r.shelf
  | readPage page =>
    exact ((leads_onArchive (Archive.leads_onPages hR (PageFile.grows_read page))).bind
      fun _ => .pure _) r

/-- So does every run. -/
theorem run_trend {R : Shelf → Shelf → Prop} [IsPreorder Shelf R] (hR : Shelf.Trend R) (r : Recorder)
    (calls : List (Call n)) : R r.shelf (r.run calls).shelf := by
  induction calls generalizing r with
  | nil => exact refl r.shelf
  | cons call calls ih => exact IsTrans.trans _ _ _ (next_trend hR r call) (ih _)

/-- No call takes pages back from the file. -/
theorem pageCount_le_next (r : Recorder) (call : Call n) : r.pageCount ≤ (r.next call).pageCount :=
  next_trend Shelf.trend_pageCount r call

/-- No calls take pages back from the file. -/
theorem pageCount_le_run (r : Recorder) (calls : List (Call n)) :
    r.pageCount ≤ (r.run calls).pageCount := run_trend Shelf.trend_pageCount r calls

/-- A call does to an index what it does to its ledger. -/
theorem next_spec (hs : r.Sound n c extra) (call : Call n)
    (hroom : (r.next call).pageCount ≤ maxPages) :
    ∃ c', Step r (r.next call) n c c' (r.strandedAfter (r.ledger c).book extra call) ∧
      (r.next call).ledger c' = (r.ledger c).next call := by
  cases call with
  -- writing and flushing change no list, so that the contents stay as they are
  | push set value key role =>
    have hkind : r.kindOf set = ((r.ledger c).book.kind? set).getD .plain := rfl
    obtain ⟨r', hrun, hstep, hledger⟩ := push_spec hs set value
      (Kind.holds_tuple (r.kindOf set) key role)
    have hnext : r.next (.push set value key role) = r' :=
      (Act.after_bind_ok (x := (get : Act Recorder Recorder)) rfl).trans (Act.after_ok hrun)
    rw [hnext]
    exact ⟨c, hstep, hledger⟩
  | flushSet set =>
    obtain ⟨r', hrun, hstep, hledger⟩ := flushSet_spec hs set
    rw [show r.next (.flushSet set) = r' from Act.after_ok hrun]
    exact ⟨c, hstep, hledger⟩
  -- readers may have lists written out, and the contents are others then
  | lookUp set value =>
    obtain ⟨view, chunks, r', c', hrun, hstep, hledger, -⟩ := lookUp_spec hs set value hroom
    have hnext : r.next (.lookUp set value) = r' :=
      (Act.after_bind_pure (onArchive (Archive.lookUp set value)) r).trans (Act.after_ok hrun)
    rw [hnext]
    exact ⟨c', hstep, hledger⟩
  | discard set value => exact discard_spec hs set value hroom
  | register time =>
    obtain ⟨hstep, hledger, -⟩ := register_spec hs time
    have hnext : r.next (.register time : Call n) = _ :=
      Act.after_bind_pure (registerVia Intake.defer time) r
    rw [hnext]
    exact ⟨c, hstep, hledger⟩
  | flushStamps =>
    obtain ⟨r', hrun, hstep, hledger⟩ := flushStamps_spec hs
    rw [show r.next (.flushStamps : Call n) = r' from Act.after_ok hrun]
    exact ⟨c, hstep, hledger⟩
  | work worker => exact work_spec hs worker hroom
  -- barriers and errors are matters of the pool
  | raiseBarriers =>
    refine ⟨c, .withPool hs (fun queue hqueue t ht => ?_) ?_, rfl⟩
    · obtain ⟨queue', hqueue', rfl⟩ := List.mem_map.mp hqueue
      rcases List.mem_append.mp ht with ht | ht
      · exact ⟨queue', hqueue', ht⟩
      · simp at ht
    · exact List.length_map _
  | takeError =>
    exact ⟨c, .withPool hs (fun queue hqueue t ht => ⟨queue, hqueue, ht⟩) rfl, rfl⟩
  | readPage page => exact ⟨c, readPage_spec hs page⟩

theorem run_cons (r : Recorder) (call : Call n) (calls : List (Call n)) :
    r.run (call :: calls) = (r.next call).run calls := rfl

/-- A run may be cut. -/
theorem run_append (r : Recorder) (before after : List (Call n)) :
    r.run (before ++ after) = (r.run before).run after := List.foldl_append

/-- Any calls do to an index what they do to its ledger. -/
theorem run_spec (hs : r.Sound n c extra) (calls : List (Call n))
    (hroom : (r.run calls).pageCount ≤ maxPages) :
    ∃ c', Step r (r.run calls) n c c' (r.strandedIn (r.ledger c) extra calls) ∧
      (r.run calls).ledger c' = (r.ledger c).run calls := by
  induction calls generalizing r c extra with
  | nil => exact ⟨c, hs.step_refl, rfl⟩
  | cons call calls ih =>
    obtain ⟨c₁, hstep₁, hledger₁⟩ := next_spec hs call
      (Nat.le_trans (pageCount_le_run _ calls) hroom)
    obtain ⟨c₂, hstep₂, hledger₂⟩ := ih hstep₁.sound hroom
    rw [hledger₁] at hstep₂ hledger₂
    exact ⟨c₂, hstep₁.trans hstep₂, hledger₂⟩

end Recorder

end EventIndex
