import EventIndex.Proofs.Index.Ingested
import EventIndex.Proofs.Index.Progress
import EventIndex.Proofs.Index.Readings

/-! # Certificates — what the outcome of a flush says

An engine with a single worker applies its batches in the order in which they were handed on. So the
outcome of a flush tells what has become of all that was written since the flush before
(`flush_certifies`). If it succeeds, every list has just the tuples that were written to it, in the order
of the calls. If it fails, its error is that of the first batch that failed, and no tuples are missing but
those that were refused and those behind them in the same batch. Timestamps are never missing, and the
next flush hands out no error again.

Main results:

* `tuplesIn_batches`: the writes of some operations are those of the batches that they come to.
* `Engine.Idle.run`: between flushes the engine has nothing to do.
* `Engine.Idle.exists_trials`: each batch that is flushed is kept, or fails, as the lists stand by then.
* `Engine.flush_certifies`: what the outcome of a flush says about all this.
-/

namespace EventIndex

open Operation

namespace Engine

variable {config : EngineConfig} {e : Engine} {c : Contents} {extra : List OwnerKey} {size : Nat}
  {b : Batching} {since : List Operation} {given : List Timestamp}

/-! ## The batches of operations -/

/-- The writes of some operations join those of their sets. -/
def addAll (size : Nat) (b : Batching) (entries : List (EngineSet × ValueId × Tuple)) : Batching :=
  entries.foldl (fun b entry => b.add size entry.1 entry.2) b

/-- The batches that the writes of some operations come to, the flush after them included: full ones in
the order in which they get full, and then the rest of each set. -/
def batches (size : Nat) (ops : List Operation) : List (SetId × List (ValueId × Tuple)) :=
  ((plainSets ++ roleSets).foldl Batching.handOn
    (addAll size .start (ops.flatMap Operation.entries))).handed

/-- Written tuples join those of their list, behind what was written before. -/
theorem total_addAll (entries : List (EngineSet × ValueId × Tuple)) (set : SetId) (value : ValueId) :
    (addAll size b entries).total set value = b.total set value ++ entries.filterMap fun entry =>
      if (entry.1 : SetId) = set ∧ entry.2.1 = value then some entry.2.2 else none := by
  induction entries generalizing b with
  | nil => exact (List.append_nil _).symm
  | cons entry entries ih =>
    show (addAll size (b.add size entry.1 entry.2) entries).total set value = _
    rw [ih, Batching.total_add, List.append_assoc, List.filterMap_cons]
    congr 1
    split <;> rfl

theorem batches_nil (size : Nat) : batches size [] = [] :=
  congrArg Batching.handed (Batching.handOnAll_start (plainSets ++ roleSets))

/-- Every tuple that is written is in one batch, and those of a list are in their order. -/
theorem tuplesIn_batches (size : Nat) (ops : List Operation) (set : EngineSet) (value : ValueId) :
    tuplesIn set value (batches size ops) = written ops set value := by
  obtain ⟨b, hb⟩ : ∃ b, b = (plainSets ++ roleSets).foldl Batching.handOn
    (addAll size .start (ops.flatMap Operation.entries)) := ⟨_, rfl⟩
  have hset : (set : SetId) ∈ plainSets ++ roleSets := by
    revert set
    decide
  have hnothing : b.waiting set = [] := hb ▸ Batching.waiting_handOnAll _ (.inl hset)
  have htotal : b.total set value = written ops set value := by
    rw [hb, Batching.total_handOnAll, total_addAll]
    rfl
  rw [Batching.total, hnothing] at htotal
  rw [batches, ← hb, ← htotal]
  exact (List.append_nil _).symm

/-! ### As calls -/

/-- The calls that write entries add these entries to the batches. -/
theorem foldl_entryCalls {entries : List (EngineSet × ValueId × Tuple)}
    (hfit : ∀ entry ∈ entries, EntryFits entry) :
    (entries.map entryCall).foldl (Batching.next kind? size) b = addAll size b entries := by
  induction entries generalizing b with
  | nil => rfl
  | cons entry entries ih =>
    obtain ⟨hentry, hrest⟩ := List.forall_mem_cons.mp hfit
    have hadd : b.next kind? size (entryCall entry) = b.add size entry.1 entry.2 := by
      rw [EntryFits] at hentry
      rw [entryCall, Batching.next, hentry]
    rw [List.map_cons, List.foldl_cons, hadd, ih hrest]
    rfl

/-- The calls of an operation that is no flush add the entries of the operation. -/
theorem foldl_calls {op : Operation} (hop : ∀ order, op ≠ .flush order) (r : Recorder) :
    (op.calls r).foldl (Batching.next kind? size) b = addAll size b op.entries := by
  cases op with
  | indexRole role event => exact foldl_entryCalls fun entry hentry => (entries_fit hentry).1
  | index d value event role => exact foldl_entryCalls fun entry hentry => (entries_fit hentry).1
  | flush order => exact absurd rfl (hop order)
  | _ => rfl

/-- The calls of operations without a flush add the entries of all of them. -/
theorem foldl_callsOf (hsince : ∀ op ∈ since, ∀ order, op ≠ .flush order) (e : Engine) :
    (e.callsOf since).foldl (Batching.next kind? size) b =
      addAll size b (since.flatMap Operation.entries) := by
  induction since generalizing e b with
  | nil => rfl
  | cons op since ih =>
    obtain ⟨hop, hrest⟩ := List.forall_mem_cons.mp hsince
    rw [callsOf, List.foldl_append, foldl_calls hop, ih hrest, List.flatMap_cons]
    exact List.foldl_append.symm

/-- Workers make no batches. -/
theorem foldl_works (workers : List Nat) :
    (workers.map (.work : Nat → Call setShapes.length)).foldl (Batching.next kind? size) b = b := by
  induction workers with
  | nil => rfl
  | cons worker workers ih => exact ih

/-- Flushing sets hands their batches on, one after the other. -/
theorem foldl_flushSets (sets : List EngineSet) :
    (sets.map (.flushSet : EngineSet → Call setShapes.length)).foldl (Batching.next kind? size) b =
      (sets.map Fin.val).foldl Batching.handOn b := by
  rw [List.foldl_map, List.foldl_map]
  rfl

/-- A flush hands on what waits for each set, in a fixed order. -/
theorem foldl_flushCalls (order workers : List Nat) :
    (flushCalls order ++ workers.map (.work : Nat → Call setShapes.length)).foldl
        (Batching.next kind? size) b =
      (plainSets ++ roleSets).foldl Batching.handOn b := by
  have hsets : (plainOrder ++ roleOrder).map Fin.val = plainSets ++ roleSets := by decide
  rw [List.foldl_append, foldl_works, flushCalls, List.foldl_append, List.foldl_append, foldl_works]
  show handOnCalls.foldl (Batching.next kind? size) b = _
  rw [handOnCalls, List.foldl_cons, foldl_flushSets, hsets]
  rfl

/-! ## What becomes of the batches -/

/-- Every set of an engine has a kind. -/
theorem exists_kind (set : EngineSet) : ∃ k, kind? set = some k := by
  rw [← Option.ne_none_iff_exists', Ne, kind?_eq_none_iff]
  exact Nat.not_le.mpr set.isLt

/-- Only a flush asks for the error that waits. -/
theorem not_takeError_callsOf (hsince : ∀ op ∈ since, ∀ order, op ≠ .flush order) (e : Engine) :
    ∀ call ∈ e.callsOf since, call ≠ .takeError := by
  induction since generalizing e with
  | nil => rintro _ ⟨⟩
  | cons op since ih =>
    obtain ⟨hop, hrest⟩ := List.forall_mem_cons.mp hsince
    intro call hcall
    rcases List.mem_append.mp hcall with hcall | hcall
    · exact not_takeError hop call hcall
    · exact ih hrest _ call hcall

/-- An engine with a single worker has one queue, and batches of the size that it was made with. -/
theorem single_create (h : create config = .ok e) (hone : config.workerThreads ≤ 1) (c : Contents) :
    (e.recorder.ledger c).Single setShapes.length (max config.taskSize 1) := by
  obtain ⟨hstart, -⟩ := start_setup h
  obtain ⟨-, hledger, -⟩ := Setup.start_spec hstart
  have hqueues : (setup config).ledger.staffed.pool.queues.length = 1 := by
    show (List.replicate (max config.workerThreads 1) []).length = 1
    rw [List.length_replicate, max_eq_right hone]
  have hlimit (id : EngineSet) : ((setup config).ledger.pending id).limit = max config.taskSize 1 := by
    show (Batch.empty (((setup config).shapes[(id : SetId)]?.map (·.2.2)).getD 1)).limit = _
    rw [setup, List.getElem?_map, List.getElem?_eq_getElem id.isLt]
    rfl
  -- neither queues nor pending writes are about what the archive holds
  exact ⟨(congrArg (·.staffed.pool.queues.length) hledger).trans hqueues,
    fun id => (congrArg (fun l => (l.pending id).limit) hledger).trans (hlimit id)⟩

/-- An engine with a single worker that has done all its work, with the timestamps it was given. -/
structure Idle (e : Engine) (c : Contents) (extra : List OwnerKey) (size : Nat)
    (times : List Timestamp) : Prop extends e.Working c extra where
  rested : (e.recorder.ledger c).Rested setShapes.length
  single : (e.recorder.ledger c).Single setShapes.length size
  timed : (e.recorder.ledger c).Timed kind? (times.map .plain)

/-- A new engine has nothing to do. -/
theorem idle_create (h : create config = .ok e) (hone : config.workerThreads ≤ 1) :
    ∃ c, e.Idle c [] (max config.taskSize 1) [] := by
  obtain ⟨c, hw, hrested, htimed, -⟩ := create_spec h
  exact ⟨c, { hw with rested := hrested, single := single_create h hone c, timed := htimed }⟩

/-- When all writes have been flushed, the engine has done all its work again. -/
theorem Idle.run (hi : e.Idle c extra size given) {ops : List Operation} (hflushed : Flushed ops)
    (hroom : (e.run ops).pageCount ≤ maxPages) :
    ∃ c' extra',
      (e.run ops).Idle c' extra' size
        (given ++ accepted given.getLast? (ops.filterMap Operation.time?)) ∧
      (e.run ops).recorder.ledger c' = (e.recorder.ledger c).run (e.callsOf ops) := by
  obtain ⟨c', extra', hw, hledger⟩ := hi.toWorking.run ops hroom
  have hlast : (given.map Tuple.plain).getLast?.map Tuple.key = given.getLast? := by
    rw [List.getLast?_map, Option.map_map]
    exact Option.map_id'
  have htimed := hi.timed.run hi.ledger (e.callsOf ops)
  rw [hlast, times_callsOf, ← List.map_append] at htimed
  refine ⟨c', extra', ⟨hw, ?_, ?_, ?_⟩, hledger⟩
  · rw [hledger]
    exact hi.toWorking.rested hi.rested hflushed hroom
  · rw [hledger]
    exact hi.single.run hi.ledger (e.callsOf ops)
  · rw [hledger]
    exact htimed

/-- What becomes of the batches that are written and flushed. -/
theorem Idle.exists_trials (hi : e.Idle c extra size given)
    (hsince : ∀ op ∈ since, ∀ order, op ≠ .flush order) (order : List Nat)
    (hroom : (e.run (since ++ [.flush order])).pageCount ≤ maxPages) :
    ∃ trials : List Trial, trials.map Trial.batch = batches size since ∧
      Tried kind? (e.recorder.ledger c).book.lists trials ∧
      (∀ (set : SetId) (value : ValueId),
        ((e.recorder.ledger c).run (e.callsOf (since ++ [.flush order]))).book.lists set value =
          (e.recorder.ledger c).book.lists set value ++
            tuplesIn set value (trials.map Trial.keptPart)) ∧
      Act.outcome (act (.flush order)) (e.run since) =
        Pool.verdict (trials.findSome? Trial.error) := by
  rw [run_concat] at hroom
  obtain ⟨c₁, extra₁, hw₁, hledger₁⟩ :=
    hi.toWorking.run since (Nat.le_trans (pageCount_le_next _ _) hroom)
  obtain ⟨workers, hcalls, hpool⟩ := hw₁.flushed_pool order hroom
  have hall : e.callsOf (since ++ [.flush order]) =
      e.callsOf since ++ (flushCalls order ++ workers.map .work) ++ [.takeError] := by
    rw [callsOf_append, callsOf, callsOf, List.append_nil, hcalls, List.append_assoc,
      List.append_assoc, List.append_assoc]
  have hnoTake : ∀ call ∈ e.callsOf since ++ (flushCalls order ++ workers.map .work),
      call ≠ .takeError := by
    intro call hcall
    rcases List.mem_append.mp hcall with hcall | hcall
    · exact not_takeError_callsOf hsince e call hcall
    · rintro rfl
      simp [flushCalls, handOnCalls] at hcall
  -- until the error is taken, the batches make progress
  have hstart : (e.recorder.ledger c).Progress setShapes.length kind? size
    (e.recorder.ledger c).book.lists .start [] [] := hi.rested.progress hi.single
  obtain ⟨done, queue, hprogress⟩ := hstart.run hi.ledger hi.timed exists_kind hnoTake
  rw [Ledger.run_append, ← hledger₁, List.foldl_append, foldl_callsOf hsince, foldl_flushCalls]
    at hprogress
  -- the worker has emptied the queue
  have hempty : queue = [] := by
    have hmem : queue ∈ ((e.run since).recorder.run (flushCalls order)).settled.pool.queues := by
      rw [← hpool, hprogress.queues]
      exact List.mem_singleton_self queue
    exact Staffed.settle_empty Archive.perform _ queue hmem
  subst hempty
  have htake (l : Ledger) : (l.run [(.takeError : Call setShapes.length)]).book = l.book := rfl
  refine ⟨done, ?_, hprogress.tried, ?_, ?_⟩
  · exact (List.append_nil _).symm.trans hprogress.handed.symm
  · intro set value
    rw [hall, Ledger.run_append, Ledger.run_append, ← hledger₁, htake, hprogress.lists_eq]
  · rw [(hw₁.flush_spec order).2, ← hpool, hprogress.firstError]

/-- When nothing was written, a flush succeeds. -/
theorem Idle.outcome_flush (hi : e.Idle c extra size given) (order : List Nat)
    (hroom : (e.run [.flush order]).pageCount ≤ maxPages) :
    Act.outcome (act (.flush order)) e = .ok () := by
  have hnoFlush : ∀ op ∈ ([] : List Operation), ∀ order, op ≠ .flush order := by rintro _ ⟨⟩
  obtain ⟨trials, hbatches, -, -, houtcome⟩ := hi.exists_trials hnoFlush order hroom
  have hnone : trials = [] := List.map_eq_nil_iff.mp (hbatches.trans (batches_nil size))
  rw [hnone] at houtcome
  exact houtcome

/-! ## What readers find -/

/-- Whoever looks the list of a value up finds some tuples in it, if there are pages for the look-up. -/
def HasList (e : Engine) (set : EngineSet) (value : ValueId) (ts : List Tuple) : Prop :=
  (Act.after (lookUp set value) e).pageCount ≤ maxPages →
    ∃ view, Act.outcome (lookUp set value) e = .ok view ∧
      Act.outcome (onPages view.toList) (Act.after (lookUp set value) e) = .ok ts

/-- Whoever looks a list up finds what the ledger has for it. -/
theorem Working.hasList (hw : e.Working c extra) (set : EngineSet) (value : ValueId) :
    e.HasList set value ((e.recorder.ledger c).book.lists set value) := by
  intro hroom
  obtain ⟨view, chunks, e', c', hrun, hsame, hlies, htuples⟩ := lookUp_spec hw.sound set value hroom
  obtain ⟨e'', hread, -⟩ := onPages_spec hsame.step.sound (Snapshot.reads_toList hlies)
    hsame.step.sound.later_self
  refine ⟨view, Act.outcome_ok hrun, ?_⟩
  rw [Act.after_ok hrun, ← htuples]
  exact Act.outcome_ok hread

/-- Whoever reads the timestamps finds all of them. -/
theorem Idle.stamps_found (hi : e.Idle c extra size given) :
    Act.outcome (onPages e.stamps.toList) e = .ok (given.map .plain) := by
  obtain ⟨hlies, htuples⟩ := stamps_spec hi.sound
  obtain ⟨e', hread, -⟩ := onPages_spec hi.sound (Snapshot.reads_toList hlies) hi.sound.later_self
  rw [← hi.timed.total_eq, ← hi.rested.stamps_eq, ← htuples]
  exact Act.outcome_ok hread

/-! ## Certificates -/

/-- What a flush after some operations certifies, `since` being those since the flush before: what
readers found in the lists then, and what became of each batch, in the order in which the batches were
handed on. -/
structure Certificate (e : Engine) (size : Nat) (before since : List Operation) (order : List Nat)
    (lists : SetId → ValueId → List Tuple) (trials : List Trial) : Prop where
  /-- Readers found the lists when `since` began. -/
  found : ∀ (set : EngineSet) (value : ValueId), (e.run before).HasList set value (lists set value)
  batches_eq : trials.map Trial.batch = batches size since
  /-- Every tuple that was written is in a batch, those of a list in the order of the calls. -/
  offered : ∀ (set : EngineSet) (value : ValueId),
    tuplesIn set value (trials.map Trial.batch) = written since set value
  /-- A batch is kept up to the first tuple that is refused. -/
  tried : Tried kind? lists trials
  /-- The flush hands out the error of the first batch that failed. -/
  outcome_eq : Act.outcome (act (.flush order)) (e.run (before ++ since)) =
    Pool.verdict (trials.findSome? Trial.error)
  /-- Readers find what was kept behind what they found before. -/
  left : ∀ (set : EngineSet) (value : ValueId),
    (e.run (before ++ since ++ [.flush order])).HasList set value
      (lists set value ++ tuplesIn set value (trials.map Trial.keptPart))
  /-- If the flush succeeds, readers find all that was written. -/
  complete : Act.outcome (act (.flush order)) (e.run (before ++ since)) = .ok () →
    ∀ (set : EngineSet) (value : ValueId),
      (e.run (before ++ since ++ [.flush order])).HasList set value
        (lists set value ++ written since set value)
  /-- All events that were registered have their timestamps, whether the flush succeeds or not. -/
  stamps : Act.outcome (onPages (e.run (before ++ since ++ [.flush order])).stamps.toList)
      (e.run (before ++ since ++ [.flush order])) =
    .ok ((times before ++ accepted (times before).getLast? (since.filterMap Operation.time?)).map
      .plain)
  /-- No error is handed out a second time. -/
  cleared : ∀ order',
    (e.run (before ++ since ++ [.flush order] ++ [.flush order'])).pageCount ≤ maxPages →
      Act.outcome (act (.flush order')) (e.run (before ++ since ++ [.flush order])) = .ok ()

/-- A flush at the end leaves nothing to be flushed. -/
theorem flushed_concat (ops : List Operation) (order : List Nat) :
    Flushed (ops ++ [Operation.flush order]) := by
  intro before op after hsplit hwrite
  rcases after.eq_nil_or_concat with rfl | ⟨after, last, rfl⟩
  · obtain ⟨-, heq⟩ := List.append_inj' hsplit rfl
    cases heq
    cases hwrite
  · rw [List.concat_eq_append, ← List.cons_append, ← List.append_assoc] at hsplit
    obtain ⟨-, heq⟩ := List.append_inj' hsplit rfl
    exact ⟨order, by simp [List.cons.inj heq]⟩

/-- A run that is empty or ends with a flush leaves nothing to be flushed. -/
theorem flushed_of_getLast {ops : List Operation}
    (h : ∀ op ∈ ops.getLast?, ∃ order, op = .flush order) : Flushed ops := by
  rcases ops.eq_nil_or_concat with rfl | ⟨ops, last, rfl⟩
  · exact fun before op after hsplit => by simp at hsplit
  · obtain ⟨order, rfl⟩ := h last (by simp)
    rw [List.concat_eq_append]
    exact flushed_concat ops order

/-- The outcome of a flush certifies what became of all that was written since the flush before, by an
engine with a single worker.

`before` ends with a flush, or nothing came before, and `since` has no flush; so the batches in question
are those that `since` comes to. With several workers the batches of different groups would be tried in
some order that the operations do not tell. -/
theorem flush_certifies (h : create config = .ok e) (hone : config.workerThreads ≤ 1)
    (before since : List Operation) (order : List Nat)
    (hbefore : ∀ op ∈ before.getLast?, ∃ order, op = .flush order)
    (hsince : ∀ op ∈ since, ∀ order, op ≠ .flush order)
    (hroom : (e.run (before ++ since ++ [Operation.flush order])).pageCount ≤ maxPages) :
    ∃ lists trials, e.Certificate (max config.taskSize 1) before since order lists trials := by
  have hsplit : e.run (before ++ since ++ [Operation.flush order]) =
      (e.run before).run (since ++ [Operation.flush order]) := by rw [List.append_assoc, run_append]
  rw [hsplit] at hroom
  -- the engine has done all its work when `since` begins, and again after the flush
  obtain ⟨c₀, hi₀⟩ := idle_create h hone
  obtain ⟨c₁, extra₁, hi₁, -⟩ :=
    hi₀.run (flushed_of_getLast hbefore) (Nat.le_trans (pageCount_le_run _ _) hroom)
  obtain ⟨c₂, extra₂, hi₂, hledger₂⟩ := hi₁.run (flushed_concat since order) hroom
  obtain ⟨trials, hbatches, htried, hlists, houtcome⟩ := hi₁.exists_trials hsince order hroom
  rw [← hledger₂] at hlists
  rw [← hsplit] at hi₂ hlists
  rw [← run_append] at houtcome
  have hleft (set : EngineSet) (value : ValueId) :
      (e.run (before ++ since ++ [Operation.flush order])).HasList set value
        (((e.run before).recorder.ledger c₁).book.lists set value ++
          tuplesIn set value (trials.map Trial.keptPart)) := by
    rw [← hlists]
    exact hi₂.toWorking.hasList set value
  have hoffered (set : EngineSet) (value : ValueId) :
      tuplesIn set value (trials.map Trial.batch) = written since set value := by
    rw [hbatches, tuplesIn_batches]
  refine ⟨((e.run before).recorder.ledger c₁).book.lists, trials, ?_⟩
  refine ⟨hi₁.toWorking.hasList, hbatches, hoffered, htried, houtcome, hleft, ?_, ?_, ?_⟩
  · -- no batch has failed, so that all are kept as they were offered
    intro hok set value
    have hnone := Pool.verdict_eq_ok_iff.mp (houtcome.symm.trans hok)
    rw [← hoffered, ← htried.kept_eq hnone]
    exact hleft set value
  · have hflush : [Operation.flush order].filterMap Operation.time? = [] := rfl
    have hstamps := hi₂.stamps_found
    rw [List.filterMap_append, hflush, List.append_nil] at hstamps
    exact hstamps
  · intro order' hroom'
    rw [run_append _ _ [Operation.flush order']] at hroom'
    exact hi₂.outcome_flush order' hroom'

/-! ### A batch that fails -/

/-- An event of thread 1 is indexed and flushed. -/
def certifiedOps : List Operation := [.register 5, .index .thread 1 0 Role.any, .flush []]

/-- The event is indexed again, with a later one of the same thread behind it in the batch, and on a
depth. -/
def repeatedOps : List Operation :=
  [.register 7, .index .thread 1 0 Role.any, .index .thread 1 1 Role.any, .index .depth 3 0 Role.any]

set_option maxRecDepth 4000 in
/-- The batch of the thread fails, the one of the depth does not. -/
theorem flush_certifies_small : ∃ e lists trials, create small = .ok e ∧
    e.Certificate 2 certifiedOps repeatedOps [] lists trials ∧
    trials.map Trial.batch = [(1, [(1, .plain 0), (1, .plain 1)]), (2, [(3, .plain 0)])] ∧
    Act.outcome (act (.flush [])) (e.run (certifiedOps ++ repeatedOps)) = .error (.outOfOrder 0 0) := by
  obtain ⟨e, he⟩ : ∃ e, create small = .ok e := ⟨_, rfl⟩
  obtain ⟨lists, trials, hcertificate⟩ := flush_certifies he (le_refl 1) certifiedOps repeatedOps []
    (by rintro _ ⟨⟩; exact ⟨[], rfl⟩)
    (by
      intro op hop order heq
      subst heq
      simp [repeatedOps] at hop)
    (by cases he; cbv)
  refine ⟨e, lists, trials, he, hcertificate, ?_, ?_⟩
  · rw [hcertificate.batches_eq]
    rfl
  · cases he
    cbv

end Engine

end EventIndex
