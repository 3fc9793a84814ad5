import Mathlib.Data.List.Induction
import EventIndex.Proofs.Index.Ingestion

/-! # What a flushed engine holds

A run of operations is a run of calls (`Working.run`). When every write was flushed, the engine is at
rest (`Working.rested`): all events that were registered have their timestamps, and if no flush has
failed, each list has just the tuples that were written to it (`run_spec`).

That nothing is lost on the way is `Account.total_run` and `Timed.run`, which speak of ledgers. Here the
engine's operations are brought down to them: which calls a run comes to (`Engine.callsOf`), and what
these calls write.

Main results:

* `Engine.Working.run`: after any operations the engine is at work, and its ledger did their calls.
* `Engine.Working.rested`: when every write was flushed, nothing is pending and nothing waits.
* `Engine.run_spec`: what the engine holds then.
* `Engine.Registers.get`, `Engine.registers_of_get`: events have the timestamps that they were
  registered at.
-/

namespace EventIndex

open Operation

/-! ## Operations, one after another -/

namespace Engine

variable {e : Engine} {c : Contents} {extra : List OwnerKey} {ops more : List Operation}

/-- A tuple that is pushed gives no page back, with the batch that may be handed on for it. -/
theorem grows_pushVia (set : SetId) (value : ValueId) (t : Tuple) :
    Act.Grows pageCount (pushVia Intake.defer set value t) :=
  grows_onRecorder (Recorder.grows_onIntake (Intake.grows_pushVia Intake.grows_defer set value t))

/-- A value that is indexed is pushed to one list, or to two halves. -/
theorem grows_indexVia (d : Dimension) (value : UInt64) (event : EventId) (r : Role) :
    Act.Grows pageCount (indexVia Intake.defer d value event r) := by
  cases hset : d.set? with
  | some set =>
    rw [indexVia_of_set hset]
    exact grows_pushVia _ _ _
  | none =>
    cases d with
    | object =>
      exact (Act.Grows.ofExcept _).bind fun _ => Act.Grows.bind (fun _ => Nat.le_refl _) fun _ =>
        (grows_pushVia _ _ _).bind fun _ => grows_pushVia _ _ _
    | arrayIndex =>
      exact (Act.Grows.ofExcept _).bind fun _ => (grows_pushVia _ _ _).bind fun _ =>
        grows_pushVia _ _ _
    | _ => cases hset

/-- The pending batches are handed on, set by set. -/
theorem grows_flushSetsVia (ids : List SetId) :
    Act.Grows pageCount (flushSetsVia Intake.defer ids) := by
  induction ids with
  | nil => exact .pure _
  | cons id ids ih =>
    exact (grows_onRecorder (Recorder.grows_onIntake
      (Intake.grows_flushSetVia Intake.grows_defer id))).bind fun _ => ih

/-- Handing everything on gives no page back. -/
theorem grows_handOnAll : Act.Grows pageCount (handOnAll Intake.defer) :=
  Act.Grows.get.bind fun _ => .check <|
    (grows_onRecorder (Recorder.grows_flushStampsVia Intake.grows_defer)).bind fun _ =>
      (grows_flushSetsVia _).bind fun _ => grows_flushSetsVia _

/-- Workers that work in turn give no page back. -/
theorem pageCount_le_workAll (order : List Nat) (s : Intake) :
    s.pageCount ≤ Intake.pageCount (s.workAll Archive.perform order) := by
  induction order generalizing s with
  | nil => exact Nat.le_refl _
  | cons worker order ih => exact Nat.le_trans (s.pageCount_le_work worker) (ih _)

/-- A flush of the pool is work until its barriers are answered. -/
theorem grows_flushPool : Act.Grows Intake.pageCount Intake.flushPool := by
  intro s
  have hsettle : Staffed.settle Archive.perform ⟨s.pool.raiseBarriers, s.state⟩ = _ :=
    Staffed.settleWithin_eq_workAll _ _
  rw [Intake.flushPool, (Staffed.flush_spec Archive.perform s hsettle).1]
  exact pageCount_le_workAll _ ⟨s.pool.raiseBarriers, s.state⟩

/-- No operation takes pages back from the file. -/
theorem pageCount_le_next (e : Engine) (op : Operation) : e.pageCount ≤ (e.next op).pageCount := by
  refine (show Act.Grows pageCount (act op) from ?_) e
  cases op with
  | register time =>
    exact (grows_onRecorder (Recorder.grows_registerVia Intake.grows_defer time)).bind fun _ => .pure _
  | indexRole r event => exact grows_pushVia _ _ _
  | index d value event r => exact grows_indexVia d value event r
  | lookUp set value => exact (grows_lookUp _ _).bind fun _ => .pure _
  | discard set value =>
    exact grows_onRecorder (Recorder.grows_onArchive (Archive.grows_discard _ _))
  | readPage page => exact (grows_onPages (PageFile.grows_read page)).bind fun _ => .pure _
  | work worker => exact fun e => Intake.pageCount_le_work e.recorder.intake worker
  | flush order =>
    exact grows_handOnAll.bind fun _ =>
      Act.Grows.bind (fun e => pageCount_le_workAll order e.recorder.intake) fun _ =>
        grows_onRecorder (Recorder.grows_onIntake grows_flushPool)

/-- A whole run of operations gives no page back. -/
theorem pageCount_le_run (e : Engine) (ops : List Operation) : e.pageCount ≤ (e.run ops).pageCount := by
  induction ops generalizing e with
  | nil => exact Nat.le_refl _
  | cons op ops ih => exact Nat.le_trans (e.pageCount_le_next op) (ih _)

/-- An operation comes to its calls. -/
theorem Working.comesTo_act (hw : e.Working c extra) (op : Operation) :
    e.ComesTo (act op) (op.calls e.recorder) := by
  cases op with
  | register time =>
    exact comesTo_onRecorder _ (Act.after_bind_pure (Recorder.registerVia Intake.defer time) _).symm
  | indexRole r event =>
    have hfit : EntryFits (⟨6, by decide⟩, roleValue r, .plain event) := rfl
    have hpush := hw.comesTo_push hfit
    exact hpush
  | index d value event r => exact hw.comesTo_index d value event r
  | lookUp set value =>
    exact comesTo_onRecorder _ (Act.after_bind_pure (Recorder.onArchive (Archive.lookUp set value)) _).symm
  | discard set value =>
    rw [ComesTo, act, onArchive, after_onRecorder]
    exact ⟨rfl, rfl⟩
  | readPage page =>
    exact comesTo_onRecorder _ (Act.after_bind_pure (Recorder.onPages (PageFile.read page)) _).symm
  | work worker => exact ⟨rfl, rfl⟩
  | flush order => exact (hw.flush_spec order).1

/-- After an operation the engine is still at work, and its ledger did the calls of the operation. -/
theorem Working.next (hw : e.Working c extra) (op : Operation)
    (hroom : (e.next op).pageCount ≤ maxPages) :
    ∃ c' extra', (e.next op).Working c' extra' ∧
      (e.next op).recorder.ledger c' = (e.recorder.ledger c).run (op.calls e.recorder) :=
  let ⟨hrecorder, hlive⟩ := hw.comesTo_act op
  hw.of_recorder hlive hrecorder hroom

/-- After some operations the engine is still at work, and its ledger did their calls. -/
theorem Working.run (hw : e.Working c extra) (ops : List Operation)
    (hroom : (e.run ops).pageCount ≤ maxPages) :
    ∃ c' extra', (e.run ops).Working c' extra' ∧
      (e.run ops).recorder.ledger c' = (e.recorder.ledger c).run (e.callsOf ops) := by
  induction ops generalizing e c extra with
  | nil => exact ⟨c, extra, hw, rfl⟩
  | cons op ops ih =>
    obtain ⟨c₁, extra₁, hw₁, hledger₁⟩ :=
      hw.next op (Nat.le_trans (pageCount_le_run _ ops) hroom)
    obtain ⟨c₂, extra₂, hw₂, hledger₂⟩ := ih hw₁ hroom
    refine ⟨c₂, extra₂, hw₂, ?_⟩
    rw [callsOf, Ledger.run_append, ← hledger₁]
    exact hledger₂

/-- A run of operations may be cut. -/
theorem run_append (e : Engine) (ops more : List Operation) :
    e.run (ops ++ more) = (e.run ops).run more := List.foldl_append

/-- The calls behind a cut are those of the engine that has been reached. -/
theorem callsOf_append (e : Engine) (ops more : List Operation) :
    e.callsOf (ops ++ more) = e.callsOf ops ++ (e.run ops).callsOf more := by
  induction ops generalizing e with
  | nil => rfl
  | cons op ops ih =>
    rw [List.cons_append, callsOf, callsOf, ih, List.append_assoc]
    rfl

end Engine

/-! ## What calls write -/

namespace Operation

/-- Only registering an event has a timestamp. -/
theorem times_calls (op : Operation) (r : Recorder) :
    (op.calls r).filterMap Call.time? = op.time?.toList := by
  have hentries (entries : List (EngineSet × ValueId × Tuple)) :
      (entries.map entryCall).filterMap Call.time? = [] := by
    rw [List.filterMap_map]
    exact List.filterMap_eq_nil_iff.mpr fun _ _ => rfl
  have hworks (workers : List Nat) :
      (workers.map (.work : Nat → Call setShapes.length)).filterMap Call.time? = [] := by
    rw [List.filterMap_map]
    exact List.filterMap_eq_nil_iff.mpr fun _ _ => rfl
  cases op with
  | indexRole role event => exact hentries _
  | index d value event role => exact hentries _
  | flush order =>
    rw [calls, flushCalls]
    simp only [List.filterMap_append, hworks]
    rfl
  | _ => rfl

/-- Only indexing an event writes tuples, those of its entries. -/
theorem written_calls (op : Operation) (r : Recorder) (set : SetId) (value : ValueId) :
    (op.calls r).flatMap (·.written Engine.kind? set value) =
      op.entries.filterMap fun entry =>
        if (entry.1 : SetId) = set ∧ entry.2.1 = value then some entry.2.2 else none := by
  -- operations that write hand on their entries one by one
  have hentries {entries : List (EngineSet × ValueId × Tuple)}
      (hfit : ∀ entry ∈ entries, EntryFits entry) :
      (entries.map entryCall).flatMap (·.written Engine.kind? set value) =
        entries.filterMap fun entry =>
          if (entry.1 : SetId) = set ∧ entry.2.1 = value then some entry.2.2 else none := by
    induction entries with
    | nil => rfl
    | cons entry entries ih =>
      obtain ⟨hentry, hrest⟩ := List.forall_mem_cons.mp hfit
      rw [List.map_cons, List.flatMap_cons, ih hrest, List.filterMap_cons]
      simp only [entryCall, Call.written]
      split
      · rw [hentry]
        rfl
      · rfl
  -- the work of a flush writes nothing new
  have hworks (workers : List Nat) : (workers.map (.work : Nat → Call setShapes.length)).flatMap
      (·.written Engine.kind? set value) = [] := by
    rw [List.flatMap_map]
    exact List.flatMap_eq_nil_iff.mpr fun _ _ => rfl
  cases op with
  | indexRole role event => exact hentries fun entry hentry => (entries_fit hentry).1
  | index d value event role => exact hentries fun entry hentry => (entries_fit hentry).1
  | flush order =>
    rw [calls, flushCalls]
    simp only [List.flatMap_append, hworks]
    rfl
  | _ => rfl

/-- Only a flush takes errors. -/
theorem not_takeError {op : Operation} {r : Recorder} (hop : ∀ order, op ≠ .flush order) :
    ∀ call ∈ op.calls r, call ≠ .takeError := by
  rintro _ hcall rfl
  cases op with
  | indexRole role event => cases (List.mem_map.mp hcall).choose_spec.2
  | index d value event role => cases (List.mem_map.mp hcall).choose_spec.2
  | flush order => exact hop order rfl
  | _ => cases List.mem_singleton.mp hcall

end Operation

/-! ## A flush brings a ledger to rest -/

namespace Ledger

variable {l : Ledger}

/-- When everything was handed on and the workers have emptied their queues, a ledger is at rest. -/
theorem rested_flush (l : Ledger) {order more : List Nat}
    (hempty : ∀ queue ∈ (l.run (flushCalls order ++ more.map .work)).staffed.pool.queues,
      queue = []) :
    (l.run (flushCalls order ++ more.map .work ++ [.takeError])).Rested setShapes.length := by
  -- workers and barriers put nothing back among the pending writes
  have hhanded : (l.run handOnCalls).HandedOn setShapes.length := by
    have hall : ∀ id, id ∈ plainOrder ++ roleOrder := by decide
    rw [handOnCalls, run_cons]
    refine ⟨fun id => pending_flushSets _ (.inl (hall id)), ?_⟩
    rw [timeline_flushSets]
    exact timeline_flushStamps
  have hraised : (l.run (flushCalls order)).HandedOn setShapes.length := by
    have hworked := hhanded.run_works order
    rw [flushCalls, run_append, run_append]
    exact ⟨hworked.pending, hworked.timeline⟩
  have hdone := hraised.run_works more
  rw [← run_append] at hdone
  rw [run_append]
  exact ⟨⟨hdone.pending, hdone.timeline⟩, hempty, rfl⟩

/-- What an operation leaves at rest when it neither writes nor flushes. -/
theorem Rested.read (h : l.Rested setShapes.length) {op : Operation}
    {r : Recorder} (hwrite : op.isWrite = false) (hop : ∀ order, op ≠ .flush order) :
    (l.run (op.calls r)).Rested setShapes.length := by
  cases op with
  | register time => cases hwrite
  | indexRole role event => cases hwrite
  | index d value event role => cases hwrite
  | work worker => exact h.work worker
  | flush order => exact absurd rfl (hop order)
  | _ => exact h

end Ledger

namespace Engine

variable {e : Engine} {c : Contents} {extra : List OwnerKey} {ops : List Operation}

/-- A flush leaves the pool with empty queues before the first error is taken. -/
theorem Working.flushed_pool (hw : e.Working c extra) (order : List Nat)
    (hroom : (e.next (.flush order)).pageCount ≤ maxPages) :
    ∃ workers : List Nat, (Operation.flush order).calls e.recorder =
        flushCalls order ++ workers.map .work ++ [.takeError] ∧
      ((e.recorder.ledger c).run (flushCalls order ++ workers.map .work)).staffed.pool =
        (e.recorder.run (flushCalls order)).settled.pool := by
  obtain ⟨r, hr⟩ : ∃ r, r = e.recorder.run (flushCalls order) := ⟨_, rfl⟩
  let workers := r.intake.settlingOrder Archive.perform r.intake.pool.waiting
  have hcalls : (Operation.flush order).calls e.recorder =
      flushCalls order ++ workers.map .work ++ [.takeError] := by
    rw [calls, ← hr]
  -- the workers are called in the order in which the waiting tasks settle
  have hsettled : e.recorder.run (flushCalls order ++ workers.map .work) =
      { r with intake := r.settled } := by
    rw [Recorder.run_append, ← hr]
    exact Recorder.run_settlingOrder r
  have hroom' : (e.recorder.run (flushCalls order ++ workers.map .work)).pageCount ≤ maxPages := by
    refine Nat.le_trans (Recorder.pageCount_le_run _ [(.takeError : Call setShapes.length)]) ?_
    rw [← Recorder.run_append, ← hcalls, ← (hw.comesTo_act (.flush order)).1]
    exact hroom
  obtain ⟨c', -, hledger⟩ := Recorder.run_spec hw.sound _ hroom'
  refine ⟨workers, hcalls, ?_⟩
  rw [← hledger, hsettled, ← hr]
  rfl

/-- A flush leaves nothing pending and nothing waiting. -/
theorem Working.rested_flush (hw : e.Working c extra) (order : List Nat)
    (hroom : (e.next (.flush order)).pageCount ≤ maxPages) :
    ((e.recorder.ledger c).run ((Operation.flush order).calls e.recorder)).Rested
      setShapes.length := by
  obtain ⟨workers, hcalls, hpool⟩ := hw.flushed_pool order hroom
  rw [hcalls]
  refine Ledger.rested_flush _ fun queue hqueue => ?_
  rw [hpool] at hqueue
  exact Staffed.settle_empty Archive.perform _ queue hqueue

/-- A flush that succeeds found no error. -/
theorem Working.neverFails_flush (hw : e.Working c extra) (order : List Nat)
    (hroom : (e.next (.flush order)).pageCount ≤ maxPages)
    (hok : Act.outcome (act (.flush order)) e = .ok ()) :
    (e.recorder.ledger c).NeverFails ((Operation.flush order).calls e.recorder) := by
  obtain ⟨workers, hcalls, hpool⟩ := hw.flushed_pool order hroom
  have hnone := Pool.verdict_eq_ok_iff.mp ((hw.flush_spec order).2.symm.trans hok)
  rw [← hpool] at hnone
  rw [hcalls, Ledger.neverFails_append]
  refine ⟨Ledger.neverFails_of_noTake ?_, fun _ => hnone, trivial⟩
  rintro _ hcall rfl
  simp [flushCalls, handOnCalls] at hcall

end Engine

/-! ## Flushed engines -/

/-- If everything was flushed before an operation that is no flush, that operation writes nothing. -/
theorem Flushed.of_append {ops : List Operation} {op : Operation} (h : Flushed (ops ++ [op]))
    (hop : ∀ order, op ≠ .flush order) : op.isWrite = false ∧ Flushed ops := by
  refine ⟨?_, fun before write after hsplit hwrite => ?_⟩
  · cases hwrite : op.isWrite with
    | false => rfl
    | true =>
      obtain ⟨order, hmem⟩ := h ops op [] rfl hwrite
      cases hmem
  · obtain ⟨order, hmem⟩ := h before write (after ++ [op]) (by rw [hsplit]; simp) hwrite
    rcases List.mem_append.mp hmem with hmem | hmem
    · exact ⟨order, hmem⟩
    · exact absurd (List.mem_singleton.mp hmem).symm (hop order)

namespace Engine

variable {config : EngineConfig} {e : Engine} {c : Contents} {extra : List OwnerKey}
  {ops : List Operation}

/-- The last operation is one step of the engine. -/
theorem run_concat (e : Engine) (ops : List Operation) (op : Operation) :
    e.run (ops ++ [op]) = (e.run ops).next op := e.run_append ops [op]

/-- When every write was flushed, the engine is at rest. -/
theorem Working.rested (hw : e.Working c extra) (hrest : (e.recorder.ledger c).Rested setShapes.length)
    (hflushed : Flushed ops) (hroom : (e.run ops).pageCount ≤ maxPages) :
    ((e.recorder.ledger c).run (e.callsOf ops)).Rested setShapes.length := by
  induction ops using List.reverseRecOn with
  | nil => exact hrest
  | append_singleton ops op ih =>
    rw [run_concat] at hroom
    obtain ⟨c', extra', hw', hledger⟩ :=
      hw.run ops (Nat.le_trans (pageCount_le_next _ op) hroom)
    have hcalls : e.callsOf (ops ++ [op]) = e.callsOf ops ++ op.calls (e.run ops).recorder := by
      rw [callsOf_append, callsOf, callsOf, List.append_nil]
    rw [hcalls, Ledger.run_append]
    -- a flush brings any ledger to rest, and any other last operation is no write and finds it at rest
    by_cases hop : ∃ order, op = .flush order
    · obtain ⟨order, rfl⟩ := hop
      rw [← hledger]
      exact hw'.rested_flush order hroom
    · obtain ⟨hwrite, hbefore⟩ := hflushed.of_append fun order heq => hop ⟨order, heq⟩
      have hrested := ih hbefore (Nat.le_trans (pageCount_le_next _ op) hroom)
      exact hrested.read hwrite fun order heq => hop ⟨order, heq⟩

/-- The operations' timestamps go to the index as they are, none of them lost or added. -/
theorem times_callsOf (e : Engine) (ops : List Operation) :
    (e.callsOf ops).filterMap Call.time? = ops.filterMap Operation.time? := by
  induction ops generalizing e with
  | nil => rfl
  | cons op ops ih =>
    rw [callsOf, List.filterMap_append, ih, times_calls]
    cases htime : op.time? <;> simp [htime]

/-- Operations lose no timestamp. -/
theorem timed_callsOf {l : Ledger} (ht : l.Timed kind? []) (h : l.Sound kind?) (e : Engine)
    (ops : List Operation) : (l.run (e.callsOf ops)).Timed kind? ((times ops).map .plain) := by
  rw [times, ← times_callsOf e ops]
  exact ht.run h (e.callsOf ops)

/-- The operations' tuples go to the lists of the index as they are, none of them lost or added. -/
theorem written_callsOf (e : Engine) (ops : List Operation) (set : SetId) (value : ValueId) :
    (e.callsOf ops).flatMap (·.written kind? set value) = written ops set value := by
  induction ops generalizing e with
  | nil => rfl
  | cons op ops ih =>
    rw [callsOf, List.flatMap_append, ih, written_calls]
    simp only [written, List.flatMap_cons, List.filterMap_append]

/-- The engine has a kind for each of its sets and for no other. -/
theorem kind?_eq_none_iff {id : SetId} : kind? id = none ↔ setShapes.length ≤ id := by
  rw [kind?, Option.map_eq_none_iff, List.getElem?_eq_none_iff]

/-- Nothing is written where there is no set. -/
theorem written_of_unknown {id : SetId} (h : kind? id = none) (ops : List Operation)
    (value : ValueId) : written ops id value = [] := by
  refine List.filterMap_eq_nil_iff.mpr fun entry _ => if_neg fun heq => ?_
  exact absurd entry.1.isLt (Nat.not_lt.mpr (heq.1 ▸ kind?_eq_none_iff.mp h))

/-- If no flush fails in a run, none fails behind its first operation. -/
theorem FlushesSucceed.tail {op : Operation} (h : e.FlushesSucceed (op :: ops)) :
    (e.next op).FlushesSucceed ops := fun before order after hsplit =>
  h (op :: before) order after (by rw [hsplit]; rfl)

/-- When no flush fails, whoever asks for an error finds none. -/
theorem Working.neverFails (hw : e.Working c extra) (hsucceed : e.FlushesSucceed ops)
    (hroom : (e.run ops).pageCount ≤ maxPages) :
    (e.recorder.ledger c).NeverFails (e.callsOf ops) := by
  induction ops generalizing e c extra with
  | nil => trivial
  | cons op ops ih =>
    obtain ⟨c₁, extra₁, hw₁, hledger₁⟩ :=
      hw.next op (Nat.le_trans (pageCount_le_run _ ops) hroom)
    rw [callsOf, Ledger.neverFails_append, ← hledger₁]
    refine ⟨?_, ih hw₁ hsucceed.tail hroom⟩
    by_cases hop : ∃ order, op = .flush order
    · obtain ⟨order, rfl⟩ := hop
      exact hw.neverFails_flush order (Nat.le_trans (pageCount_le_run _ ops) hroom)
        (hsucceed [] order ops rfl)
    · exact Ledger.neverFails_of_noTake (not_takeError fun order heq => hop ⟨order, heq⟩)

/-- What an engine holds after some operations: all events that were registered have their
timestamps, and if no flush has failed and every write was flushed, each list has what was written to
it. -/
theorem run_spec (h : create config = .ok e) (ops : List Operation)
    (hroom : (e.run ops).pageCount ≤ maxPages) :
    ∃ c extra, (e.run ops).Working c extra ∧
      ((e.run ops).recorder.ledger c).Timed kind? ((times ops).map .plain) ∧
      (Flushed ops → ((e.run ops).recorder.ledger c).Rested setShapes.length) ∧
      (Flushed ops → e.FlushesSucceed ops →
        ∀ id value, ((e.run ops).recorder.ledger c).book.lists id value = written ops id value) := by
  obtain ⟨c₀, hw₀, hrest₀, htimed₀, hlists₀⟩ := create_spec h
  obtain ⟨c, extra, hw, hledger⟩ := hw₀.run ops hroom
  refine ⟨c, extra, hw, ?_, ?_, ?_⟩
  · rw [hledger]
    exact timed_callsOf htimed₀ hw₀.ledger e ops
  · intro hflushed
    rw [hledger]
    exact hw₀.rested hrest₀ hflushed hroom
  · intro hflushed hsucceed id value
    have hrested := hw₀.rested hrest₀ hflushed hroom
    rw [hledger]
    cases hkind : kind? id with
    | none =>
      -- a set that there is not holds nothing, and nothing is written to it
      rw [(hw₀.ledger.run (e.callsOf ops)).unknown id hkind value, written_of_unknown hkind]
    | some k =>
      -- for the others all that is written has arrived, as nothing failed and nothing waits
      have hlt : id < setShapes.length := Nat.lt_of_not_le fun hle => by
        rw [kind?_eq_none_iff.mpr hle] at hkind
        cases hkind
      obtain ⟨-, htotal⟩ := Ledger.total_run hw₀.ledger hkind value
        (hw₀.neverFails hsucceed hroom) hrested.firstError
      rw [hrested.list_eq ⟨id, hlt⟩ hkind value, htotal, written_callsOf,
        ← hrest₀.list_eq ⟨id, hlt⟩ hkind value, hlists₀, List.nil_append]

/-! ### Registered events -/

/-- The timestamps of a longer run are accepted after those of the shorter one. -/
theorem times_append (ops more : List Operation) :
    times (ops ++ more) =
      times ops ++ accepted (times ops).getLast? (more.filterMap Operation.time?) := by
  rw [times, List.filterMap_append, accepted_append, Option.or_none]
  rfl

/-- One operation more adds at most one timestamp. -/
theorem times_concat (ops : List Operation) (op : Operation) :
    times (ops ++ [op]) = times ops ++ accepted (times ops).getLast? op.time?.toList := by
  rw [times_append]
  cases htime : op.time? <;> simp [htime]

/-- An event gets the next number, unless its timestamp lies before the last one. -/
theorem outcome_register (h : create config = .ok e) (ops : List Operation)
    (hroom : (e.run ops).pageCount ≤ maxPages) (time : Timestamp) (event : EventId) :
    Act.outcome (registerVia Intake.defer time) (e.run ops) = .ok event ↔
      (times ops).getLast?.any (time < ·) = false ∧ event = UInt64.ofNat (times ops).length := by
  obtain ⟨c, extra, hw, htimed, -⟩ := run_spec h ops hroom
  have hlast : (e.run ops).recorder.timeline.last = (times ops).getLast? := by
    refine htimed.last.trans ?_
    rw [List.getLast?_map, Option.map_map]
    cases (times ops).getLast? <;> rfl
  have hnext : (e.run ops).recorder.timeline.nextId = UInt64.ofNat (times ops).length := by
    refine htimed.nextId.trans ?_
    rw [List.length_map]
  have hlive : (e.run ops).recorder.timeline.checkLive = .ok () := by
    rw [Timeline.checkLive, hw.sound.isLive, if_neg Bool.false_ne_true]
  rw [registerVia, outcome_onRecorder, (Recorder.register_spec hw.sound time).2.2, Timeline.accept,
    hlive]
  simp only [hlast, hnext]
  cases (times ops).getLast?.any (time < ·) with
  | false => simp [Except.map, eq_comm]
  | true => simp [Except.map]

/-- What was registered stays registered. -/
theorem Registers.append {event : EventId} {time : Timestamp} (h : e.Registers ops event time)
    (more : List Operation) : e.Registers (ops ++ more) event time := by
  obtain ⟨before, after, rfl, hok⟩ := h
  exact ⟨before, after ++ more, by simp, hok⟩

/-- An event that was registered has its timestamp. -/
theorem Registers.get {event : EventId} {time : Timestamp} (hregisters : e.Registers ops event time)
    (h : create config = .ok e) (hroom : (e.run ops).pageCount ≤ maxPages)
    (hfew : (times ops).length < 2 ^ 64) : (times ops)[event.toNat]? = some time := by
  obtain ⟨before, after, rfl, hok⟩ := hregisters
  rw [run_append] at hroom
  obtain ⟨hlate, rfl⟩ := (outcome_register h before
    (Nat.le_trans (pageCount_le_run _ (.register time :: after)) hroom) time event).mp hok
  have hsplit : times (before ++ .register time :: after) =
      times before ++ time :: accepted (some time) (after.filterMap Operation.time?) := by
    rw [times_append, List.filterMap_cons]
    simp only [Operation.time?, accepted, hlate, Bool.false_eq_true, if_false]
  have hlt : (times before).length < 2 ^ 64 := by
    rw [hsplit, List.length_append] at hfew
    omega
  rw [hsplit, UInt64.toNat_ofNat_of_lt' hlt, List.getElem?_append_right (Nat.le_refl _),
    Nat.sub_self]
  rfl

/-- Whoever has a timestamp was registered at that time. -/
theorem registers_of_get (h : create config = .ok e) (hroom : (e.run ops).pageCount ≤ maxPages)
    {event : EventId} {time : Timestamp} (hget : (times ops)[event.toNat]? = some time) :
    e.Registers ops event time := by
  induction ops using List.reverseRecOn with
  | nil => cases hget
  | append_singleton ops op ih =>
    rw [run_concat] at hroom
    have hroom' := Nat.le_trans (pageCount_le_next _ op) hroom
    rw [times_concat] at hget
    -- the event is an earlier one, or the one that the last operation has registered
    by_cases hlt : event.toNat < (times ops).length
    · rw [List.getElem?_append_left hlt] at hget
      exact (ih hroom' hget).append [op]
    · rw [List.getElem?_append_right (Nat.le_of_not_lt hlt)] at hget
      cases op with
      | register time' =>
        simp only [Operation.time?, Option.toList_some, accepted] at hget
        split at hget
        · cases hget
        · rename_i hlate
          obtain ⟨hindex, hget⟩ := List.getElem?_eq_some_iff.mp hget
          rw [List.length_singleton, Nat.lt_one_iff] at hindex
          simp only [hindex, List.getElem_cons_zero] at hget
          subst hget
          refine ⟨ops, [], rfl, (outcome_register h ops hroom' time' event).mpr ⟨by simpa using hlate, ?_⟩⟩
          rw [show (times ops).length = event.toNat by omega, UInt64.ofNat_toNat]
      | _ => cases hget

/-! ### Written tuples -/

/-- Where the tuples of a list come from. -/
theorem mem_written {set : SetId} {value : ValueId} {t : Tuple} :
    t ∈ written ops set value ↔ ∃ op ∈ ops, ∃ entry ∈ op.entries,
      (entry.1 : SetId) = set ∧ entry.2.1 = value ∧ entry.2.2 = t := by
  simp only [written, List.mem_filterMap, List.mem_flatMap, Option.ite_none_right_eq_some,
    Option.some.injEq]
  constructor
  · rintro ⟨entry, ⟨op, hop, hentry⟩, ⟨hset, hvalue⟩, ht⟩
    exact ⟨op, hop, entry, hentry, hset, hvalue, ht⟩
  · rintro ⟨op, hop, entry, hentry, hset, hvalue, ht⟩
    exact ⟨entry, ⟨op, hop, hentry⟩, ⟨hset, hvalue⟩, ht⟩

/-- As long as the pages have not run out, the events have not either. -/
theorem times_lt (h : create config = .ok e) (hflushed : Flushed ops)
    (hroom : (e.run ops).pageCount ≤ maxPages) : (times ops).length < 2 ^ 64 := by
  obtain ⟨c, extra, hw, htimed, hrested, -⟩ := run_spec h ops hroom
  have hfew := hw.sound.stamps_lt hroom
  rwa [(hrested hflushed).stamps_eq.trans htimed.total_eq, List.length_map] at hfew

/-- Events that are indexed have timestamps. -/
theorem Ingests.dated (hi : e.Ingests ops) (h : create config = .ok e)
    (hroom : (e.run ops).pageCount ≤ maxPages) {set : SetId} {value : ValueId} {t : Tuple}
    (ht : t ∈ written ops set value) : t.key.toNat < (times ops).length := by
  obtain ⟨op, hop, entry, hentry, -, -, rfl⟩ := mem_written.mp ht
  obtain ⟨before, after, rfl⟩ := List.append_of_mem hop
  obtain ⟨time, hregisters⟩ := hi.registers before op after rfl _ (entries_fit hentry).2
  have hget := (hregisters.append (op :: after)).get h hroom (times_lt h hi.flushed hroom)
  exact (List.getElem?_eq_some_iff.mp hget).1

/-! ### A small ingestion -/

/-- A small engine, with batches of two and room for all its lists. -/
def small : EngineConfig where
  pageSize := 256
  pageBufferSize := 2048
  pageCachePages := 1
  taskSize := 2
  useThreshold := 1
  workerThreads := 1
  behaviorCount := 0

/-- Three events. The first two are on object 42, in different roles. The third is on the objects 2 and 43,
which have one half each in common with 42, and at array index 3. -/
def smallOps : List Operation :=
  [.register 5, .index .thread 1 0 Role.any, .index .object 42 0 Role.target,
    .index .behavior 12 0 Role.called,
    .register 7, .index .thread 1 1 Role.any, .index .object 42 1 Role.result,
    .index .behavior 12 1 Role.exit,
    .register 7, .index .object 2 2 Role.target, .index .object 43 2 Role.result,
    .index .arrayIndex 3 2 Role.any, .flush []]

/-- What holds at each place of a list, place by place. -/
theorem forall_split_cons {α : Type} {P : List α → α → List α → Prop} {y : α} {ys : List α}
    (hy : P [] y ys)
    (hys : ∀ before x after, ys = before ++ x :: after → P (y :: before) x after) :
    ∀ before x after, y :: ys = before ++ x :: after → P before x after := by
  intro before x after hsplit
  cases before with
  | nil =>
    cases hsplit
    exact hy
  | cons z before =>
    cases hsplit
    exact hys before x after rfl

theorem forall_split_nil {α : Type} {P : List α → α → List α → Prop} :
    ∀ before x after, ([] : List α) = before ++ x :: after → P before x after := by
  intro before x after hsplit
  simp at hsplit

set_option maxRecDepth 4000 in
/-- A short run is an ingestion: its events are registered in order, each value is given to an event that
has its timestamp, and everything is flushed without an error. -/
theorem ingests_small (h : create small = .ok e) : e.Ingests smallOps := by
  have hfirst : Act.outcome (registerVia Intake.defer 5) (e.run []) = .ok 0 := by
    cases h
    cbv
  have hsecond : Act.outcome (registerVia Intake.defer 7) (e.run (smallOps.take 4)) = .ok 1 := by
    cases h
    cbv
  have hthird : Act.outcome (registerVia Intake.defer 7) (e.run (smallOps.take 8)) = .ok 2 := by
    cases h
    cbv
  have hflush : Act.outcome (act (.flush [])) (e.run (smallOps.take 12)) = .ok () := by
    cases h
    cbv
  refine ⟨?_, ?_, ?_⟩
  · -- each event is registered before it is indexed
    have hnone {P : Timestamp → Prop} {event : EventId} (hregister : (none : Option EventId) = some event) :
        ∃ time, P time := absurd hregister.symm (Option.some_ne_none event)
    refine forall_split_cons (fun _ => hnone) <| forall_split_cons ?_ <| forall_split_cons ?_ <|
      forall_split_cons ?_ <| forall_split_cons (fun _ => hnone) <| forall_split_cons ?_ <|
      forall_split_cons ?_ <| forall_split_cons ?_ <| forall_split_cons (fun _ => hnone) <|
      forall_split_cons ?_ <| forall_split_cons ?_ <| forall_split_cons ?_ <|
      forall_split_cons (fun _ => hnone) forall_split_nil
    all_goals rintro _ ⟨⟩
    iterate 3 exact ⟨5, [], _, rfl, hfirst⟩
    iterate 3 exact ⟨7, smallOps.take 4, _, rfl, hsecond⟩
    iterate 3 exact ⟨7, smallOps.take 8, _, rfl, hthird⟩
  · suffices hall : ∀ before op after, smallOps = before ++ op :: after → ∀ order, op = .flush order →
        Act.outcome (act (.flush order)) (e.run before) = .ok () from
      fun before order after hsplit => hall before _ after hsplit order rfl
    iterate 12 refine forall_split_cons (by rintro _ ⟨⟩) ?_
    refine forall_split_cons ?_ forall_split_nil
    rintro _ ⟨⟩
    exact hflush
  · iterate 12 refine forall_split_cons (fun _ => ⟨[], by simp⟩) ?_
    exact forall_split_cons (by rintro ⟨⟩) forall_split_nil

end Engine

end EventIndex
