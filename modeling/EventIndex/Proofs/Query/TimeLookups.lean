import Mathlib.Order.Bounds.Defs
import EventIndex.Proofs.Query.Histogram

/-! # Looking times up

Events are registered and their timestamps flushed among whatever else happens to an index. The
timestamps that were accepted (`accepted`) decide what comes of the next registration (`Dates`), and
after a flush they are what every lookup answers from (`LooksUpTimes`): the number of an event is the
place of its timestamp among them, whatever batches and pages it came through.

Main results:

* `Views.reads_atOrAfter`, `Views.reads_atOrBefore`, `Views.reads_eventRange`: what a list of timestamps
  answers.
* `KeepsTime.run`, `KeepsTime.flush`: any calls, and a flush, account for the accepted timestamps.
* `KeepsTime.dates`: the next event is numbered by them.
* `KeepsTime.looksUpTimes`: every lookup answers from them.
-/

namespace EventIndex

open Cursor

variable {n : Nat}

/-! ## Places among timestamps -/

section Places

variable {times : List Timestamp} {time t1 t2 : Timestamp} {event : Nat}

/-- The number of the first event after a time. -/
def nextEvent (times : List Timestamp) (time : Timestamp) : Nat :=
  (times.map Tuple.plain).countP fun t => t.key ≤ time

/-- The first event after a time is the first at or after the next one, unless there is no next. -/
theorem nextEvent_eq (times : List Timestamp) (time : Timestamp) :
    nextEvent times time = if time = maxKey then times.length else firstEvent times (time + 1) := by
  split
  · rename_i hmax
    rw [nextEvent, List.countP_eq_length.mpr, List.length_map]
    intro t _
    rw [decide_eq_true_eq, hmax]
    exact le_maxKey t.key
  · rename_i hmax
    refine List.countP_congr fun t _ => ?_
    rw [maxKey] at hmax
    simp only [decide_eq_true_eq]
    grind

theorem from_firstEvent_iff (hsorted : Sorted (times.map Tuple.plain)) :
    (∃ stamp, times[event]? = some stamp ∧ time ≤ stamp) ↔
      firstEvent times time ≤ event ∧ event < times.length := by
  rw [← Nat.not_lt, lt_firstEvent_iff hsorted]
  cases hget : times[event]? with
  | none =>
    have hend := List.getElem?_eq_none_iff.mp hget
    simpa using hend
  | some stamp =>
    have hlt := (List.getElem?_eq_some_iff.mp hget).1
    simp [UInt64.not_lt, hlt]

theorem before_nextEvent_iff (hsorted : Sorted (times.map Tuple.plain)) :
    (∃ stamp, times[event]? = some stamp ∧ stamp ≤ time) ↔ event < nextEvent times time := by
  rw [nextEvent_eq]
  split
  · rename_i hmax
    -- no event can be later than the last time there is
    cases hget : times[event]? with
    | none =>
      have hend := List.getElem?_eq_none_iff.mp hget
      simpa using hend
    | some stamp =>
      have hlt := (List.getElem?_eq_some_iff.mp hget).1
      simp [hmax, le_maxKey, hlt]
  · rename_i hmax
    rw [lt_firstEvent_iff hsorted]
    cases times[event]? with
    | none => simp
    | some stamp =>
      rw [maxKey] at hmax
      simp only [Option.some.injEq, exists_eq_left', Option.any_some, decide_eq_true_eq]
      grind

theorem between_events_iff (hsorted : Sorted (times.map Tuple.plain)) :
    (∃ stamp, times[event]? = some stamp ∧ t1 ≤ stamp ∧ stamp < t2) ↔
      firstEvent times t1 ≤ event ∧ event < firstEvent times t2 := by
  constructor
  · rintro ⟨stamp, hget, hlow, hhigh⟩
    refine ⟨((from_firstEvent_iff hsorted).mp ⟨stamp, hget, hlow⟩).1, ?_⟩
    rw [lt_firstEvent_iff hsorted, hget]
    simpa using hhigh
  · rintro ⟨hlow, hhigh⟩
    exact exists_time_of_between hsorted hlow hhigh

end Places

/-! ## What a list of timestamps answers -/

section Lookups

variable {times : List Timestamp} {ds : Disks} {stamps : Snapshot}

theorem Views.length_eq (hstamps : Views (times.map Tuple.plain) ds stamps) :
    stamps.length = times.length := by
  obtain ⟨chunks, hlies, htuples⟩ := hstamps
  rw [← hlies.length_eq, htuples, List.length_map]

/-- The event at or after a time is the first that has such a timestamp. -/
theorem Views.reads_atOrAfter (hstamps : Views (times.map Tuple.plain) ds stamps) (time : Timestamp) :
    ∃ answer, PageFile.Reads ds (stamps.eventAt time .atOrAfter) answer ∧
      (∀ i, answer = some i ↔
        IsLeast {j | ∃ stamp, times[j]? = some stamp ∧ time ≤ stamp} i) ∧
      (answer = none ↔ ∀ stamp ∈ times, stamp < time) := by
  have hset : {j | ∃ stamp, times[j]? = some stamp ∧ time ≤ stamp} =
      {j | firstEvent times time ≤ j ∧ j < times.length} :=
    Set.ext fun j => from_firstEvent_iff hstamps.sorted
  refine ⟨_, (hstamps.reads_lowerBound time).bind (.pure _), ?_⟩
  rw [hset, hstamps.length_eq]
  by_cases hlt : firstEvent times time < times.length
  · rw [if_pos hlt]
    refine ⟨fun i => ⟨fun heq => ?_, fun hleast => ?_⟩, iff_of_false (by simp) fun hall => ?_⟩
    · -- the search answers with the least event of the set
      obtain rfl := Option.some.inj heq
      exact ⟨⟨Nat.le_refl _, hlt⟩, fun j hj => hj.1⟩
    · have hle := hleast.2 ⟨Nat.le_refl _, hlt⟩
      exact congrArg some (Nat.le_antisymm hleast.1.1 hle)
    · obtain ⟨stamp, hget, hle⟩ := (from_firstEvent_iff hstamps.sorted).mpr ⟨Nat.le_refl _, hlt⟩
      exact UInt64.not_lt.mpr hle (hall stamp (List.mem_of_getElem? hget))
  · rw [if_neg hlt]
    -- the search ran to the end: the set is empty
    refine ⟨fun i => iff_of_false (by simp) fun hleast => hlt ?_, iff_of_true rfl fun stamp hmem => ?_⟩
    · exact Nat.lt_of_le_of_lt hleast.1.1 hleast.1.2
    · obtain ⟨j, hget⟩ := List.mem_iff_getElem?.mp hmem
      refine UInt64.not_le.mp fun hle => hlt ?_
      have hplace := (from_firstEvent_iff hstamps.sorted).mp ⟨stamp, hget, hle⟩
      exact Nat.lt_of_le_of_lt hplace.1 hplace.2

/-- The event at or before a time is the last that has such a timestamp. -/
theorem Views.reads_atOrBefore (hstamps : Views (times.map Tuple.plain) ds stamps) (time : Timestamp) :
    ∃ answer, PageFile.Reads ds (stamps.eventAt time .atOrBefore) answer ∧
      (∀ i, answer = some i ↔
        IsGreatest {j | ∃ stamp, times[j]? = some stamp ∧ stamp ≤ time} i) ∧
      (answer = none ↔ ∀ stamp ∈ times, time < stamp) := by
  have hset : {j | ∃ stamp, times[j]? = some stamp ∧ stamp ≤ time} =
      {j | j < nextEvent times time} :=
    Set.ext fun j => before_nextEvent_iff hstamps.sorted
  have hreads : PageFile.Reads ds (stamps.upperBound time) (nextEvent times time) := by
    obtain ⟨chunks, hlies, htuples⟩ := hstamps
    have hupper := hlies.reads_upperBound time
    rwa [htuples] at hupper
  refine ⟨_, hreads.bind (.pure _), ?_⟩
  -- the times up to the one sought are those of the events in front of a place
  rw [hset]
  by_cases hzero : nextEvent times time = 0
  · rw [if_pos hzero]
    refine ⟨fun i => iff_of_false (by simp) fun hgreatest => ?_, iff_of_true rfl fun stamp hmem => ?_⟩
    · have hlt : i < nextEvent times time := hgreatest.1
      omega
    · obtain ⟨j, hget⟩ := List.mem_iff_getElem?.mp hmem
      refine UInt64.not_le.mp fun hle => ?_
      have hplace := (before_nextEvent_iff hstamps.sorted).mp ⟨stamp, hget, hle⟩
      omega
  · rw [if_neg hzero]
    -- the last event in front of that place is the greatest
    have hlast : nextEvent times time - 1 < nextEvent times time := by omega
    refine ⟨fun i => ⟨fun heq => ?_, fun hgreatest => ?_⟩, iff_of_false (by simp) fun hall => ?_⟩
    · obtain rfl := Option.some.inj heq
      exact ⟨hlast, fun j hj => Nat.le_pred_of_lt hj⟩
    · have hle := hgreatest.2 hlast
      have hlt : i < nextEvent times time := hgreatest.1
      exact congrArg some (by omega)
    · obtain ⟨stamp, hget, hle⟩ := (before_nextEvent_iff hstamps.sorted).mpr hlast
      exact UInt64.not_lt.mpr hle (hall stamp (List.mem_of_getElem? hget))

/-- A range has the events with a timestamp in it, for any two times. -/
theorem Views.reads_eventRange (hstamps : Views (times.map Tuple.plain) ds stamps)
    (t1 t2 : Timestamp) :
    ∃ start stop, PageFile.Reads ds (stamps.eventRange t1 t2) (start, stop) ∧ start ≤ stop ∧
      ∀ i, (start ≤ i ∧ i < stop) ↔
        ∃ stamp, times[i]? = some stamp ∧ t1 ≤ stamp ∧ stamp < t2 := by
  have hstart := hstamps.reads_lowerBound t1
  by_cases hle : t2 ≤ t1
  · refine ⟨firstEvent times t1, firstEvent times t1, hstart.bind ?_, Nat.le_refl _, fun i => ?_⟩
    · rw [if_pos hle]
      exact .pure _
    · refine iff_of_false (by omega) ?_
      rintro ⟨stamp, -, hlow, hhigh⟩
      exact UInt64.not_lt.mpr (UInt64.le_trans hle hlow) hhigh
  · refine ⟨firstEvent times t1, firstEvent times t2, hstart.bind ?_,
      place_mono _ (UInt64.le_of_lt (UInt64.not_le.mp hle)),
      fun i => (between_events_iff hstamps.sorted).symm⟩
    rw [if_neg hle]
    exact (hstamps.reads_lowerBound t2).bind (.pure _)

end Lookups

/-! ## Flushing timestamps -/

namespace Recorder

/-- Hands the pending timestamps on, lets some workers take jobs in an order, and waits for all. -/
def flushTimes (order : List Nat) : Act Recorder Unit := do
  flushStampsVia Intake.defer
  modify fun r => { r with intake := r.intake.workAll Archive.perform order }
  onIntake Intake.flushPool

/-- The calls that hand the timestamps on and have the barriers raised. -/
def flushTimesCalls (order : List Nat) : List (Call n) :=
  .flushStamps :: order.map .work ++ [.raiseBarriers]

variable {r : Recorder} {c : Contents} {extra : List OwnerKey}

/-- A flush comes to calls: timestamps are handed on, workers take jobs, and the error is taken. -/
theorem after_flushTimes (hs : r.Sound n c extra) (order : List Nat) :
    Act.after (flushTimes order) r =
      (r.run (flushTimesCalls order : List (Call n))).run
        (settlingCalls (r.run (flushTimesCalls order : List (Call n))) : List (Call n)) := by
  obtain ⟨r₁, hrun₁, -, -⟩ := flushStamps_spec hs
  have hnext : r.next (.flushStamps : Call n) = r₁ := Act.after_ok hrun₁
  let r₂ : Recorder := { r₁ with intake := r₁.intake.workAll Archive.perform order }
  have hact : flushTimes order r = onIntake Intake.flushPool r₂ := by
    unfold flushTimes
    rw [Act.bind_ok hrun₁]
    rfl
  have hraised : r₂.next (.raiseBarriers : Call n) = r.run (flushTimesCalls order : List (Call n)) := by
    have hworks : r₂ = r.run (.flushStamps :: order.map .work : List (Call n)) := by
      show r₂ = (r.next (.flushStamps : Call n)).run (order.map .work)
      rw [hnext, run_works]
    rw [flushTimesCalls, run_append, ← hworks]
    rfl
  rw [Act.after_congr hact]
  exact (flushPool_spec r₂ hraised).1

/-- No call of a flush registers anything. -/
theorem times_of_flush (raised : Recorder) (order : List Nat) :
    (flushTimesCalls order ++ settlingCalls raised : List (Call n)).filterMap Call.time? = [] := by
  have hworks (workers : List Nat) :
      (workers.map (Call.work : Nat → Call n)).filterMap Call.time? = [] := by
    rw [List.filterMap_map]
    exact List.filterMap_eq_nil_iff.mpr fun _ _ => rfl
  rw [flushTimesCalls, settlingCalls, List.filterMap_append, List.filterMap_append,
    List.filterMap_append, List.filterMap_cons, hworks, hworks]
  rfl

/-- A flush leaves no timestamp pending and no job behind. -/
theorem empty_after_flushTimes (hs : r.Sound n c extra) (order : List Nat) :
    (Act.after (flushTimes order) r).timeline.pending = #[] ∧
      ∀ queue ∈ (Act.after (flushTimes order) r).intake.pool.queues, queue = [] := by
  rw [after_flushTimes hs]
  generalize hraised : r.run (flushTimesCalls order : List (Call n)) = raised
  rw [settlingCalls, run_append, run_settlingOrder]
  refine ⟨?_, Staffed.settle_empty Archive.perform raised.intake⟩
  -- only the first call of a flush has to do with the timeline
  obtain ⟨r₁, hrun₁, -, hledger⟩ := flushStamps_spec hs
  have hnext : r.next (.flushStamps : Call n) = r₁ := Act.after_ok hrun₁
  have htimeline : raised.timeline = r₁.timeline := by
    rw [← hraised, flushTimesCalls, run_append]
    show ((r.next (.flushStamps : Call n)).run (order.map (.work : Nat → Call n))).timeline = _
    rw [hnext, run_works]
  have hpending : (r₁.ledger c).timeline.pending = #[] := by
    rw [hledger]
    exact Ledger.timeline_flushStamps (n := n) (l := r.ledger c)
  show raised.timeline.pending = #[]
  rw [htimeline]
  exact hpending

/-! ## Registering events -/

/-- What comes of events to be registered and of timestamps to be appended, when `times` were accepted
so far. -/
structure Dates (r : Recorder) (n : Nat) (times : List Timestamp) : Prop where
  /-- An event that does not go back gets the next number. -/
  register : ∀ time, (∀ last, times.getLast? = some last → last ≤ time) →
    Act.outcome (registerVia Intake.defer time) r = .ok (UInt64.ofNat times.length)
  /-- An event that goes back is refused, and nothing changes. -/
  refuse : ∀ time last, times.getLast? = some last → time < last →
    registerVia Intake.defer time r = .error (.outOfOrder time last) r
  /-- Timestamps that come to a worker are appended without an error. -/
  append : ∀ (worker : Nat) (stamps : List Tuple) (rest : List (Job Task)),
    r.intake.pool.queues[worker]? = some (.task (.stamps stamps) :: rest) →
    Act.outcome (Archive.perform (.stamps stamps)) r.archive = .ok ()
  /-- A flush is nothing but calls that register no event. -/
  flush : ∀ order, ∃ calls : List (Call n), calls.filterMap Call.time? = [] ∧
    Act.after (flushTimes order) r = r.run calls

/-- Every lookup by time or by number answers from `times`. -/
structure LooksUpTimes (r : Recorder) (times : List Timestamp) : Prop where
  /-- The numbers of all events are numbers of 64 bits. -/
  length_lt : times.length < 2 ^ 64
  length_eq : r.archive.stamps.snapshot.length = times.length
  timestampOf : ∀ event : EventId,
    Act.outcome (onPages (r.archive.stamps.snapshot.timestampOf event)) r = .ok times[event.toNat]?
  atOrAfter : ∀ time, ∃ answer,
    Act.outcome (onPages (r.archive.stamps.snapshot.eventAt time .atOrAfter)) r = .ok answer ∧
      (∀ i, answer = some i ↔
        IsLeast {j | ∃ stamp, times[j]? = some stamp ∧ time ≤ stamp} i) ∧
      (answer = none ↔ ∀ stamp ∈ times, stamp < time)
  atOrBefore : ∀ time, ∃ answer,
    Act.outcome (onPages (r.archive.stamps.snapshot.eventAt time .atOrBefore)) r = .ok answer ∧
      (∀ i, answer = some i ↔
        IsGreatest {j | ∃ stamp, times[j]? = some stamp ∧ stamp ≤ time} i) ∧
      (answer = none ↔ ∀ stamp ∈ times, time < stamp)
  eventRange : ∀ t1 t2, ∃ start stop,
    Act.outcome (onPages (r.archive.stamps.snapshot.eventRange t1 t2)) r = .ok (start, stop) ∧
      start ≤ stop ∧ ∀ i, (start ≤ i ∧ i < stop) ↔
        ∃ stamp, times[i]? = some stamp ∧ t1 ≤ stamp ∧ stamp < t2

/-- An index that holds the timestamps of its events answers every lookup from them. -/
theorem Sound.looksUpTimes {times : List Timestamp} (hs : r.Sound n c extra)
    (hroom : r.pageCount ≤ maxPages)
    (hstamps : (r.ledger c).book.stamps = times.map Tuple.plain) : r.LooksUpTimes times := by
  have hviews : Views (times.map Tuple.plain) (r.later n c) r.archive.stamps.snapshot :=
    ⟨c.stamps, hs.stampsLieOnAll, hstamps⟩
  have hreads {α : Type} {x : Act PageFile α} {a : α} (h : PageFile.Reads (r.later n c) x a) :
      Act.outcome (onPages x) r = .ok a := outcome_onPages hs h hs.later_self
  have hlength := hs.stamps_lt hroom
  rw [hstamps, List.length_map] at hlength
  refine ⟨hlength, hviews.length_eq, fun event => hreads (hviews.reads_timestampOf event),
    fun time => ?_, fun time => ?_, fun t1 t2 => ?_⟩
  · obtain ⟨answer, hanswer, hfirst⟩ := hviews.reads_atOrAfter time
    exact ⟨answer, hreads hanswer, hfirst⟩
  · obtain ⟨answer, hanswer, hlast⟩ := hviews.reads_atOrBefore time
    exact ⟨answer, hreads hanswer, hlast⟩
  · obtain ⟨start, stop, hanswer, hrange⟩ := hviews.reads_eventRange t1 t2
    exact ⟨start, stop, hreads hanswer, hrange⟩

end Recorder

/-! ## Keeping time -/

namespace Recorder

variable {r : Recorder} {c : Contents} {extra : List OwnerKey} {kind? : SetId → Option Kind}
  {times : List Timestamp}

/-- An index that accounts for `times`, the timestamps accepted so far. -/
structure KeepsTime (r : Recorder) (n : Nat) (c : Contents) (extra : List OwnerKey)
    (kind? : SetId → Option Kind) (times : List Timestamp) : Prop where
  sound : r.Sound n c extra
  ledger : (r.ledger c).Sound kind?
  timed : (r.ledger c).Timed kind? (times.map Tuple.plain)

theorem getLast?_times (times : List Timestamp) :
    (times.map Tuple.plain).getLast?.map Tuple.key = times.getLast? := by
  rw [List.getLast?_map, Option.map_map]
  exact Option.map_id'

/-- An index that accounts for its timestamps numbers the next event by them. -/
theorem KeepsTime.dates (h : r.KeepsTime n c extra kind? times) : r.Dates n times := by
  obtain ⟨hs, hl, ht⟩ := h
  have hlast : r.timeline.last = times.getLast? := ht.last.trans (getLast?_times times)
  have hcheck : r.timeline.checkLive = .ok () := by
    rw [Timeline.checkLive, hs.isLive, if_neg Bool.false_ne_true]
  refine ⟨fun time hnext => ?_, fun time last hget hlt => ?_, fun worker stamps rest hget => ?_,
    fun order => ?_⟩
  · -- a time in order gets the next number
    obtain ⟨-, -, houtcome⟩ := register_spec hs time
    have hnot : r.timeline.last.any (time < ·) = false := by
      rw [hlast]
      cases hget : times.getLast? with
      | none => rfl
      | some last => simpa using UInt64.not_lt.mpr (hnext last hget)
    have hid : r.timeline.nextId = UInt64.ofNat times.length := by
      have h := ht.nextId
      rwa [List.length_map] at h
    rw [houtcome, Timeline.accept, hcheck]
    simp only [hnot, Bool.false_eq_true, if_false, hid]
    rfl
  · -- an earlier one is refused, whatever else there is
    have hrefuse : r.timeline.accept time = .error (.outOfOrder time last) := by
      rw [Timeline.accept, hcheck, hlast, hget]
      simp [hlt]
    have hread : (MonadState.get : Act Recorder Recorder) r = .ok r r := rfl
    unfold registerVia
    rw [Act.bind_ok hread, hrefuse]
    rfl
  · -- the times that wait are in order, so a worker appends all of them
    have hfits : Archive.Fits (r.archive.book c) (.stamps stamps) :=
      hs.queues _ (List.mem_of_getElem? hget) _ List.mem_cons_self
    obtain ⟨c', hperforms⟩ := Archive.appendStamps_spec hs.archive hs.tidy hfits
    have hbook := ht.perform_stamps hl hget
    exact hperforms.outcome_eq.trans (Act.outcome_ok hbook)
  · -- a flush hands on the times that are left
    refine ⟨_, times_of_flush (r.run (flushTimesCalls order : List (Call n))) order, ?_⟩
    rw [after_flushTimes hs, run_append]

/-- Any calls add the timestamps that they have accepted, and the list of timestamps only grows. -/
theorem KeepsTime.run (h : r.KeepsTime n c extra kind? times) (calls : List (Call n))
    (hroom : (r.run calls).pageCount ≤ maxPages) :
    ∃ c' extra', (r.run calls).KeepsTime n c' extra' kind?
        (times ++ accepted times.getLast? (calls.filterMap Call.time?)) ∧
      (r.ledger c).book.stamps <+: ((r.run calls).ledger c').book.stamps := by
  obtain ⟨c', hstep, hledger⟩ := run_spec h.sound calls hroom
  refine ⟨c', _, ⟨hstep.sound, ?_, ?_⟩, ?_⟩
  · rw [hledger]
    exact h.ledger.run calls
  · rw [hledger, List.map_append, ← getLast?_times]
    exact h.timed.run h.ledger calls
  · rw [hledger]
    exact Ledger.stamps_prefix_run h.ledger calls

/-- Calls that register nothing leave the timestamps as they are. -/
theorem KeepsTime.run_of_none (h : r.KeepsTime n c extra kind? times) {calls : List (Call n)}
    (hnone : calls.filterMap Call.time? = []) (hroom : (r.run calls).pageCount ≤ maxPages) :
    ∃ c' extra', (r.run calls).KeepsTime n c' extra' kind? times ∧
      (r.ledger c).book.stamps <+: ((r.run calls).ledger c').book.stamps := by
  obtain ⟨c', extra', hrun, hgrown⟩ := h.run calls hroom
  rw [hnone, accepted, List.append_nil] at hrun
  exact ⟨c', extra', hrun, hgrown⟩

/-- After a flush all timestamps are in their list. -/
theorem KeepsTime.flush (h : r.KeepsTime n c extra kind? times) (order : List Nat)
    (hroom : (Act.after (flushTimes order) r).pageCount ≤ maxPages) :
    ∃ c' extra', (Act.after (flushTimes order) r).KeepsTime n c' extra' kind? times ∧
      ((Act.after (flushTimes order) r).ledger c').book.stamps = times.map Tuple.plain := by
  obtain ⟨hpending, hqueues⟩ := empty_after_flushTimes h.sound order
  rw [after_flushTimes h.sound order, ← run_append] at hpending hqueues hroom ⊢
  obtain ⟨c', extra', hflushed, -⟩ := h.run_of_none (times_of_flush _ order) hroom
  exact ⟨c', extra', hflushed,
    (Ledger.stamps_eq_of_empty hpending hqueues).trans hflushed.timed.total_eq⟩

/-- Once all timestamps are in their list, they stay there and are looked up until there are more. -/
theorem KeepsTime.looksUpTimes (h : r.KeepsTime n c extra kind? times)
    (hstamps : (r.ledger c).book.stamps = times.map Tuple.plain) {later : List (Call n)}
    (hnone : later.filterMap Call.time? = []) (hroom : (r.run later).pageCount ≤ maxPages) :
    (r.run later).LooksUpTimes times := by
  obtain ⟨c', extra', hlater, hkept⟩ := h.run_of_none hnone hroom
  rw [hstamps] at hkept
  exact hlater.sound.looksUpTimes hroom
    (hkept.eq_of_length_le hlater.timed.stamps_prefix.length_le).symm

end Recorder

/-! ## A run -/

namespace Setup

variable {u : Setup} {r : Recorder}

open Recorder

/-- A fresh index has no timestamps. -/
theorem keepsTime_start (h : u.start = .ok r) :
    r.KeepsTime u.shapes.length (Archive.freshContents u.shapes) [] u.ledger.book.kind? [] := by
  obtain ⟨hs, hledger, -⟩ := start_spec h
  have hqueues : ∀ queue ∈ u.ledger.staffed.pool.queues, queue = [] :=
    fun queue hqueue => List.eq_of_mem_replicate hqueue
  refine ⟨hs, ?_, ?_⟩
  · rw [hledger]
    exact Ledger.sound_start u
  · rw [hledger]
    exact ⟨(Ledger.stamps_eq_of_empty rfl hqueues).symm, .nil, rfl, rfl⟩

/-- Whatever has happened to an index, the timestamps accepted so far number the next event. After a
flush every lookup answers from them, as long as no other event is registered.

The workers may take the jobs of the flush in any order, and any calls that register nothing may come
between the flush and the look-up. -/
theorem times_looked_up (h : u.start = .ok r) (before : List (Call u.shapes.length))
    (hroom : (r.run before).pageCount ≤ maxPages) :
    (r.run before).Dates u.shapes.length (accepted none (before.filterMap Call.time?)) ∧
    ∀ (order : List Nat) (later : List (Call u.shapes.length)), later.filterMap Call.time? = [] →
      ((Act.after (flushTimes order) (r.run before)).run later).pageCount ≤ maxPages →
      ((Act.after (flushTimes order) (r.run before)).run later).LooksUpTimes
        (accepted none (before.filterMap Call.time?)) := by
  obtain ⟨c, extra, hbefore, -⟩ := (keepsTime_start h).run before hroom
  refine ⟨hbefore.dates, fun order later hnone hroom' => ?_⟩
  obtain ⟨c', extra', hflushed, hstamps⟩ :=
    hbefore.flush order (Nat.le_trans (pageCount_le_run _ later) hroom')
  exact hflushed.looksUpTimes hstamps hnone hroom'

set_option maxRecDepth 4000 in
/-- Four events, one of which goes back, and a set that is written to after the flush. -/
theorem times_looked_up_small :
    ∃ r, small.start = .ok r ∧ ∃ before : List (Call 2),
      before = [.register 10, .register 10, .register 5, .register 20] ∧
      (r.run before).pageCount ≤ maxPages ∧ (r.run before).Dates 2 [10, 10, 20] ∧
      ((Act.after (flushTimes [0]) (r.run before)).run
        ([.push 0 1 0 none, .flushSet 0] : List (Call 2))).LooksUpTimes [10, 10, 20] := by
  obtain ⟨r, hr⟩ : ∃ r, small.start = .ok r := ⟨_, rfl⟩
  have hroom : (r.run ([.register 10, .register 10, .register 5, .register 20] :
      List (Call 2))).pageCount ≤ maxPages := by
    cases hr
    cbv
  obtain ⟨hdates, hlooks⟩ := times_looked_up (u := small) hr _ hroom
  refine ⟨r, hr, _, rfl, hroom, hdates, hlooks [0] _ rfl ?_⟩
  cases hr
  cbv

end Setup

end EventIndex
