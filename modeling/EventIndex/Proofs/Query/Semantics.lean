import Mathlib
import EventIndex.Proofs.Query.Answers
import EventIndex.Proofs.Query.Description

/-! # What queries mean

After an ingestion (`Engine.Ingests`), the answer to a query is told by the operations alone: which
events there are by `times`, and which of them are in which lists by `written` (`Ingests.events`,
`Ingests.eventsBefore`). What a condition says of the lists, it says of the operations
(`Condition.describes_eq`). So the engine, its batches, its workers, its pages and its cursors do not
show in the answer (`Engine.queries_answer`).

Main results:

* `Ingests.complete`: the lists of an engine that has ingested events are complete.
* `Ingests.events`, `Ingests.eventsBefore`: the answers, told by the lists.
* `Ingests.finds`: the answers, told by any description of the events that the condition selects.
-/

namespace EventIndex

namespace Engine

variable {config : EngineConfig} {e : Engine} {ops : List Operation} {α : Type}

/-- The lists of an engine that has ingested events. -/
theorem Ingests.complete (hi : e.Ingests ops) (h : create config = .ok e)
    (hroom : (e.run ops).pageCount ≤ maxPages) :
    ∃ c extra, (e.run ops).recorder.Sound setShapes.length c extra ∧
      ((e.run ops).recorder.ledger c).book.Complete ∧
      ((e.run ops).recorder.ledger c).book.times = times ops ∧
      ((e.run ops).recorder.ledger c).book.lists = written ops := by
  obtain ⟨c, extra, hw, htimed, hrested, hlists⟩ := run_spec h ops hroom
  have hstamps := (hrested hi.flushed).stamps_eq.trans htimed.total_eq
  have hwritten : ((e.run ops).recorder.ledger c).book.lists = written ops :=
    funext fun id => funext fun value => hlists hi.flushed hi.succeed id value
  refine ⟨c, extra, hw.sound, ?_, ?_, hwritten⟩
  · refine ⟨congrFun hw.ledger.kind?_eq, fun id value k hk => hw.sound.lists_ordered hk value,
      hw.sound.stamps_ordered, fun id value k hk t ht => ?_, hw.sound.stamps_lt hroom⟩
    rw [hwritten] at ht
    rw [hstamps, List.length_map]
    exact hi.dated h hroom ht
  · rw [Book.times, hstamps, List.map_map]
    exact List.map_id _

/-- A query of an engine that has ingested events. -/
theorem Ingests.outcome_of_gives (hi : e.Ingests ops) (h : create config = .ok e) {x : QueryAct α}
    {P : α → Prop} (hgrows : Act.Grows pageCount x)
    (hroom : (Act.after x (e.run ops)).pageCount ≤ maxPages)
    (hgives : ∀ (b : Book) (ds : Disks), b.Complete → b.times = times ops → b.lists = written ops →
      Gives b ds x fun _ answer => P answer) :
    ∃ answer, Act.outcome x (e.run ops) = .ok answer ∧ P answer := by
  obtain ⟨c, extra, hs, hcomplete, htimes, hlists⟩ :=
    hi.complete h (Nat.le_trans (hgrows (e.run ops)) hroom)
  obtain ⟨answer, e', c', hrun, -, hanswer⟩ := hgives _ _ hcomplete htimes hlists (e.run ops) c extra hs
    rfl (fun d hd => hd) hroom
  exact ⟨answer, Act.outcome_ok hrun, hanswer⟩

theorem Ingests.events (hi : e.Ingests ops) (h : create config = .ok e) {c : Condition}
    (hc : c.isValid = true) (time : Timestamp) (limit : Nat)
    (hroom : (Act.after (Query.events c time limit) (e.run ops)).pageCount ≤ maxPages) :
    ∃ answer, Act.outcome (Query.events c time limit) (e.run ops) = .ok answer ∧
      answer.map Query.dateOf =
        ((timed (times ops)).filter fun p => time ≤ p.2 && c.holds (written ops) p.1).take limit :=
  hi.outcome_of_gives h (Query.grows_events c time limit) hroom fun _ _ hb htimes hlists =>
    htimes ▸ hlists ▸ Query.gives_events hb hc time limit

theorem Ingests.eventsBefore (hi : e.Ingests ops) (h : create config = .ok e) {c : Condition}
    (hc : c.isValid = true) (time : Timestamp) (limit : Nat)
    (hroom : (Act.after (Query.eventsBefore c time limit) (e.run ops)).pageCount ≤ maxPages) :
    ∃ answer, Act.outcome (Query.eventsBefore c time limit) (e.run ops) = .ok answer ∧
      answer.map Query.dateOf =
        ((timed (times ops)).filter fun p => p.2 < time && c.holds (written ops) p.1).reverse.take
          limit :=
  hi.outcome_of_gives h (Query.grows_eventsBefore c time limit) hroom fun _ _ hb htimes hlists =>
    htimes ▸ hlists ▸ Query.gives_eventsBefore hb hc time limit

/-- The numbered timestamps are the events that were registered. -/
theorem Ingests.mem_timed (hi : e.Ingests ops) (h : create config = .ok e)
    (hroom : (e.run ops).pageCount ≤ maxPages) {event : EventId} {time : Timestamp} :
    (event, time) ∈ timed (times ops) ↔ e.Registers ops event time := by
  have hfew := times_lt h hi.flushed hroom
  rw [EventIndex.mem_timed hfew]
  exact ⟨registers_of_get h hroom, fun hregisters => hregisters.get h hroom hfew⟩

/-- As long as the pages do not run out, queries on a condition find the registered events of a kind, each
once and in order: those from any time on, or the last of those before it, the latest first. -/
def Finds (e : Engine) (ops : List Operation) (c : Condition) (kind : EventId → Bool) : Prop :=
  ∃ events : List (EventId × Timestamp),
    (∀ event t, (event, t) ∈ events ↔ e.Registers ops event t) ∧
    events.Pairwise (fun p q => p.1 < q.1) ∧
    ∀ time limit,
      ((Act.after (Query.events c time limit) (e.run ops)).pageCount ≤ maxPages →
        ∃ found, Act.outcome (Query.events c time limit) (e.run ops) = .ok found ∧
          found.map Query.dateOf = (events.filter fun p => time ≤ p.2 && kind p.1).take limit) ∧
      ((Act.after (Query.eventsBefore c time limit) (e.run ops)).pageCount ≤ maxPages →
        ∃ found, Act.outcome (Query.eventsBefore c time limit) (e.run ops) = .ok found ∧
          found.map Query.dateOf =
            (events.filter fun p => p.2 < time && kind p.1).reverse.take limit)

/-- Queries find the events that a condition describes, by whatever other words these are told. -/
theorem Ingests.finds (hi : e.Ingests ops) (h : create config = .ok e)
    (hroom : (e.run ops).pageCount ≤ maxPages) {c : Condition} (hc : c.isValid = true)
    {kind : EventId → Bool} (hkind : ∀ event, c.describes ops event = kind event) :
    e.Finds ops c kind := by
  obtain rfl : (fun event => c.holds (written ops) event) = kind :=
    funext fun event => (Condition.describes_eq hc event).trans (hkind event)
  exact ⟨timed (times ops), fun event t => hi.mem_timed h hroom,
    timed_strict (times_lt h hi.flushed hroom), fun time limit =>
    ⟨hi.events h hc time limit, hi.eventsBefore h hc time limit⟩⟩

/-- Queries answer with the events that were registered and that the condition describes.

Nothing in the statement knows of lists: `Condition.describes` reads the operations. That the lists say
the same is `Condition.describes_eq`, and that the cursors find what the lists say is `gives_cursor`. -/
theorem queries_answer (h : create config = .ok e) (hi : e.Ingests ops)
    (hroom : (e.run ops).pageCount ≤ maxPages) {c : Condition} (hc : c.isValid = true) :
    e.Finds ops c fun event => c.describes ops event :=
  hi.finds h hroom hc fun _ => rfl

/-- Events that enter behavior 12 with object 42 as the target, or that are at array index 3. -/
def smallCondition : Condition :=
  .any [.all [.leaf ⟨.behavior, 12, some .behaviorEnter⟩, .leaf ⟨.object, 42, some .target⟩],
    .leaf ⟨.arrayIndex, 3, none⟩]

set_option maxRecDepth 4000 in
/-- The second event is of behavior 12 and on object 42 too, but at the exit and as the result. -/
theorem queries_answer_small :
    ∃ e, create small = .ok e ∧ e.Ingests smallOps ∧
      e.Finds smallOps smallCondition (fun event => smallCondition.describes smallOps event) ∧
      (∃ found, Act.outcome (Query.events smallCondition 5 10) (e.run smallOps) = .ok found ∧
        found.map Query.dateOf = [(0, 5), (2, 7)]) ∧
      (∃ found, Act.outcome (Query.eventsBefore smallCondition 7 10) (e.run smallOps) = .ok found ∧
        found.map Query.dateOf = [(0, 5)]) ∧
      [0, 1, 2].map (smallCondition.describes smallOps) = [true, false, true] := by
  obtain ⟨e, he⟩ : ∃ e, create small = .ok e := ⟨_, rfl⟩
  have hroom : (e.run smallOps).pageCount ≤ maxPages := by
    cases he
    cbv
  have hfinds := queries_answer he (ingests_small he) hroom (c := smallCondition) (by decide)
  refine ⟨e, he, ingests_small he, hfinds, ?_, ?_, by decide +kernel⟩
  · refine ⟨[⟨0, 5, .called⟩, ⟨2, 7, .any⟩], ?_, rfl⟩
    cases he
    cbv
  · refine ⟨[⟨0, 5, .called⟩], ?_, rfl⟩
    cases he
    cbv

end Engine

end EventIndex
