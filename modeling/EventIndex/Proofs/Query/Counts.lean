import EventIndex.Proofs.Query.Histogram

/-! # Counts of an engine

A list that was looked up may be counted by time at any later moment, by range counts or by a walk along
any cursor of it. Once the timestamps were flushed both ways agree, and the counts are those of
`slotCounts` (`Engine.counts_agree`). `Engine.CountsSafely` says that nothing is computed on the way that
leaves its bounds.

Main results:

* `outcome_fastCounts`, `outcome_walkCounts`: each way to count gives `slotCounts`, at one moment.
* `countsSafely`: no number on the way leaves its bounds.
* `Working.looked_up`: what was looked up at some time is read at any later time.
-/

namespace EventIndex

open Cursor

/-- Opens a cursor, makes some moves and then counts along it. -/
def Snapshot.walkCounts (view stamps : Snapshot) (o : Opening) (moves : List Move) (t1 t2 : Timestamp)
    (slots : Nat) : Act PageFile (List Nat) := do
  let cursor ← view.opened o
  Over.runOn cursor do
    let _ ← Move.walk moves
    Histogram.walkCounts stamps t1 t2 slots

namespace Engine

variable {config : EngineConfig} {e : Engine} {n : Nat} {c : Contents} {extra : List OwnerKey}
  {ts : List Tuple} {view : Snapshot} {t1 t2 : Timestamp}

/-- The counts of a list by a walk. -/
def walkCounts (view : Snapshot) (o : Opening) (moves : List Move) (t1 t2 : Timestamp) (slots : Nat) :
    Act Engine (List Nat) := do
  onPages (view.walkCounts (← get).stamps o moves t1 t2 slots)

/-- Nothing that is computed to count a list leaves its bounds, and nothing is taken away from less. -/
structure CountsSafely (e : Engine) (view : Snapshot) (t1 t2 : Timestamp) (slots : Nat) : Prop where
  fit : SlotsFit t1 t2 slots
  /-- A walk looks events up whose timestamps lie between the two times. -/
  walked : ∃ start stop, Act.outcome (eventLowerBound t1) e = .ok start ∧
    Act.outcome (eventLowerBound t2) e = .ok stop ∧ start ≤ stop ∧ stop < 2 ^ 64 ∧
    ∀ event : EventId, start ≤ event.toNat → event.toNat < stop →
      ∃ time, Act.outcome (onPages (e.stamps.timestampOf event)) e = .ok (some time) ∧
        t1 ≤ time ∧ time < t2
  /-- A range does not end before it begins. -/
  ranges : ∀ k1 k2, k1 ≤ k2 → ∃ low high, Act.outcome (onPages (view.lowerBound k1)) e = .ok low ∧
    Act.outcome (onPages (view.lowerBound k2)) e = .ok high ∧ low ≤ high

/-! ## Counting at one moment -/

section Moment

variable {times : List Timestamp} {slots : Nat} (hs : e.recorder.Sound n c extra)
include hs

/-- What reads from all later disks has its answer now. -/
theorem outcome_onPages {α : Type} {x : Act PageFile α} {a : α}
    (hx : PageFile.Reads (e.recorder.later n c) x a) : Act.outcome (onPages x) e = .ok a :=
  let ⟨_, hrun, _⟩ := onPages_spec hs hx hs.later_self
  Act.outcome_ok hrun

/-- So has what looks at the timestamps of the engine. -/
theorem outcome_onStamps {α : Type} {f : Snapshot → Act PageFile α} {a : α}
    (hf : PageFile.Reads (e.recorder.later n c) (f e.stamps) a) :
    Act.outcome (do onPages (f (← get).stamps)) e = .ok a := by
  have hget : (get : Act Engine Engine) e = .ok e e := rfl
  rw [Act.outcome_congr (Act.bind_ok hget)]
  exact outcome_onPages hs hf

variable (hstamps : Views (times.map Tuple.plain) (e.recorder.later n c) e.stamps)
include hstamps

theorem outcome_eventLowerBound (time : Timestamp) :
    Act.outcome (eventLowerBound time) e = .ok (firstEvent times time) :=
  outcome_onStamps hs (f := fun stamps => stamps.lowerBound time) (hstamps.reads_lowerBound time)

variable (hfew : times.length < 2 ^ 64)
include hfew

theorem outcome_fastCounts (hview : Views ts (e.recorder.later n c) view) :
    Act.outcome (fastCounts view t1 t2 slots) e = .ok (slotCounts times t1 t2 slots ts) := by
  unfold fastCounts
  split
  · rename_i hempty
    rw [slotCounts_of_empty hempty]
    rfl
  · rename_i hsome
    obtain ⟨hpos, hle⟩ := not_or.mp hsome
    have h := UInt64.not_le.mp hle
    have hcounts := reads_countSlots hview hstamps hfew h slots 0 (Nat.zero_add slots)
    rw [boundary_zero h (Nat.pos_of_ne_zero hpos), ← List.range_eq_range'] at hcounts
    exact outcome_onStamps hs
      (f := fun stamps => do countSlots stamps view t1 t2 slots slots 0 (← stamps.lowerBound t1))
      ((hstamps.reads_lowerBound t1).bind hcounts)

theorem outcome_walkCounts (hview : Views ts (e.recorder.later n c) view) (hslots : slots < 2 ^ 64)
    (o : Opening) (moves : List Move) :
    Act.outcome (walkCounts view o moves t1 t2 slots) e = .ok (slotCounts times t1 t2 slots ts) := by
  obtain ⟨chunks, hlies, rfl⟩ := hview
  obtain ⟨x, hopened, hx⟩ := hlies.reads_opened o
  obtain ⟨x₁, p, hwalk, hx₁⟩ := hx.walk moves
  obtain ⟨x₂, hcounts⟩ := hx₁.walkCounts hstamps hfew hslots
  exact outcome_onStamps hs (f := fun stamps => view.walkCounts stamps o moves t1 t2 slots)
    (hopened.bind (hwalk.bind hcounts).runOn)

theorem countsSafely (hview : Views ts (e.recorder.later n c) view) (hslots : slots < 2 ^ 64)
    (h : t1 < t2) (hpos : 0 < slots) : e.CountsSafely view t1 t2 slots where
  fit := slotsFit h hslots hpos
  walked := by
    refine ⟨_, _, outcome_eventLowerBound hs hstamps t1, outcome_eventLowerBound hs hstamps t2,
      place_mono _ (UInt64.le_of_lt h), Nat.lt_of_le_of_lt (firstEvent_le times t2) hfew,
      fun event hlow hhigh => ?_⟩
    obtain ⟨time, hget, hafter, hbefore⟩ := exists_time_of_between hstamps.sorted hlow hhigh
    exact ⟨time, outcome_onPages hs (hget ▸ hstamps.reads_timestampOf event), hafter, hbefore⟩
  ranges k1 k2 hle := by
    obtain ⟨chunks, hlies, -⟩ := hview
    exact ⟨_, _, outcome_onPages hs (hlies.reads_lowerBound k1),
      outcome_onPages hs (hlies.reads_lowerBound k2), place_mono _ hle⟩

end Moment

/-! ## Runs -/

/-- What was looked up during a run is read at its end. -/
theorem Working.looked_up (hw : e.Working c extra) {ops before after : List Operation} {set : EngineSet}
    {value : ValueId} (hops : ops = before ++ .lookUp set value :: after)
    (hroom : (e.run ops).pageCount ≤ maxPages) :
    ∃ view ts c' extra', Act.outcome (lookUp set value) (e.run before) = .ok view ∧
      (e.run ops).recorder.Sound setShapes.length c' extra' ∧
      (e.run ops).recorder.ledger c' = (e.recorder.ledger c).run (e.callsOf ops) ∧
      Views ts ((e.run ops).recorder.later setShapes.length c') view := by
  subst hops
  rw [run_append] at hroom ⊢
  have hroom₂ : ((e.run before).next (.lookUp set value)).pageCount ≤ maxPages :=
    Nat.le_trans (pageCount_le_run _ after) hroom
  -- before the look-up, at it, and after it
  obtain ⟨c₁, extra₁, hw₁, hledger₁⟩ := hw.run before (Nat.le_trans (pageCount_le_next _ _) hroom₂)
  have hnext : (e.run before).next (.lookUp set value) =
      Act.after (lookUp set value) (e.run before) := Act.after_bind_pure _ _
  obtain ⟨view, chunks, e₂, c₂, hrun, hsame, hlies, -⟩ :=
    lookUp_spec hw₁.sound set value (hnext ▸ hroom₂)
  have hnext₂ : (e.run before).next (.lookUp set value) = e₂ := hnext.trans (Act.after_ok hrun)
  have hw₂ : e₂.Working c₂ extra₁ := by
    refine ⟨hsame.step.sound, ?_, ?_⟩
    · rw [hsame.ledger_eq]
      exact hw₁.ledger
    · rw [← hnext₂]
      exact (hw₁.comesTo_act _).2.trans hw₁.isLive
  have hafter : (e.run before).run (.lookUp set value :: after) = e₂.run after := by
    rw [← hnext₂]
    rfl
  rw [hafter] at hroom ⊢
  have hcalls := hw₂.recorder_run after hroom
  obtain ⟨c₃, hstep, hledger₃⟩ := Recorder.run_spec hw₂.sound (e₂.callsOf after)
    (hcalls ▸ hroom)
  rw [← hcalls] at hstep hledger₃
  refine ⟨view, _, c₃, _, Act.outcome_ok hrun, hstep.sound, ?_, chunks,
    hlies.narrow ⟨⟨_, hstep.sound.later_self⟩, fun d hd => hstep.later hd⟩, rfl⟩
  rw [hledger₃, hsame.ledger_eq, hledger₁, callsOf_append, Ledger.run_append, callsOf, ← hnext₂]
  rfl

/-- Both ways to count agree, on any list that was looked up at any time: the counts are those of the
tuples whose events have their timestamps in each slot.

The timestamps have to be flushed, for a range count sees only events whose timestamps are in their
list. For the walk it makes no difference where the cursor is opened and how it was moved before, as it
begins with a seek. -/
theorem counts_agree (h : create config = .ok e) {ops before after : List Operation} {set : EngineSet}
    {value : ValueId} (hops : ops = before ++ .lookUp set value :: after) (hflushed : TimesFlushed ops)
    (hroom : (e.run ops).pageCount ≤ maxPages) (t1 t2 : Timestamp) (slots : Nat)
    (hslots : slots < 2 ^ 64) :
    ∃ view ts, Act.outcome (lookUp set value) (e.run before) = .ok view ∧
      Act.outcome (onPages view.toList) (e.run ops) = .ok ts ∧
      Act.outcome (fastCounts view t1 t2 slots) (e.run ops) =
        .ok (slotCounts (times ops) t1 t2 slots ts) ∧
      (∀ o moves, Act.outcome (walkCounts view o moves t1 t2 slots) (e.run ops) =
        .ok (slotCounts (times ops) t1 t2 slots ts)) ∧
      (t1 < t2 → 0 < slots → (e.run ops).CountsSafely view t1 t2 slots) := by
  obtain ⟨c₀, hw₀, -, htimed, -⟩ := create_spec h
  obtain ⟨view, ts, c, extra, hlookUp, hs, hledger, hview⟩ := hw₀.looked_up hops hroom
  have hbook := hw₀.stamps_run htimed hflushed hroom
  rw [← hledger] at hbook
  -- all that was registered was flushed, so the timestamps in the list are those of the operations
  obtain ⟨hlies, htuples⟩ := stamps_spec hs
  have hstamps : Views ((times ops).map Tuple.plain) ((e.run ops).recorder.later setShapes.length c)
      (e.run ops).stamps := ⟨_, hlies, htuples.trans hbook⟩
  have hfew := hs.stamps_lt hroom
  rw [hbook, List.length_map] at hfew
  have hlist : PageFile.Reads ((e.run ops).recorder.later setShapes.length c) view.toList ts := by
    obtain ⟨chunks, hviewLies, rfl⟩ := hview
    exact Snapshot.reads_toList hviewLies
  exact ⟨view, ts, hlookUp, outcome_onPages hs hlist, outcome_fastCounts hs hstamps hfew hview,
    outcome_walkCounts hs hstamps hfew hview hslots, countsSafely hs hstamps hfew hview hslots⟩

/-- Two events of thread 1, and a third one that was never registered. -/
def datedOps : List Operation :=
  [.register 5, .register 7, .index .thread 1 0 Role.any, .index .thread 1 1 Role.any,
    .index .thread 1 9 Role.any, .flush []]

/-- What a reader sees who looks up thread 1. -/
def datedView : Snapshot where
  kind := .plain
  directory := #[]
  tail := #[.plain 0, .plain 1, .plain 9]
  sealedLength := 0

/-- The list is looked up when all is flushed. -/
def datedRun : List Operation := datedOps ++ [.lookUp ⟨1, by decide⟩ 1]

theorem timesFlushed_dated : TimesFlushed datedRun := by
  suffices hall : ∀ before op after, datedRun = before ++ op :: after →
      ∀ time, op = .register time → ∃ order, Operation.flush order ∈ after from
    fun before time after hsplit => hall before _ after hsplit time rfl
  exact forall_split_cons (fun _ _ => ⟨[], by simp⟩) <| forall_split_cons (fun _ _ => ⟨[], by simp⟩) <|
    forall_split_cons (by rintro _ ⟨⟩) <| forall_split_cons (by rintro _ ⟨⟩) <|
      forall_split_cons (by rintro _ ⟨⟩) <| forall_split_cons (by rintro _ ⟨⟩) <|
        forall_split_cons (by rintro _ ⟨⟩) forall_split_nil

set_option maxRecDepth 4000 in
/-- Two slots for three units of time, and one event in each. -/
theorem counts_agree_small :
    ∃ e, create small = .ok e ∧
      Act.outcome (lookUp 1 1) (e.run datedOps) = .ok datedView ∧
      Act.outcome (fastCounts datedView 5 8 2) (e.run datedRun) = .ok [1, 1] ∧
      Act.outcome (walkCounts datedView .last [.previous] 5 8 2) (e.run datedRun) = .ok [1, 1] ∧
      (e.run datedRun).CountsSafely datedView 5 8 2 := by
  obtain ⟨e, he⟩ : ∃ e, create small = .ok e := ⟨_, rfl⟩
  have hops : datedRun = datedOps ++ .lookUp ⟨1, by decide⟩ 1 :: [] := rfl
  obtain ⟨view, ts, hview, hlist, hfast, hwalk, hsafe⟩ :=
    counts_agree he hops timesFlushed_dated (by cases he; cbv) 5 8 2 (by decide)
  have hsmall : Act.outcome (lookUp 1 1) (e.run datedOps) = .ok datedView := by
    cases he
    cbv
  -- the theorem gives some snapshot and some list; they are those that were computed
  obtain rfl : view = datedView := Except.ok.inj (hview.symm.trans hsmall)
  have hread : Act.outcome (onPages datedView.toList) (e.run datedRun) =
      .ok [.plain 0, .plain 1, .plain 9] := by
    cases he
    cbv
  obtain rfl : ts = [.plain 0, .plain 1, .plain 9] := Except.ok.inj (hlist.symm.trans hread)
  have hcounts : slotCounts (times datedRun) 5 8 2 [.plain 0, .plain 1, .plain 9] = [1, 1] := by
    decide
  rw [hcounts] at hfast hwalk
  exact ⟨e, he, hsmall, hfast, hwalk .last [.previous], hsafe (by decide) (by decide)⟩

end Engine

end EventIndex
