import EventIndex.Proofs.Query.Counts
import EventIndex.Proofs.Query.Semantics

/-! # Counts of a condition

A condition that is one leaf without roles is counted on its list by range counts, and any other
condition by a walk along its cursor. Both ways count the events that satisfy the condition, each once
(`gives_direct`, `gives_walkedCounts`), and these are the events that a query without a limit finds
(`Engine.counts_tally_events`). So a condition that selects the same events in other words has the same
counts, whichever way they are computed.

Main results:

* `histogram_eq_tally`: the events that a query finds, counted slot by slot.
* `gives_fastCounts`, `gives_walkedCounts`, `gives_counts`: what each way of counting gives.
* `Condition.Restates.holds`: other words for the same condition.
-/

namespace EventIndex

open Cursor

variable {b : Book} {ds : Disks} {c : Condition} {t1 t2 : Timestamp} {slots : Nat}

/-! ## Tuples and events in slots -/

namespace Query

/-- Whether a timestamp lies before the last time and in a slot. -/
def fallsIn (t1 t2 : Timestamp) (slots i : Nat) (time : Timestamp) : Bool :=
  time < t2 && slotOf time t1 t2 slots = i

/-- The number of events found in each slot. -/
def histogram (t1 t2 : Timestamp) (slots : Nat) (found : List EventMatch) : List Nat :=
  (List.range slots).map fun i => found.countP fun m => fallsIn t1 t2 slots i m.time

/-- The number of events of a kind in each slot. -/
def tally (times : List Timestamp) (kind : EventId → Bool) (t1 t2 : Timestamp) (slots : Nat) :
    List Nat :=
  (List.range slots).map fun i =>
    ((timed times).filter fun p => t1 ≤ p.2 && kind p.1).countP fun p => fallsIn t1 t2 slots i p.2

/-- No slot has events if there is no time between the two times. -/
theorem histogram_of_le (h : t2 ≤ t1) {found : List EventMatch} (hfound : ∀ m ∈ found, t1 ≤ m.time) :
    histogram t1 t2 slots found = List.replicate slots 0 := by
  refine List.eq_replicate_iff.mpr ⟨by simp [histogram], ?_⟩
  intro n hn
  obtain ⟨i, -, rfl⟩ := List.mem_map.mp hn
  refine List.countP_eq_zero.mpr ?_
  intro m hm
  have hlate : ¬ m.time < t2 := UInt64.not_lt.mpr (UInt64.le_trans h (hfound m hm))
  simp [fallsIn, hlate]

/-- The events that a query finds, counted. -/
theorem histogram_eq_tally {times : List Timestamp} {kind : EventId → Bool} {found : List EventMatch}
    (h : found.map dateOf = (timed times).filter fun p => t1 ≤ p.2 && kind p.1) :
    histogram t1 t2 slots found = tally times kind t1 t2 slots := by
  rw [histogram, tally, ← h]
  simp only [List.countP_map]
  rfl

end Query

/-- A tuple is in a slot when its event has its timestamp there. -/
theorem Book.inSlot_iff {t : Tuple} (hdated : t.key.toNat < b.stamps.length) (hslots : slots < 2 ^ 64)
    {i : Nat} (hi : i < slots) :
    inSlot b.times t1 t2 slots i t = true ↔
      t1 ≤ b.timeOf t.key ∧ Query.fallsIn t1 t2 slots i (b.timeOf t.key) = true := by
  rw [inSlot, b.times_eq_some hdated, Option.any_some, decide_eq_true_eq, Query.fallsIn,
    Bool.and_eq_true, decide_eq_true_eq, decide_eq_true_eq]
  by_cases hbetween : t1 ≤ b.timeOf t.key ∧ b.timeOf t.key < t2
  · -- the two ways of cutting the time agree where there is some
    obtain ⟨hlow, hhigh⟩ := hbetween
    have hfit := slotsFit (UInt64.lt_of_le_of_lt hlow hhigh) hslots (Nat.zero_lt_of_lt hi)
    obtain ⟨-, -, hslot, -⟩ := hfit.slots _ hlow hhigh
    rw [hslot, Option.some.injEq]
    exact ⟨fun h => ⟨hlow, hhigh, h⟩, fun h => h.2.2⟩
  · rw [slot?, if_neg hbetween]
    constructor
    · intro hnone
      cases hnone
    · rintro ⟨hlow, hhigh, -⟩
      exact absurd ⟨hlow, hhigh⟩ hbetween

/-- A list that chooses the events of a kind has their counts. -/
theorem Book.Chooses.slotCounts_eq {kind : EventId → Bool} {ts : List Tuple} (h : b.Chooses kind ts)
    (hb : b.Complete) (hslots : slots < 2 ^ 64) :
    slotCounts b.times t1 t2 slots ts = Query.tally b.times kind t1 t2 slots := by
  refine List.map_congr_left ?_
  intro i hi
  rw [← h.map_filter_eq hb (q := fun event => t1 ≤ b.timeOf event) (r := fun t => t1 ≤ t)
    fun _ _ => rfl, List.countP_map, List.countP_filter]
  refine List.countP_congr ?_
  intro t ht
  rw [Book.inSlot_iff (h.dated t ht) hslots (List.mem_range.mp hi)]
  simp [and_comm]

/-! ## Growth -/

theorem Snapshot.grows_countInRange (v : Snapshot) (k1 k2 : UInt64) :
    Act.Grows PageFile.pageCount (v.countInRange k1 k2) :=
  .ite (.pure _) ((v.grows_lowerBound _).bind fun _ => (v.grows_lowerBound _).bind fun _ => .pure _)

namespace Engine

/-- Counting slot by slot is so many searches in two lists. -/
theorem grows_countSlots (stamps view : Snapshot) (t1 t2 : Timestamp) (slots left i first : Nat) :
    Act.Grows PageFile.pageCount (countSlots stamps view t1 t2 slots left i first) := by
  induction left generalizing i first with
  | zero => exact .pure _
  | succ left ih =>
    refine (stamps.grows_lowerBound _).bind fun stop => ?_
    dsimp only
    split
    · exact (view.grows_countInRange _ _).bind fun _ => (ih _ _).bind fun _ => .pure _
    · exact (Act.Grows.pure _).bind fun _ => (ih _ _).bind fun _ => .pure _

theorem grows_fastCounts (view : Snapshot) (t1 t2 : Timestamp) (slots : Nat) :
    Act.Grows pageCount (fastCounts view t1 t2 slots) :=
  .ite (.pure _) <| Act.Grows.get.bind fun _ => grows_onPages <|
    (Snapshot.grows_lowerBound _ _).bind fun _ => grows_countSlots _ _ _ _ _ _ _ _

end Engine

section Growth

variable {C : Type} [Cursor C] (hc : Cursor.Growing C)
include hc

/-- A walk takes steps of the cursor and reads timestamps. -/
theorem Histogram.grows_walkFrom (stamps : Snapshot) (t1 t2 : Timestamp) (slots stop fuel : Nat)
    (counts : Array Nat) :
    Act.Grows Over.pageCount (walkFrom (C := C) stamps t1 t2 slots stop fuel counts) := by
  induction fuel generalizing counts with
  | zero => exact .pure _
  | succ fuel ih =>
    refine hc.next.bind_option (.pure _) fun t => ?_
    refine .ite (.pure _) ?_
    exact (Over.grows_read ((stamps.grows_get _).bind fun _ => .pure _)).bind_option (.pure _)
      fun time => ih _

theorem Histogram.grows_walkCounts (stamps : Snapshot) (t1 t2 : Timestamp) (slots : Nat) :
    Act.Grows Over.pageCount (walkCounts (C := C) stamps t1 t2 slots) :=
  .ite (.pure _) <| (Over.grows_read (stamps.grows_lowerBound _)).bind fun _ =>
    (Over.grows_read (stamps.grows_lowerBound _)).bind fun _ => (hc.seek _).bind fun _ =>
      Over.grows_current.bind fun _ => (grows_walkFrom hc _ _ _ _ _ _ _).bind fun _ => .pure _

end Growth

namespace Query

theorem grows_countsOf (x : AnyCursor) (t1 t2 : Timestamp) (slots : Nat) :
    Act.Grows Engine.pageCount (countsOf x t1 t2 slots) :=
  Act.Grows.get.bind fun _ => (QueryAct.grows_ofAct (Engine.grows_onOver x
    (Histogram.grows_walkCounts AnyCursor.growing _ _ _ _))).bind fun _ => .pure _

theorem grows_walkedCounts (c : Condition) (t1 t2 : Timestamp) (slots : Nat) :
    Act.Grows Engine.pageCount (walkedCounts c t1 t2 slots) :=
  (QueryAct.grows_ofAct (Act.Grows.get.bind fun _ => Engine.grows_onPages
    (Snapshot.grows_lowerBound _ _))).bind fun _ => (Plan.grows_cursor _ c).bind fun _ =>
      grows_countsOf _ _ _ _

/-- Whichever way a condition is counted, no page is taken back. -/
theorem grows_counts (c : Condition) (t1 t2 : Timestamp) (slots : Nat) :
    Act.Grows Engine.pageCount (counts c t1 t2 slots) := by
  unfold counts
  split
  · exact (Plan.grows_lookUp _ _).bind fun _ =>
      QueryAct.grows_ofAct (Engine.grows_fastCounts _ _ _ _)
  · exact grows_walkedCounts _ _ _ _

end Query

/-! ## Two ways to count -/

/-- The list of timestamps holds timestamps and nothing else. -/
theorem Book.Complete.stamps_eq (hb : b.Complete) : b.stamps = b.times.map Tuple.plain := by
  rw [Book.times, List.map_map]
  refine (List.map_id' _).symm.trans (List.map_congr_left ?_)
  intro t ht
  have hrole : t.role.isSome = false := hb.stampsOrdered.holds t ht
  obtain ⟨key, role⟩ := t
  rw [Option.isSome_eq_false_iff, Option.isNone_iff_eq_none] at hrole
  subst hrole
  rfl

/-- The timestamps that a query sees. -/
theorem Book.Complete.gives_stamps (hb : b.Complete) :
    Gives b ds (get : QueryAct Engine) fun ds' e => Views (b.times.map Tuple.plain) ds' e.stamps :=
  hb.stamps_eq ▸ Gives.getStamps

/-- There are not more timestamps than events can be numbered. -/
theorem Book.Complete.few_times (hb : b.Complete) : b.times.length < 2 ^ 64 := by
  rw [b.length_times]
  exact hb.few

namespace Query

variable {view : Snapshot} {ts : List Tuple} {l : Leaf} {set : SetId}

/-- Range counts of a list. -/
theorem gives_fastCounts (hb : b.Complete) (hview : Views ts ds view) :
    Gives b ds (QueryAct.ofAct (Engine.fastCounts view t1 t2 slots)) fun _ counts =>
      counts = slotCounts b.times t1 t2 slots ts := by
  unfold Engine.fastCounts
  split
  · rename_i hempty
    rw [slotCounts_of_empty hempty]
    exact .pure fun _ _ => rfl
  · rename_i hsome
    obtain ⟨hpos, hle⟩ := not_or.mp hsome
    have h := UInt64.not_le.mp hle
    rw [QueryAct.ofAct_bind]
    refine hb.gives_stamps.bind ?_ ?_
    · intro e ds' hds' hstamps
      have hcounts := reads_countSlots (hview.narrow hds') hstamps hb.few_times h slots 0
        (Nat.zero_add slots)
      rw [boundary_zero h (Nat.pos_of_ne_zero hpos), ← List.range_eq_range'] at hcounts
      exact .onPages ((hstamps.reads_lowerBound t1).bind hcounts)
    · intro e
      exact QueryAct.grows_ofAct (Engine.grows_onPages ((Snapshot.grows_lowerBound _ _).bind
        fun _ => Engine.grows_countSlots _ _ _ _ _ _ _ _))

/-- A walk along a cursor, wherever it stands. -/
theorem gives_countsOf (hb : b.Complete) (hslots : slots < 2 ^ 64) {x : AnyCursor} {p : Nat}
    (hx : Shows ds x ts p) :
    Gives b ds (countsOf x t1 t2 slots) fun _ counts =>
      counts = slotCounts b.times t1 t2 slots ts := by
  refine hb.gives_stamps.bind ?_ ?_
  · intro e ds' hds' hstamps
    obtain ⟨x', hwalk⟩ := (hx.mono hds'.sub).walkCounts hstamps hb.few_times hslots
    refine (Gives.onOver hwalk).bind ?_ fun _ => .pure _
    rintro _ ds₂ - rfl
    exact .pure fun _ _ => rfl
  · intro e
    exact (QueryAct.grows_ofAct (Engine.grows_onOver x
      (Histogram.grows_walkCounts AnyCursor.growing _ _ _ _))).bind fun _ => .pure _

/-- A walk counts the events that satisfy the condition. -/
theorem gives_walkedCounts (hb : b.Complete) (hc : c.isValid = true) (hslots : slots < 2 ^ 64) :
    Gives b ds (walkedCounts c t1 t2 slots) fun _ counts =>
      counts = tally b.times (fun event => c.holds b.lists event) t1 t2 slots := by
  refine (Gives.eventLowerBound t1).bind ?_ fun _ => (Plan.grows_cursor _ c).bind fun _ =>
    grows_countsOf _ _ _ _
  rintro _ ds₁ - rfl
  refine (Plan.gives_cursor hb ds₁ c hc).bind ?_ fun _ => grows_countsOf _ _ _ _
  rintro x ds₂ - ⟨ts, p, hshows, hts⟩
  rw [← hts.slotCounts_eq hb hslots]
  exact gives_countsOf hb hslots (AnyCursor.shows_of_cursor hshows)

/-- The list of a leaf without a role chooses the events that satisfy it. -/
theorem chooses_plain (hb : b.Complete) (hset : l.dimension.plainSet? = some set)
    (hrole : l.role.isNone = true) :
    b.Chooses (fun event => l.holds b.lists event) (b.lists set l.value.toUInt32) := by
  obtain ⟨htagged, hset⟩ := Option.ite_none_left_eq_some.mp hset
  have hkind : b.kind? set = some .plain := by
    rw [hb.kind_of_set hset, Dimension.kind, if_neg htagged]
  refine ⟨hb.strict hkind _, ?_, hb.dated set _ .plain hkind⟩
  intro event
  rw [l.holds_iff_of_set hset, l.filter_accepts hrole]

/-- Only a leaf without a role, whose dimension has a list of its own, is counted on its list. -/
theorem directSet?_eq_some (h : directSet? c = some (l, set)) :
    c = .leaf l ∧ l.role.isNone = true ∧ l.dimension.plainSet? = some set := by
  cases c with
  | leaf l' =>
    obtain ⟨hrole, hset⟩ := Option.ite_none_right_eq_some.mp h
    obtain ⟨set', hset, heq⟩ := Option.map_eq_some_iff.mp hset
    cases heq
    exact ⟨rfl, hrole, hset⟩
  | all operands => cases h
  | any operands => cases h

/-- Whichever way is taken, the events that satisfy the condition are counted. -/
theorem gives_counts (hb : b.Complete) (hc : c.isValid = true) (hslots : slots < 2 ^ 64) :
    Gives b ds (counts c t1 t2 slots) fun _ counts =>
      counts = tally b.times (fun event => c.holds b.lists event) t1 t2 slots := by
  unfold counts
  split
  · -- one leaf without a role, counted on its list
    rename_i l set hdirect
    obtain ⟨rfl, hrole, hset⟩ := directSet?_eq_some hdirect
    have hchooses := chooses_plain hb hset hrole
    have hset' : l.dimension.set? = some set := (Option.ite_none_left_eq_some.mp hset).2
    rw [Condition.isValid] at hc
    refine (Plan.gives_lookUp hc hset').bind ?_ fun _ =>
      QueryAct.grows_ofAct (Engine.grows_fastCounts _ _ _ _)
    intro view ds₁ _ hview
    simp only [Condition.holds, Condition.eval]
    rw [← hchooses.slotCounts_eq hb hslots]
    exact gives_fastCounts hb hview
  · exact gives_walkedCounts hb hc hslots

end Query

/-! ## The same condition in other words -/

namespace Condition

/-- A condition alone in an `all` or an `any`, or repeated in an `any`. -/
inductive Restates (c : Condition) : Condition → Prop
  | same : Restates c c
  | all : Restates c (.all [c])
  | any (more : Nat) : Restates c (.any (List.replicate (more + 1) c))

variable {c' : Condition}

/-- A condition repeated in an `any` is true when it is. -/
theorem evalAny_replicate (truth : Leaf → Bool) (more : Nat) :
    evalAny truth (List.replicate (more + 1) c) = c.eval truth := by
  rw [Bool.eq_iff_iff, evalAny_iff]
  simp

/-- A valid condition is valid as often as it is repeated. -/
theorem areValid_replicate (hc : c.isValid = true) (n : Nat) :
    areValid (List.replicate n c) = true := by
  induction n with
  | zero => simp [areValid]
  | succ n ih =>
    rw [List.replicate_succ, areValid, hc, ih]
    rfl

/-- A valid condition is valid in other words too. -/
theorem Restates.isValid (h : c.Restates c') (hc : c.isValid = true) : c'.isValid = true := by
  cases h with
  | same => exact hc
  | all => simp [Condition.isValid, areValid, hc]
  | any more => rw [Condition.isValid, areValid_replicate hc]

/-- What is said in other words is still the same. -/
theorem Restates.holds (h : c.Restates c') (lists : Lists) (event : EventId) :
    c'.holds lists event = c.holds lists event := by
  cases h with
  | same => rfl
  | all => simp [Condition.holds, eval, evalAll]
  | any more => rw [Condition.holds, eval, evalAny_replicate, Condition.holds]

end Condition

/-! ## Counts and events -/

namespace Engine

variable {config : EngineConfig} {e : Engine} {ops : List Operation} {c' : Condition}

/-- The counts of a condition are the numbers of the events that a query without a limit finds, in each
slot, whether they are computed by range counts or by a walk. A condition said in other words has the
same counts.

The direct way is taken for a single leaf (`Query.directSet?`), and not for the same leaf in an `all` or
an `any`, so that both ways may be taken for what says the same. -/
theorem counts_tally_events (h : create config = .ok e) (hi : e.Ingests ops) (hc : c.isValid = true)
    (t1 t2 : Timestamp) (slots : Nat) (hslots : slots < 2 ^ 64) (limit : Nat)
    (hlimit : (times ops).length ≤ limit)
    (hroom : (Act.after (Query.events c t1 limit) (e.run ops)).pageCount ≤ maxPages) :
    ∃ found, Act.outcome (Query.events c t1 limit) (e.run ops) = .ok found ∧
      (t2 ≤ t1 → Query.histogram t1 t2 slots found = List.replicate slots 0) ∧
      ∀ c', c.Restates c' →
        ((Act.after (Query.counts c' t1 t2 slots) (e.run ops)).pageCount ≤ maxPages →
          Act.outcome (Query.counts c' t1 t2 slots) (e.run ops) =
            .ok (Query.histogram t1 t2 slots found)) ∧
        ((Act.after (Query.walkedCounts c' t1 t2 slots) (e.run ops)).pageCount ≤ maxPages →
          Act.outcome (Query.walkedCounts c' t1 t2 slots) (e.run ops) =
            .ok (Query.histogram t1 t2 slots found)) := by
  obtain ⟨found, hfound, hdates⟩ := hi.events h hc t1 limit hroom
  -- the limit cuts nothing off
  have hall : ((timed (times ops)).filter fun p => t1 ≤ p.2 && c.holds (written ops) p.1).length ≤
      limit := by
    refine Nat.le_trans (List.length_filter_le _ _) ?_
    simpa [timed] using hlimit
  rw [List.take_of_length_le hall] at hdates
  have hhistogram : Query.histogram t1 t2 slots found =
      Query.tally (times ops) (fun event => c.holds (written ops) event) t1 t2 slots :=
    Query.histogram_eq_tally hdates
  have htally (c' : Condition) (hc' : c.Restates c') :
      Query.tally (times ops) (fun event => c'.holds (written ops) event) t1 t2 slots =
        Query.histogram t1 t2 slots found := by
    rw [hhistogram]
    exact congrArg (Query.tally (times ops) · t1 t2 slots) (funext (hc'.holds (written ops)))
  refine ⟨found, hfound, ?_, ?_⟩
  · intro hle
    refine Query.histogram_of_le hle ?_
    intro m hm
    have hmem : Query.dateOf m ∈ found.map Query.dateOf := List.mem_map_of_mem hm
    rw [hdates, List.mem_filter, Bool.and_eq_true, decide_eq_true_eq] at hmem
    exact hmem.2.1
  · intro c' hc'
    have hvalid := hc'.isValid hc
    rw [← htally c' hc']
    constructor
    · intro hroom'
      obtain ⟨counts, houtcome, rfl⟩ := hi.outcome_of_gives h
        (Query.grows_counts c' t1 t2 slots) hroom' fun _ _ hb htimes hlists =>
          htimes ▸ hlists ▸ Query.gives_counts hb hvalid hslots
      exact houtcome
    · intro hroom'
      obtain ⟨counts, houtcome, rfl⟩ := hi.outcome_of_gives h
        (Query.grows_walkedCounts c' t1 t2 slots) hroom' fun _ _ hb htimes hlists =>
          htimes ▸ hlists ▸ Query.gives_walkedCounts hb hvalid hslots
      exact houtcome

set_option maxRecDepth 4000 in
/-- Both events of thread 1 are counted, on the list and by a walk. -/
theorem counts_tally_events_small :
    ∃ e, create small = .ok e ∧ e.Ingests smallOps ∧
      ∃ found, Act.outcome (Query.events (.leaf ⟨.thread, 1, none⟩) 5 3) (e.run smallOps) = .ok found ∧
        Query.histogram 5 8 2 found = [1, 1] ∧
        Act.outcome (Query.counts (.leaf ⟨.thread, 1, none⟩) 5 8 2) (e.run smallOps) =
          .ok (Query.histogram 5 8 2 found) ∧
        Act.outcome (Query.counts (.any [.leaf ⟨.thread, 1, none⟩, .leaf ⟨.thread, 1, none⟩]) 5 8 2)
          (e.run smallOps) = .ok (Query.histogram 5 8 2 found) := by
  obtain ⟨e, he⟩ : ∃ e, create small = .ok e := ⟨_, rfl⟩
  obtain ⟨found, hfound, -, hcounts⟩ := counts_tally_events he (ingests_small he)
    (c := .leaf ⟨.thread, 1, none⟩) (by decide) 5 8 2 (by decide) 3 (by decide) (by cases he; cbv)
  have hevents : Act.outcome (Query.events (.leaf ⟨.thread, 1, none⟩) 5 3) (e.run smallOps) =
      .ok [⟨0, 5, .any⟩, ⟨1, 7, .any⟩] := by
    cases he
    cbv
  obtain rfl := Except.ok.inj (hfound.symm.trans hevents)
  obtain ⟨hlist, -⟩ := hcounts _ .same
  obtain ⟨hwalk, -⟩ := hcounts _ (.any 1)
  exact ⟨e, he, ingests_small he, _, hfound, by decide, hlist (by cases he; cbv), hwalk (by cases he; cbv)⟩

end Engine

end EventIndex
