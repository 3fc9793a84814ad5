import Mathlib.Data.List.Sort
import EventIndex.Proofs.Query.Selecting

/-! # The answers to queries

`timed` numbers the timestamps of a list, which is all that is known of the events. A query answers
with those of them that satisfy the condition and lie on the right side of a time: `gives_events` from
the first of them on, `gives_eventsBefore` from the last of them back.

Main results:

* `Book.Chooses.map_filter_eq`: a part of the events that a list chooses is that part of all events that
  satisfy the condition.
* `gives_atTime`: what a cursor answers from the first event at a time.
* `gives_events`, `gives_eventsBefore`: both queries.
-/

namespace EventIndex

open Cursor

/-- The events with some timestamps. -/
def timed (times : List Timestamp) : List (EventId × Timestamp) :=
  times.zipIdx.map fun entry => (UInt64.ofNat entry.2, entry.1)

variable {b : Book} {ds : Disks} {c : Condition} {time : Timestamp} {limit : Nat}

/-! ## Numbered events -/

/-- An event is numbered by the place of its timestamp. -/
theorem mem_timed {times : List Timestamp} (hfew : times.length < 2 ^ 64)
    {event : EventId} {t : Timestamp} :
    (event, t) ∈ timed times ↔ times[event.toNat]? = some t := by
  have htoNat (i : Nat) (hi : i < times.length) : (UInt64.ofNat i).toNat = i :=
    UInt64.toNat_ofNat_of_lt' (Nat.lt_trans hi hfew)
  simp only [timed, List.mem_map, Prod.mk.injEq]
  constructor
  · rintro ⟨⟨t', i⟩, hmem, rfl, rfl⟩
    have hget := List.mk_mem_zipIdx_iff_getElem?.mp hmem
    obtain ⟨hi, -⟩ := List.getElem?_eq_some_iff.mp hget
    rw [htoNat i hi]
    exact hget
  · intro hget
    exact ⟨(t, event.toNat), List.mk_mem_zipIdx_iff_getElem?.mpr hget, UInt64.ofNat_toNat, rfl⟩

/-- Numbered events are in the order of their numbers. -/
theorem timed_strict {times : List Timestamp} (hfew : times.length < 2 ^ 64) :
    (timed times).Pairwise fun p q => p.1 < q.1 := by
  refine List.pairwise_map.mpr (List.pairwise_iff_getElem.mpr fun i j hi hj hij => ?_)
  rw [List.length_zipIdx] at hi hj
  rw [List.getElem_zipIdx, List.getElem_zipIdx, Nat.zero_add, Nat.zero_add]
  show UInt64.ofNat i < UInt64.ofNat j
  rw [UInt64.lt_iff_toNat_lt, UInt64.toNat_ofNat_of_lt' (Nat.lt_trans hi hfew),
    UInt64.toNat_ofNat_of_lt' (Nat.lt_trans hj hfew)]
  exact hij

/-- Lists of numbered events, in order and with the same members, are the same. -/
theorem eq_of_strict {ps qs : List (EventId × Timestamp)} (hps : ps.Pairwise fun p q => p.1 < q.1)
    (hqs : qs.Pairwise fun p q => p.1 < q.1) (h : ∀ p, p ∈ ps ↔ p ∈ qs) : ps = qs := by
  have hantisymm : Std.Antisymm fun p q : EventId × Timestamp => p.1 < q.1 :=
    ⟨fun _ _ hlt hgt => absurd (UInt64.lt_trans hlt hgt) (UInt64.lt_irrefl _)⟩
  have hirrefl : Std.Irrefl fun p q : EventId × Timestamp => p.1 < q.1 :=
    ⟨fun p => UInt64.lt_irrefl p.1⟩
  exact hps.eq_of_mem_iff hqs h

namespace Book

/-- The timestamps of the events. -/
def times (b : Book) : List Timestamp := b.stamps.map Tuple.key

/-- The timestamp of an event. -/
def timeOf (b : Book) (event : EventId) : Timestamp := b.times[event.toNat]?.getD 0

/-- An event with a timestamp has it at its place. -/
theorem times_eq_some {event : EventId} (h : event.toNat < b.stamps.length) :
    b.times[event.toNat]? = some (b.timeOf event) := by
  have hlt : event.toNat < b.times.length := by simpa [times] using h
  rw [timeOf, List.getElem?_eq_getElem hlt]
  rfl

/-- There are as many timestamps as stamps. -/
theorem length_times : b.times.length = b.stamps.length := List.length_map ..

/-- An event lies before the first event at a time just when its timestamp does. -/
theorem Complete.lt_place_iff (hb : b.Complete) {event : EventId} (h : event.toNat < b.stamps.length)
    (time : Timestamp) :
    event < UInt64.ofNat (place b.stamps time) ↔ b.timeOf event < time := by
  have hsorted : Sorted b.stamps := hb.stampsOrdered.follows.imp fun hfollow => hfollow.le
  have hplace : place b.stamps time < 2 ^ 64 := Nat.lt_of_le_of_lt (place_le _ _) hb.few
  have hget := List.getElem?_eq_getElem h
  have htime : b.timeOf event = (b.stamps[event.toNat]).key := by
    simp [timeOf, times, h]
  rw [UInt64.lt_iff_toNat_lt, UInt64.toNat_ofNat_of_lt' hplace, htime]
  exact Cursor.lt_place_iff hsorted hget

/-- A part of the chosen events, as a part of all events. -/
theorem Chooses.map_filter_eq {P : EventId → Bool} {ts : List Tuple} (h : b.Chooses P ts)
    (hb : b.Complete) {q : EventId → Bool} {r : Timestamp → Bool}
    (hqr : ∀ event, event.toNat < b.stamps.length → q event = r (b.timeOf event)) :
    (ts.filter fun t => q t.key).map (fun t => (t.key, b.timeOf t.key)) =
      (timed b.times).filter fun p => r p.2 && P p.1 := by
  have hfew : b.times.length < 2 ^ 64 := b.length_times ▸ hb.few
  refine eq_of_strict (List.pairwise_map.mpr (h.strict.filter _)) ((timed_strict hfew).filter _) ?_
  rintro ⟨event, t⟩
  simp only [List.mem_map, List.mem_filter, Prod.mk.injEq, mem_timed hfew, Bool.and_eq_true]
  constructor
  · rintro ⟨u, ⟨hu, hq⟩, rfl, rfl⟩
    have hdated := h.dated u hu
    exact ⟨times_eq_some hdated, hqr u.key hdated ▸ hq, (h.exists_iff u.key).mp ⟨u, hu, rfl⟩⟩
  · rintro ⟨hget, hr, hP⟩
    obtain ⟨u, hu, rfl⟩ := (h.exists_iff event).mpr hP
    have hdated := h.dated u hu
    obtain rfl : b.timeOf u.key = t := Option.some.inj ((times_eq_some hdated).symm.trans hget)
    exact ⟨u, ⟨hu, (hqr u.key hdated).trans hr⟩, rfl, rfl⟩

end Book

namespace Query

/-! ## Timestamps of the events found -/

/-- The event of a tuple found, with its timestamp. -/
def matchOf (b : Book) (t : Tuple) : EventMatch := ⟨t.key, b.timeOf t.key, t.role.getD Role.any⟩

/-- An event found, without the role. -/
def dateOf (m : EventMatch) : EventId × Timestamp := (m.event, m.time)

/-- Adding timestamps to tuples is one read for each. -/
theorem grows_withTimes (stamps : Snapshot) (ts : List Tuple) :
    Act.Grows PageFile.pageCount (withTimes stamps ts) := by
  induction ts with
  | nil => exact .pure _
  | cons t ts ih =>
    refine ((stamps.grows_get _).bind fun _ => .pure _).bind fun time => ?_
    cases time with
    | none => exact .throw _
    | some time => exact ih.bind fun _ => .pure _

/-- Each tuple that is found gets the timestamp of its event. -/
theorem reads_withTimes {v : Snapshot} (hv : Views b.stamps ds v) {ts : List Tuple}
    (h : ∀ t ∈ ts, t.key.toNat < b.stamps.length) :
    PageFile.Reads ds (withTimes v ts) (ts.map (matchOf b)) := by
  obtain ⟨chunks, hlies, htuples⟩ := hv
  induction ts with
  | nil => exact .pure _
  | cons t ts ih =>
    obtain ⟨ht, hrest⟩ := List.forall_mem_cons.mp h
    have htime : PageFile.Reads ds (v.timestampOf t.key) (some (b.timeOf t.key)) := by
      have hget := hlies.reads_get t.key.toNat
      rw [htuples] at hget
      have hmap : (b.stamps[t.key.toNat]?).map Tuple.key = some (b.timeOf t.key) := by
        rw [← b.times_eq_some ht, Book.times, List.getElem?_map]
      rw [← hmap]
      exact hget.bind (.pure _)
    exact htime.bind ((ih hrest).bind (.pure _))

theorem grows_found (ts : List Tuple) : Act.Grows Engine.pageCount (found ts) :=
  Act.Grows.get.bind fun _ => QueryAct.grows_ofAct (Engine.grows_onPages (grows_withTimes _ ts))

/-- What is found is answered with its timestamps. -/
theorem gives_found {ts : List Tuple} (h : ∀ t ∈ ts, t.key.toNat < b.stamps.length) :
    Gives b ds (found ts) fun _ answer => answer = ts.map (matchOf b) :=
  Gives.getStamps.bind (fun _ _ _ hview => .onPages (reads_withTimes hview h))
    fun _ => QueryAct.grows_ofAct (Engine.grows_onPages (grows_withTimes _ ts))

/-! ## From a time on, and before it -/

section Growth

variable {α : Type} {act : Act (Over AnyCursor) α}

/-- Moving a cursor and acting with it takes no pages back if the act takes none. -/
theorem grows_fromCursor (hact : Act.Grows Over.pageCount act) (start : EventId) (x : AnyCursor) :
    Act.Grows Engine.pageCount (QueryAct.ofAct <| Engine.onOver x do
      Cursor.seek start
      act) :=
  QueryAct.grows_ofAct (Engine.grows_onOver x ((AnyCursor.growing.seek start).bind fun _ => hact))

/-- A query at a time looks for the first event at the time and opens the cursor there. -/
theorem grows_atTime (c : Condition) (time : Timestamp) (hact : Act.Grows Over.pageCount act) :
    Act.Grows Engine.pageCount (atTime c time act) := by
  refine (QueryAct.grows_ofAct ?_).bind fun _ => (Plan.grows_cursor _ c).bind fun _ =>
    (grows_fromCursor hact _ _).bind fun _ => .pure _
  exact Act.Grows.get.bind fun _ => Engine.grows_onPages (Snapshot.grows_lowerBound _ _)

theorem grows_events (c : Condition) (time : Timestamp) (limit : Nat) :
    Act.Grows Engine.pageCount (events c time limit) :=
  (grows_atTime c time (AnyCursor.growing.collectForward limit)).bind fun _ => grows_found _

theorem grows_eventsBefore (c : Condition) (time : Timestamp) (limit : Nat) :
    Act.Grows Engine.pageCount (eventsBefore c time limit) :=
  (grows_atTime c time (AnyCursor.growing.collectBackward limit)).bind fun _ => grows_found _

end Growth

/-- What a cursor of the condition answers from the first event at a time. -/
theorem gives_atTime {α : Type} (hb : b.Complete) (hc : c.isValid = true) (time : Timestamp)
    {act : Act (Over AnyCursor) α} (answer : List Tuple → Nat → α)
    (hact : ∀ (ds : Disks) (x : AnyCursor) ts p, Shows ds x ts p →
      ∃ x', Over.Reads ds act x (answer ts p) x')
    (hgrows : Act.Grows Over.pageCount act) :
    Gives b ds (atTime c time act) fun _ a =>
      ∃ ts, b.Chooses (fun event => c.holds b.lists event) ts ∧
        a = answer ts (place ts (UInt64.ofNat (place b.stamps time))) := by
  have hgrows₁ := grows_fromCursor hgrows
  refine (Gives.eventLowerBound time).bind ?_ fun _ => (Plan.grows_cursor _ c).bind fun _ =>
    (hgrows₁ _ _).bind fun _ => .pure _
  rintro _ ds₁ - rfl
  refine (Plan.gives_cursor hb ds₁ c hc).bind (fun x ds₂ _ hx => ?_) fun _ =>
    (hgrows₁ _ _).bind fun _ => .pure _
  obtain ⟨ts, p, hshows, hts⟩ := hx
  obtain ⟨x₁, hseek, hshows₁⟩ := (AnyCursor.shows_of_cursor hshows).seek
    (UInt64.ofNat (place b.stamps time))
  obtain ⟨x₂, hrun⟩ := hact ds₂ x₁ ts _ hshows₁
  refine (Gives.onOver (hseek.bind hrun)).bind ?_ fun _ => .pure _
  rintro _ ds₃ - rfl
  exact .pure fun _ _ => ⟨ts, hts, rfl⟩

/-- From a time on, the first events that satisfy the condition are found. -/
theorem gives_events (hb : b.Complete) (hc : c.isValid = true) (time : Timestamp) (limit : Nat) :
    Gives b ds (events c time limit) fun _ answer =>
      answer.map dateOf =
        ((timed b.times).filter fun p => time ≤ p.2 && c.holds b.lists p.1).take limit := by
  refine (gives_atTime hb hc time (fun ts p => (ts.drop p).take limit) (fun ds x ts p hx => ?_)
    (AnyCursor.growing.collectForward limit)).bind ?_ fun _ => grows_found _
  · obtain ⟨x', hrun, -⟩ := hx.collectForward limit
    exact ⟨x', hrun⟩
  · rintro _ ds₁ - ⟨ts, hts, rfl⟩
    have hdated : ∀ t ∈ (ts.drop (place ts (UInt64.ofNat (place b.stamps time)))).take limit,
        t.key.toNat < b.stamps.length :=
      fun t ht => hts.dated t (List.mem_of_mem_drop (List.mem_of_mem_take ht))
    refine (gives_found hdated).mono ?_
    rintro _ ds₂ - rfl
    -- the events from the place on are those at the time or later
    have hsorted : Sorted ts := hts.strict.imp UInt64.le_of_lt
    rw [List.map_map, List.map_take, drop_place_eq_filter hsorted]
    refine congrArg (List.take limit) (hts.map_filter_eq hb
      (q := fun event => UInt64.ofNat (place b.stamps time) ≤ event) (r := fun t => time ≤ t)
      fun event hevent => decide_eq_decide.mpr ?_)
    rw [← UInt64.not_lt, hb.lt_place_iff hevent time, UInt64.not_lt]

/-- Before a time, the last events that satisfy the condition are found, the latest first. -/
theorem gives_eventsBefore (hb : b.Complete) (hc : c.isValid = true) (time : Timestamp)
    (limit : Nat) :
    Gives b ds (eventsBefore c time limit) fun _ answer =>
      answer.map dateOf =
        ((timed b.times).filter fun p => p.2 < time && c.holds b.lists p.1).reverse.take limit := by
  refine (gives_atTime hb hc time (fun ts p => (ts.take p).reverse.take limit)
    (fun ds x ts p hx => ?_)
    (AnyCursor.growing.collectBackward limit)).bind ?_ fun _ => grows_found _
  · obtain ⟨x', hrun, -⟩ := hx.collectBackward limit
    exact ⟨x', hrun⟩
  · rintro _ ds₁ - ⟨ts, hts, rfl⟩
    have hdated : ∀ t ∈ ((ts.take (place ts (UInt64.ofNat (place b.stamps time)))).reverse.take limit),
        t.key.toNat < b.stamps.length :=
      fun t ht => hts.dated t (List.mem_of_mem_take (List.mem_reverse.mp (List.mem_of_mem_take ht)))
    refine (gives_found hdated).mono ?_
    rintro _ ds₂ - rfl
    -- the events behind the place are those before the time
    have hsorted : Sorted ts := hts.strict.imp UInt64.le_of_lt
    rw [List.map_map, List.map_take, List.map_reverse, take_place_eq_filter hsorted]
    refine congrArg (fun ps => List.take limit (List.reverse ps)) (hts.map_filter_eq hb
      (q := fun event => event < UInt64.ofNat (place b.stamps time)) (r := fun t => t < time)
      fun event hevent => decide_eq_decide.mpr ?_)
    exact hb.lt_place_iff hevent time

end Query

end EventIndex
