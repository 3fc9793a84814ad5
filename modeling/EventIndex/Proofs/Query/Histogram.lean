import EventIndex.Proofs.Cursor.Walks
import EventIndex.Proofs.Index.Dated
import EventIndex.Proofs.Query.Running
import EventIndex.Proofs.Query.TimeSlots

/-! # Two ways to count by time

Range counts between the boundaries of slots (`reads_countSlots`) and a walk that looks every timestamp up
(`Shows.walkCounts`) both give the number of tuples in each slot. The tuples whose events have no
timestamp are behind the others, and neither way comes to them.

Main results:

* `inSlot_iff`: the events of a slot are those between two boundaries.
* `reads_countSlots`: the slots one after the other, by range counts.
* `Cursor.Shows.walkCounts`: all of them at once, by a walk.
-/

namespace EventIndex

open Cursor

variable {times : List Timestamp} {ds : Disks} {stamps view : Snapshot} {ts : List Tuple}
  {t1 t2 time : Timestamp} {slots i : Nat} {t : Tuple}

/-! ## Events by time -/

/-- The number of the first event at or after a time. -/
def firstEvent (times : List Timestamp) (time : Timestamp) : Nat := place (times.map Tuple.plain) time

theorem firstEvent_le (times : List Timestamp) (time : Timestamp) :
    firstEvent times time ≤ times.length := by
  have hle := place_le (times.map Tuple.plain) time
  rwa [List.length_map] at hle

/-- The events before a time are those with a timestamp before it. -/
theorem lt_firstEvent_iff (hsorted : Sorted (times.map Tuple.plain)) {event : Nat} :
    event < firstEvent times time ↔ times[event]?.any (· < time) = true := by
  cases hget : times[event]? with
  | none =>
    have hend : times.length ≤ event := List.getElem?_eq_none_iff.mp hget
    have hle := firstEvent_le times time
    rw [Option.any_none]
    exact iff_of_false (by omega) Bool.false_ne_true
  | some stamp =>
    have hget' : (times.map Tuple.plain)[event]? = some (.plain stamp) := by
      rw [List.getElem?_map, hget]
      rfl
    rw [Option.any_some, decide_eq_true_eq]
    exact lt_place_iff hsorted hget'

/-- The events of a slot are those from its boundary up to the next one. -/
theorem inSlot_iff (hsorted : Sorted (times.map Tuple.plain)) (h : t1 < t2) (hi : i < slots) :
    inSlot times t1 t2 slots i t = true ↔
      firstEvent times (boundary t1 t2 slots i) ≤ t.key.toNat ∧
        t.key.toNat < firstEvent times (boundary t1 t2 slots (i + 1)) := by
  rw [← Nat.not_lt, lt_firstEvent_iff hsorted, lt_firstEvent_iff hsorted, inSlot]
  cases times[t.key.toNat]? with
  | none => simp
  | some stamp =>
    simp only [Option.any_some, decide_eq_true_eq, slot?_eq_some_iff h hi, UInt64.not_lt]

/-- Who is in a slot has a timestamp between the two times. -/
theorem lt_of_inSlot (hsorted : Sorted (times.map Tuple.plain))
    (hin : inSlot times t1 t2 slots i t = true) :
    firstEvent times t1 ≤ t.key.toNat ∧ t.key.toNat < firstEvent times t2 := by
  rw [← Nat.not_lt, lt_firstEvent_iff hsorted, lt_firstEvent_iff hsorted]
  rw [inSlot] at hin
  cases hget : times[t.key.toNat]? with
  | none =>
    rw [hget] at hin
    cases hin
  | some stamp =>
    simp only [hget, Option.any_some, decide_eq_true_eq, slot?, Option.ite_none_right_eq_some] at hin
    simpa using hin.1

/-- The events between two times have timestamps between them. -/
theorem exists_time_of_between (hsorted : Sorted (times.map Tuple.plain)) {event : Nat}
    (hlow : firstEvent times t1 ≤ event) (hhigh : event < firstEvent times t2) :
    ∃ time, times[event]? = some time ∧ t1 ≤ time ∧ time < t2 := by
  rw [← Nat.not_lt, lt_firstEvent_iff hsorted] at hlow
  rw [lt_firstEvent_iff hsorted] at hhigh
  cases hget : times[event]? with
  | none =>
    rw [hget] at hhigh
    cases hhigh
  | some time =>
    rw [hget, Option.any_some, decide_eq_true_eq] at hlow hhigh
    exact ⟨time, rfl, UInt64.not_lt.mp hlow, hhigh⟩

/-- A tuple is in the slot that is computed for its timestamp, and in no other. -/
theorem SlotsFit.inSlot_iff (hfit : SlotsFit t1 t2 slots) (hget : times[t.key.toNat]? = some time)
    (hlow : t1 ≤ time) (hhigh : time < t2) :
    inSlot times t1 t2 slots i t = true ↔ slotOf time t1 t2 slots = i := by
  obtain ⟨-, -, hslot, -⟩ := hfit.slots time hlow hhigh
  rw [inSlot, hget, Option.any_some, decide_eq_true_eq, hslot, Option.some.injEq]

/-- Keys are numbers of events, as long as there are not too many. -/
theorem ofNat_firstEvent_le_iff (hfew : times.length < 2 ^ 64) {key : UInt64} :
    UInt64.ofNat (firstEvent times time) ≤ key ↔ firstEvent times time ≤ key.toNat := by
  have hlt : firstEvent times time < 2 ^ 64 := Nat.lt_of_le_of_lt (firstEvent_le times time) hfew
  rw [UInt64.le_iff_toNat_le, UInt64.toNat_ofNat_of_lt' hlt]

/-! ## By range counts -/

theorem Views.reads_lowerBound (hstamps : Views (times.map Tuple.plain) ds stamps) (time : Timestamp) :
    PageFile.Reads ds (stamps.lowerBound time) (firstEvent times time) := by
  obtain ⟨chunks, hlies, htuples⟩ := hstamps
  have hreads := hlies.reads_lowerBound time
  rwa [htuples] at hreads

theorem Views.reads_timestampOf (hstamps : Views (times.map Tuple.plain) ds stamps) (event : EventId) :
    PageFile.Reads ds (stamps.timestampOf event) times[event.toNat]? := by
  obtain ⟨chunks, hlies, htuples⟩ := hstamps
  have hget := hlies.reads_get event.toNat
  have hkeys : times[event.toNat]? = ((times.map Tuple.plain)[event.toNat]?).map Tuple.key := by
    rw [List.getElem?_map, Option.map_map]
    exact Option.map_id'.symm
  rw [htuples] at hget
  rw [hkeys]
  exact hget.bind (.pure _)

theorem Views.sorted (hview : Views ts ds view) : Sorted ts := by
  obtain ⟨chunks, hlies, rfl⟩ := hview
  exact hlies.sorted

/-- The range count of a slot. -/
theorem reads_countSlot (hview : Views ts ds view) (hstamps : Views (times.map Tuple.plain) ds stamps)
    (hfew : times.length < 2 ^ 64) (h : t1 < t2) (hi : i < slots) :
    PageFile.Reads ds
      (view.countInRange (UInt64.ofNat (firstEvent times (boundary t1 t2 slots i)))
        (UInt64.ofNat (firstEvent times (boundary t1 t2 slots (i + 1)))))
      (ts.countP (inSlot times t1 t2 slots i)) := by
  -- slots are intervals of events, since timestamps never decrease
  have hsame : ts.countP (inSlot times t1 t2 slots i) = ts.countP fun t =>
      UInt64.ofNat (firstEvent times (boundary t1 t2 slots i)) ≤ t.key ∧
        t.key < UInt64.ofNat (firstEvent times (boundary t1 t2 slots (i + 1))) := by
    refine List.countP_congr fun t _ => ?_
    rw [decide_eq_true_eq, inSlot_iff hstamps.sorted h hi, ← UInt64.not_le,
      ofNat_firstEvent_le_iff hfew, ofNat_firstEvent_le_iff hfew, Nat.not_le]
  obtain ⟨chunks, hlies, rfl⟩ := hview
  rw [hsame]
  exact hlies.reads_countInRange _ _

/-- The range counts of the slots from one on. -/
theorem reads_countSlots (hview : Views ts ds view) (hstamps : Views (times.map Tuple.plain) ds stamps)
    (hfew : times.length < 2 ^ 64) (h : t1 < t2) (left i : Nat) (hleft : i + left = slots) :
    PageFile.Reads ds
      (Engine.countSlots stamps view t1 t2 slots left i (firstEvent times (boundary t1 t2 slots i)))
      ((List.range' i left).map fun j => ts.countP (inSlot times t1 t2 slots j)) := by
  induction left generalizing i with
  | zero => exact .pure _
  | succ left ih =>
    have hi : i < slots := by omega
    rw [List.range'_succ, List.map_cons]
    have hrest := ih (i + 1) (by omega)
    refine (hstamps.reads_lowerBound (Engine.slotEnd t1 t2 slots i)).bind ?_
    dsimp only
    split
    · exact (reads_countSlot hview hstamps hfew h hi).bind (hrest.bind (.pure _))
    · -- a slot without events has no tuples
      rename_i hempty
      have hnone : ts.countP (inSlot times t1 t2 slots i) = 0 := by
        refine List.countP_eq_zero.mpr fun t _ => ?_
        rw [inSlot_iff hstamps.sorted h hi]
        intro hin
        exact hempty (Nat.ne_of_lt (Nat.lt_of_le_of_lt hin.1 hin.2))
      rw [hnone]
      exact hrest.bind (.pure _)

/-! ## By a walk -/

section Walk

variable {C : Type} [Cursor C] {c : C} {p : Nat}

/-- One more in a slot, and more to come. -/
theorem getElem?_modify_add (counts : Array Nat) (slot i more : Nat) :
    (counts.modify slot (· + 1))[i]?.map (· + more) =
      counts[i]?.map (· + (more + if slot = i then 1 else 0)) := by
  rw [Array.getElem?_modify]
  cases counts[i]? with
  | none => simp
  | some n =>
    split
    · simp only [Option.map_some, Option.some.injEq]
      omega
    · rfl

/-- The timestamps are looked up one by one, and each tuple counts in its slot. -/
theorem Cursor.Shows.walkFrom (hc : Shows ds c ts p) (hstamps : Views (times.map Tuple.plain) ds stamps)
    (hfit : SlotsFit t1 t2 slots)
    (hstart : ∀ t ∈ ts.drop p, firstEvent times t1 ≤ t.key.toNat) {fuel : Nat}
    (hfuel : ts.length - p < fuel) (counts : Array Nat) :
    ∃ counts' c', Over.Reads ds
        (Histogram.walkFrom stamps t1 t2 slots (firstEvent times t2) fuel counts) c counts' c' ∧
      ∀ i : Nat, counts'[i]? = counts[i]?.map (· + (ts.drop p).countP (inSlot times t1 t2 slots i)) := by
  induction fuel generalizing c p counts with
  | zero => omega
  | succ fuel ih =>
    obtain ⟨c₁, hnext, hc₁⟩ := hc.next
    -- where the walk ends, no tuple in a slot is left
    have hend (hnone : ∀ i, (ts.drop p).countP (inSlot times t1 t2 slots i) = 0) (i : Nat) :
        counts[i]? = counts[i]?.map (· + (ts.drop p).countP (inSlot times t1 t2 slots i)) := by
      rw [hnone i]
      simp
    cases hget : ts[p]? with
    | none =>
      rw [hget] at hnext
      refine ⟨counts, c₁, hnext.bind (.pure c₁ _), hend fun i => ?_⟩
      rw [List.drop_of_length_le (List.getElem?_eq_none_iff.mp hget)]
      rfl
    | some t =>
      obtain ⟨hlt, ht⟩ := List.getElem?_eq_some_iff.mp hget
      have hdrop : ts.drop p = t :: ts.drop (p + 1) := by rw [List.drop_eq_getElem_cons hlt, ht]
      rw [hget] at hnext
      by_cases hstop : firstEvent times t2 ≤ t.key.toNat
      · -- the keys never decrease, so that all tuples from here on are too late
        refine ⟨counts, c₁, hnext.bind ?_, hend fun i => List.countP_eq_zero.mpr fun u hu hin => ?_⟩
        · dsimp only
          rw [if_pos hstop]
          exact .pure c₁ _
        · have hle : t.key ≤ u.key :=
            Sorted.head_le (hc.sorted.sublist (List.drop_sublist p ts)) (by rw [hdrop]; rfl) hu
          have hbelow := (lt_of_inSlot hstamps.sorted hin).2
          have hle' := UInt64.le_iff_toNat_le.mp hle
          omega
      · -- the tuple counts in its slot, and the walk goes on behind it
        obtain ⟨time, hstamp, hlow, hhigh⟩ := exists_time_of_between hstamps.sorted
          (hstart t (hdrop ▸ List.mem_cons_self)) (Nat.not_le.mp hstop)
        have htime := hstamp ▸ hstamps.reads_timestampOf t.key
        have hplace : min (p + 1) ts.length = p + 1 := Nat.min_eq_left hlt
        rw [hplace] at hc₁
        obtain ⟨counts', c₂, hrest, hcounts⟩ := ih hc₁
          (fun u hu => hstart u (hdrop ▸ List.mem_cons_of_mem t hu)) (by omega)
          (counts.modify (slotOf time t1 t2 slots) (· + 1))
        refine ⟨counts', c₂, hnext.bind ?_, fun i => ?_⟩
        · dsimp only
          rw [if_neg hstop]
          exact (Over.Reads.onPages htime c₁).bind hrest
        · rw [hcounts i, hdrop, List.countP_cons, getElem?_modify_add]
          simp only [hfit.inSlot_iff hstamp hlow hhigh]

/-- A walk counts the tuples in each slot, wherever the cursor is at first. -/
theorem Cursor.Shows.walkCounts (hc : Shows ds c ts p) (hstamps : Views (times.map Tuple.plain) ds stamps)
    (hfew : times.length < 2 ^ 64) (hslots : slots < 2 ^ 64) :
    ∃ c', Over.Reads ds (Histogram.walkCounts stamps t1 t2 slots) c
      (slotCounts times t1 t2 slots ts) c' := by
  unfold Histogram.walkCounts
  split
  · rename_i hempty
    rw [slotCounts_of_empty hempty]
    exact ⟨c, .pure c _⟩
  · rename_i hsome
    obtain ⟨hpos, h⟩ := not_or.mp hsome
    have hfit := slotsFit (UInt64.not_le.mp h) hslots (Nat.pos_of_ne_zero hpos)
    obtain ⟨c₁, hseek, hc₁⟩ := hc.seek (UInt64.ofNat (firstEvent times t1))
    have hstart (t) (ht : t ∈ ts.drop (place ts (UInt64.ofNat (firstEvent times t1)))) :
        firstEvent times t1 ≤ t.key.toNat :=
      (ofNat_firstEvent_le_iff hfew).mp (le_key_of_mem_drop_place hc.sorted ht)
    -- no tuple in a slot is skipped
    have hall (i : Nat) : (ts.drop (place ts (UInt64.ofNat (firstEvent times t1)))).countP
        (inSlot times t1 t2 slots i) = ts.countP (inSlot times t1 t2 slots i) := by
      rw [drop_place_eq_filter hc.sorted, List.countP_filter]
      refine List.countP_congr fun t _ => ?_
      rw [Bool.and_eq_true, decide_eq_true_eq, ofNat_firstEvent_le_iff hfew]
      exact and_iff_left_of_imp fun hin => (lt_of_inSlot hstamps.sorted hin).1
    obtain ⟨counts, c₂, hwalk, hcounts⟩ := hc₁.walkFrom hstamps hfit hstart
      (Nat.lt_succ_of_le (Nat.le_trans (Nat.sub_le _ _) hc₁.extent)) (Array.replicate slots 0)
    have htoList : counts.toList = slotCounts times t1 t2 slots ts := by
      refine List.ext_getElem? fun i => ?_
      rw [Array.getElem?_toList, hcounts, hall, slotCounts, List.getElem?_map]
      by_cases hi : i < slots <;> simp [hi]
    refine ⟨c₂, ?_⟩
    rw [← htoList]
    exact (Over.Reads.onPages (hstamps.reads_lowerBound t2) c).bind
      ((Over.Reads.onPages (hstamps.reads_lowerBound t1) c).bind
        (hseek.bind ((Over.Reads.current c₁).bind (hwalk.bind (.pure c₂ _)))))

end Walk

end EventIndex
