import EventIndex.Index.Engine
import EventIndex.Proofs.Cursor.Search
import EventIndex.Query.Histogram

/-! # Slots of time

The time from `t1` up to `t2` is cut into slots. `slotCounts` says how many tuples fall into each of them
when the events have some timestamps; it is told by exact arithmetic and by nothing else.

A slot reaches from one `boundary` to the next, which are rounded up, while the slot of a timestamp is
rounded down; `slot?_eq_some_iff` says that both cut the time alike. `SlotsFit` says that all that is
computed on the way stays within its bounds.
-/

namespace EventIndex

open Cursor

/-! ## Counting by slots -/

/-- The slot of a timestamp, if it lies between the two times. -/
def slot? (t1 t2 : Timestamp) (slots : Nat) (time : Timestamp) : Option Nat :=
  if t1 ≤ time ∧ time < t2 then some ((time.toNat - t1.toNat) * slots / (t2.toNat - t1.toNat)) else none

/-- Whether the event of a tuple has a timestamp, which lies in a slot. -/
def inSlot (times : List Timestamp) (t1 t2 : Timestamp) (slots i : Nat) (t : Tuple) : Bool :=
  times[t.key.toNat]?.any fun time => slot? t1 t2 slots time = some i

/-- The number of tuples in each slot. -/
def slotCounts (times : List Timestamp) (t1 t2 : Timestamp) (slots : Nat) (ts : List Tuple) : List Nat :=
  (List.range slots).map fun i => ts.countP (inSlot times t1 t2 slots i)

/-- Where slot `i` begins. -/
def boundary (t1 t2 : Timestamp) (slots i : Nat) : Timestamp :=
  UInt64.ofNat (t1.toNat + (i * (t2 - t1).toNat + (slots - 1)) / slots)

/-- What is computed for the slots from `t1` up to `t2` stays within its bounds. -/
structure SlotsFit (t1 t2 : Timestamp) (slots : Nat) : Prop where
  /-- The product for the end of a slot has 128 bits, the end has 64 bits and is not behind the last time. -/
  ends : ∀ i < slots, (i + 1) * (t2 - t1).toNat + (slots - 1) < 2 ^ 128 ∧
    (Engine.slotEnd t1 t2 slots i).toNat =
      t1.toNat + ((i + 1) * (t2 - t1).toNat + (slots - 1)) / slots ∧
    Engine.slotEnd t1 t2 slots i ≤ t2
  /-- The product for the slot of a timestamp has 128 bits, and the slot is one of those there are. -/
  slots : ∀ time, t1 ≤ time → time < t2 → (time - t1).toNat = time.toNat - t1.toNat ∧
    (time - t1).toNat * slots < 2 ^ 128 ∧ slot? t1 t2 slots time = some (slotOf time t1 t2 slots) ∧
    slotOf time t1 t2 slots < slots

variable {t1 t2 time : Timestamp} {slots i : Nat} {times : List Timestamp} {t : Tuple} {ts : List Tuple}

theorem slotCounts_of_empty (h : slots = 0 ∨ t2 ≤ t1) :
    slotCounts times t1 t2 slots ts = List.replicate slots 0 := by
  rcases h with rfl | h
  · rfl
  · refine List.eq_replicate_iff.mpr ⟨by simp [slotCounts], fun n hn => ?_⟩
    obtain ⟨i, -, rfl⟩ := List.mem_map.mp hn
    refine List.countP_eq_zero.mpr fun t _ => ?_
    have hnone (time : Timestamp) : slot? t1 t2 slots time = none :=
      if_neg fun ⟨hle, hlt⟩ => absurd (UInt64.lt_of_lt_of_le hlt h) (UInt64.not_lt.mpr hle)
    simp [inSlot, hnone]

/-! ## Arithmetic -/

section Arithmetic

variable (h : t1 < t2) (hslots : slots < 2 ^ 64)

include h

theorem toNat_span : (t2 - t1).toNat = t2.toNat - t1.toNat ∧ 0 < t2.toNat - t1.toNat := by
  have hlt := UInt64.lt_iff_toNat_lt.mp h
  exact ⟨UInt64.toNat_sub_of_le _ _ (UInt64.le_of_lt h), by omega⟩

/-- The boundaries lie between the two times. -/
theorem toNat_boundary (hi : i ≤ slots) (hpos : 0 < slots) :
    (boundary t1 t2 slots i).toNat = t1.toNat + (i * (t2 - t1).toNat + (slots - 1)) / slots ∧
      boundary t1 t2 slots i ≤ t2 := by
  obtain ⟨hspan, -⟩ := toNat_span h
  have hlt := UInt64.lt_iff_toNat_lt.mp h
  have hoffset : (i * (t2 - t1).toNat + (slots - 1)) / slots ≤ (t2 - t1).toNat := by
    refine (Nat.div_le_iff_le_mul_add_pred hpos).mpr ?_
    exact Nat.add_le_add_right (Nat.mul_le_mul_right _ hi) _
  have hsmall : t1.toNat + (i * (t2 - t1).toNat + (slots - 1)) / slots ≤ t2.toNat := by omega
  have hnat : (boundary t1 t2 slots i).toNat =
      t1.toNat + (i * (t2 - t1).toNat + (slots - 1)) / slots :=
    UInt64.toNat_ofNat_of_lt' (Nat.lt_of_le_of_lt hsmall t2.toNat_lt)
  exact ⟨hnat, UInt64.le_iff_toNat_le.mpr (hnat ▸ hsmall)⟩

/-- Boundaries are rounded up where slots are rounded down. -/
theorem boundary_le_iff (hi : i ≤ slots) (hpos : 0 < slots) (hle : t1 ≤ time) :
    boundary t1 t2 slots i ≤ time ↔
      i ≤ (time.toNat - t1.toNat) * slots / (t2.toNat - t1.toNat) := by
  obtain ⟨hspan, hspanPos⟩ := toNat_span h
  have hle' := UInt64.le_iff_toNat_le.mp hle
  rw [UInt64.le_iff_toNat_le, (toNat_boundary h hi hpos).1, hspan]
  calc t1.toNat + (i * (t2.toNat - t1.toNat) + (slots - 1)) / slots ≤ time.toNat
      ↔ (i * (t2.toNat - t1.toNat) + (slots - 1)) / slots ≤ time.toNat - t1.toNat := by omega
    _ ↔ i * (t2.toNat - t1.toNat) + (slots - 1) ≤ slots * (time.toNat - t1.toNat) + (slots - 1) :=
      Nat.div_le_iff_le_mul_add_pred hpos
    _ ↔ i * (t2.toNat - t1.toNat) ≤ (time.toNat - t1.toNat) * slots := by
      rw [Nat.add_le_add_iff_right, Nat.mul_comm slots]
    _ ↔ i ≤ (time.toNat - t1.toNat) * slots / (t2.toNat - t1.toNat) :=
      (Nat.le_div_iff_mul_le hspanPos).symm

/-- A slot reaches from its boundary to the next one. -/
theorem slot?_eq_some_iff (hi : i < slots) :
    slot? t1 t2 slots time = some i ↔
      boundary t1 t2 slots i ≤ time ∧ time < boundary t1 t2 slots (i + 1) := by
  have hpos : 0 < slots := Nat.zero_lt_of_lt hi
  have hlow : t1 ≤ boundary t1 t2 slots i := by
    rw [UInt64.le_iff_toNat_le, (toNat_boundary h (Nat.le_of_lt hi) hpos).1]
    exact Nat.le_add_right _ _
  have hhigh := (toNat_boundary h hi hpos).2
  unfold slot?
  by_cases hle : t1 ≤ time
  · have h1 := boundary_le_iff h (Nat.le_of_lt hi) hpos hle
    have h2 := (not_congr (boundary_le_iff h hi hpos hle)).symm.trans UInt64.not_le
    by_cases hlt : time < t2
    · rw [if_pos ⟨hle, hlt⟩, Option.some.injEq, h1, ← h2]
      omega
    · -- from the last time on, all boundaries are passed
      have hpast := UInt64.le_trans hhigh (UInt64.not_lt.mp hlt)
      rw [if_neg fun hboth => hlt hboth.2]
      exact iff_of_false nofun fun hboth => absurd hboth.2 (UInt64.not_lt.mpr hpast)
  · rw [if_neg fun hboth => hle hboth.1]
    exact iff_of_false nofun fun hboth => hle (UInt64.le_trans hlow hboth.1)

/-- The first slot begins at the first time. -/
theorem boundary_zero (hpos : 0 < slots) : boundary t1 t2 slots 0 = t1 := by
  refine UInt64.toNat_inj.mp ?_
  rw [(toNat_boundary h (Nat.zero_le _) hpos).1, Nat.zero_mul, Nat.zero_add,
    Nat.div_eq_of_lt (Nat.sub_lt hpos Nat.one_pos), Nat.add_zero]

include hslots

/-- Nothing that is computed for slots leaves its bounds. -/
theorem slotsFit (hpos : 0 < slots) : SlotsFit t1 t2 slots := by
  obtain ⟨hspan, hspanPos⟩ := toNat_span h
  have hspanLt : (t2 - t1).toNat < 2 ^ 64 := (t2 - t1).toNat_lt
  constructor
  · intro i hi
    obtain ⟨hnat, hle⟩ := toNat_boundary h (i := i + 1) hi hpos
    refine ⟨?_, hnat, hle⟩
    -- the products are computed with 128 bits, where they fit
    calc (i + 1) * (t2 - t1).toNat + (slots - 1)
        ≤ (2 ^ 64 - 1) * (2 ^ 64 - 1) + (2 ^ 64 - 1) :=
          Nat.add_le_add (Nat.mul_le_mul (by omega) (by omega)) (by omega)
      _ < 2 ^ 128 := by decide
  · intro time hle hlt
    have hle' := UInt64.le_iff_toNat_le.mp hle
    have hlt' := UInt64.lt_iff_toNat_lt.mp hlt
    have hsub : (time - t1).toNat = time.toNat - t1.toNat := UInt64.toNat_sub_of_le _ _ hle
    -- a time before the end is in one of the slots, so nothing is cut off
    have hlast : (time.toNat - t1.toNat) * slots / (t2.toNat - t1.toNat) < slots := by
      refine (Nat.div_lt_iff_lt_mul hspanPos).mpr ?_
      rw [Nat.mul_comm slots]
      exact Nat.mul_lt_mul_of_pos_right (by omega) hpos
    have hslot : slotOf time t1 t2 slots =
        (time.toNat - t1.toNat) * slots / (t2.toNat - t1.toNat) := by
      rw [slotOf, hsub, hspan]
      exact Nat.mod_eq_of_lt (Nat.lt_trans hlast hslots)
    refine ⟨hsub, ?_, ?_, hslot ▸ hlast⟩
    · calc (time - t1).toNat * slots
          ≤ (2 ^ 64 - 1) * (2 ^ 64 - 1) :=
            Nat.mul_le_mul (Nat.le_sub_one_of_lt (time - t1).toNat_lt) (by omega)
        _ < 2 ^ 128 := by decide
    · rw [hslot]
      exact if_pos ⟨hle, hlt⟩

end Arithmetic

end EventIndex
