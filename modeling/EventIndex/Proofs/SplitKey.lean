import EventIndex.SplitKey
import Mathlib.Data.Nat.Bitwise

/-! # Keys and their halves

A half has the bits of the key at every other place (`testBit_evenBits`), and two halves put together
are the key again. Either way the two lowest bits of the key are one step, and the rest is a key with
a place less in each half (`interleave_succ`).

`splits_bijectively` says so of the numbers that fit their types. Splitting takes the keys of 31 bits
to the pairs of 16 and 15 bits, each pair comes from the key that it is joined to, and all greater keys
are refused.

Main results:

* `interleave_evenBits`, `evenBits_interleave`: the numbers, by induction on the places.
* `split?_eq_ok_iff`: which keys are split, and into what.
* `splits_bijectively`: splitting and joining, both ways.
-/

namespace EventIndex.SplitKey

variable {places k n m : Nat}

/-! ## Every other bit -/

/-- The lowest bit of the even half is that of the number. -/
theorem evenBits_succ_mod (places n : Nat) : evenBits (places + 1) n % 2 = n % 2 := by
  rw [evenBits]
  omega

/-- The other bits of the even half are those of the number without its two lowest bits. -/
theorem evenBits_succ_div (places n : Nat) : evenBits (places + 1) n / 2 = evenBits places (n / 4) := by
  rw [evenBits]
  omega

/-- A half has the bits of the number at the even places. -/
theorem testBit_evenBits (places n i : Nat) :
    (evenBits places n).testBit i = (decide (i < places) && n.testBit (2 * i)) := by
  induction places generalizing n i with
  | zero => simp [evenBits]
  | succ places ih =>
    cases i with
    | zero =>
      rw [Nat.testBit_zero, Nat.testBit_zero, evenBits_succ_mod]
      simp
    | succ i =>
      rw [Nat.testBit_succ, evenBits_succ_div, ih, Nat.mul_succ, Nat.testBit_succ, Nat.testBit_succ,
        Nat.div_div_eq_div_mul]
      simp

/-- A half has no more bits than places. -/
theorem evenBits_lt (places n : Nat) : evenBits places n < 2 ^ places := by
  refine Nat.lt_pow_two_of_testBit _ fun i hi => ?_
  rw [testBit_evenBits, decide_eq_false (Nat.not_lt.mpr hi), Bool.false_and]

/-- A half has half as many bits as the number. -/
theorem evenBits_lt_of_lt (places : Nat) (h : n < 2 ^ (2 * k)) : evenBits places n < 2 ^ k := by
  refine Nat.lt_pow_two_of_testBit _ fun i hi => ?_
  have hle : 2 ^ (2 * k) ≤ 2 ^ (2 * i) := Nat.pow_le_pow_right Nat.two_pos (Nat.mul_le_mul_left 2 hi)
  rw [testBit_evenBits, Nat.testBit_lt_two_pow (Nat.lt_of_lt_of_le h hle), Bool.and_false]

/-! ## Two halves put together -/

/-- The number with the bits of two halves in turn. -/
def interleave (places even odd : Nat) : Nat := spread places even + 2 * spread places odd

/-- The lowest bits of the halves are the two lowest bits of the key. -/
theorem interleave_succ (places n m : Nat) :
    interleave (places + 1) n m = n % 2 + 2 * (m % 2) + 4 * interleave places (n / 2) (m / 2) := by
  rw [interleave, interleave, spread, spread]
  omega

/-- A number is put together from its bits at even places and those at odd places. -/
theorem interleave_evenBits (h : n < 4 ^ places) :
    interleave places (evenBits places n) (evenBits places (n / 2)) = n := by
  induction places generalizing n with
  | zero =>
    obtain rfl : n = 0 := by simpa using h
    rfl
  | succ places ih =>
    rw [Nat.pow_succ] at h
    rw [interleave_succ, evenBits_succ_mod, evenBits_succ_mod, evenBits_succ_div, evenBits_succ_div,
      Nat.div_right_comm, ih (by omega)]
    omega

/-- The even bits of a key are those of the even half, and the even bits of its half are those of the odd
half. -/
theorem evenBits_interleave (hn : n < 2 ^ places) (hm : m < 2 ^ places) :
    evenBits places (interleave places n m) = n ∧
      evenBits places (interleave places n m / 2) = m := by
  induction places generalizing n m with
  | zero =>
    obtain rfl : n = 0 := by simpa using hn
    obtain rfl : m = 0 := by simpa using hm
    exact ⟨rfl, rfl⟩
  | succ places ih =>
    rw [Nat.pow_succ] at hn hm
    obtain ⟨heven, hodd⟩ := ih (n := n / 2) (m := m / 2) (by omega) (by omega)
    rw [interleave_succ, evenBits, evenBits]
    constructor
    · rw [show ∀ a, (n % 2 + 2 * (m % 2) + 4 * a) / 4 = a by omega, heven]
      omega
    · rw [show ∀ a, (n % 2 + 2 * (m % 2) + 4 * a) / 2 / 4 = a / 2 by omega, hodd]
      omega

/-- A spread number has no bit at an odd place, so it is at most a third of what its places could hold. -/
theorem three_mul_spread_lt (places : Nat) (h : n < 2 ^ k) : 3 * spread places n < 4 ^ k := by
  induction places generalizing n k with
  | zero => exact Nat.pow_pos (by decide)
  | succ places ih =>
    rw [spread]
    cases k with
    | zero =>
      have hrest := ih (n := n / 2) (k := 0) (by omega)
      omega
    | succ k =>
      rw [Nat.pow_succ] at h
      have hrest := ih (n := n / 2) (k := k) (by omega)
      rw [Nat.pow_succ]
      omega

/-! ## Keys -/

variable {key x y : UInt64} {even odd : UInt32} {halves : UInt32 × UInt32}

theorem lt_of_le_maxKey (h : key ≤ maxKey) : key.toNat < 2 ^ 31 :=
  Nat.lt_succ_of_le (UInt64.le_iff_toNat_le.mp h)

theorem toNat_half (n : Nat) : (UInt32.ofNat (evenBits halfBits n)).toNat = evenBits halfBits n :=
  UInt32.toNat_ofNat_of_lt' (Nat.lt_trans (evenBits_lt halfBits n) (by decide))

/-- Only keys up to the greatest one are split. -/
theorem le_of_split? (h : split? key = .ok halves) : key ≤ maxKey := by
  unfold split? at h
  split at h
  · cases h
  · rename_i hmax
    exact UInt64.not_lt.mp hmax

/-- A key that can be split has its even bits in the one half and its odd bits in the other. -/
theorem split?_eq_ok_iff (h : key ≤ maxKey) : split? key = .ok (even, odd) ↔
    even.toNat = evenBits halfBits key.toNat ∧ odd.toNat = evenBits halfBits (key.toNat / 2) := by
  rw [split?, if_neg (UInt64.not_lt.mpr h), Except.ok.injEq, Prod.mk.injEq, ← UInt32.toNat_inj,
    ← UInt32.toNat_inj, toNat_half, toNat_half, eq_comm, @eq_comm _ _ odd.toNat]

/-- All keys up to the greatest one are split. -/
theorem split?_of_le (h : key ≤ maxKey) : ∃ even odd, split? key = .ok (even, odd) :=
  ⟨_, _, if_neg (UInt64.not_lt.mpr h)⟩

/-- The even half of a key has 16 bits and the odd half 15. -/
theorem halves_lt (h : split? key = .ok (even, odd)) : even.toNat < 2 ^ 16 ∧ odd.toNat < 2 ^ 15 := by
  have hmax := le_of_split? h
  have hlt := lt_of_le_maxKey hmax
  obtain ⟨heven, hodd⟩ := (split?_eq_ok_iff hmax).mp h
  rw [heven, hodd]
  exact ⟨evenBits_lt 16 _, evenBits_lt_of_lt 16 (k := 15) (by omega)⟩

/-- Joined halves are put together without an overflow. -/
theorem toNat_join (heven : even.toNat < 2 ^ 16) (hodd : odd.toNat < 2 ^ 15) :
    (join even odd).toNat = interleave halfBits even.toNat odd.toNat ∧
      interleave halfBits even.toNat odd.toNat < 2 ^ 31 := by
  have heven' := three_mul_spread_lt halfBits heven
  have hodd' := three_mul_spread_lt halfBits hodd
  have hlt : interleave halfBits even.toNat odd.toNat < 2 ^ 31 := by
    rw [interleave]
    omega
  exact ⟨UInt64.toNat_ofNat_of_lt' (Nat.lt_trans hlt (by decide)), hlt⟩

/-- The halves of a key are joined to the key. -/
theorem join_of_split? (h : split? key = .ok (even, odd)) : join even odd = key := by
  have hmax := le_of_split? h
  obtain ⟨heven, hodd⟩ := halves_lt h
  rw [← UInt64.toNat_inj, (toNat_join heven hodd).1]
  obtain ⟨heven, hodd⟩ := (split?_eq_ok_iff hmax).mp h
  rw [heven, hodd]
  exact interleave_evenBits (Nat.lt_trans (lt_of_le_maxKey hmax) (by decide))

/-- Keys with the same halves are the same. -/
theorem split?_injective (hx : split? x = .ok halves) (hy : split? y = .ok halves) : x = y := by
  rw [← join_of_split? hx, ← join_of_split? hy]

/-- Joined halves make a key that can be split. -/
theorem join_le (heven : even.toNat < 2 ^ 16) (hodd : odd.toNat < 2 ^ 15) : join even odd ≤ maxKey := by
  obtain ⟨htoNat, hlt⟩ := toNat_join heven hodd
  rw [UInt64.le_iff_toNat_le, htoNat]
  exact Nat.le_of_lt_succ hlt

/-- What two halves are joined to is split into them. -/
theorem split?_join (heven : even.toNat < 2 ^ 16) (hodd : odd.toNat < 2 ^ 15) :
    split? (join even odd) = .ok (even, odd) := by
  have heven' : even.toNat < 2 ^ halfBits := heven
  have hodd' : odd.toNat < 2 ^ halfBits := Nat.lt_trans hodd (by decide)
  obtain ⟨hevenBits, hoddBits⟩ := evenBits_interleave heven' hodd'
  rw [split?_eq_ok_iff (join_le heven hodd), (toNat_join heven hodd).1, hevenBits, hoddBits]
  exact ⟨rfl, rfl⟩

/-- A half takes its bits from every other place of the key. -/
theorem testBit_halves (h : split? key = .ok (even, odd)) (i : Nat) :
    even.toNat.testBit i = key.toNat.testBit (2 * i) ∧
      odd.toNat.testBit i = key.toNat.testBit (2 * i + 1) := by
  have hmax := le_of_split? h
  -- beyond the places of a half the key has no bits
  have hnone : ∀ j, ¬ i < halfBits → 2 * i ≤ j → key.toNat.testBit j = false := by
    intro j hi hj
    have hle : 2 ^ 31 ≤ 2 ^ j := Nat.pow_le_pow_right Nat.two_pos (by rw [halfBits] at hi; omega)
    exact Nat.testBit_lt_two_pow (Nat.lt_of_lt_of_le (lt_of_le_maxKey hmax) hle)
  obtain ⟨heven, hodd⟩ := (split?_eq_ok_iff hmax).mp h
  rw [heven, hodd, testBit_evenBits, testBit_evenBits, ← Nat.testBit_succ]
  by_cases hi : i < halfBits
  · simp [hi]
  · simp [hi, hnone]

/-- Splitting is a bijection between the keys of 31 bits and the pairs of an even half of 16 bits and an odd
half of 15, and joining is its inverse. The halves have the bits of the key in turn. Greater keys are
refused, and different keys differ in a half.

Both ways are by induction on the places of the halves (`interleave_succ`), and the numbers of the types
come in at the end. -/
theorem splits_bijectively :
    (∀ key ≤ maxKey, ∃ even odd, split? key = .ok (even, odd) ∧
      even.toNat < 2 ^ 16 ∧ odd.toNat < 2 ^ 15 ∧ join even odd = key ∧
      ∀ i, even.toNat.testBit i = key.toNat.testBit (2 * i) ∧
        odd.toNat.testBit i = key.toNat.testBit (2 * i + 1)) ∧
    (∀ even odd : UInt32, even.toNat < 2 ^ 16 → odd.toNat < 2 ^ 15 →
      join even odd ≤ maxKey ∧ split? (join even odd) = .ok (even, odd)) ∧
    (∀ key, maxKey < key → split? key = .error (.keyOverflow key)) ∧
    (∀ x y evenX oddX evenY oddY, split? x = .ok (evenX, oddX) → split? y = .ok (evenY, oddY) →
      x ≠ y → evenX ≠ evenY ∨ oddX ≠ oddY) := by
  refine ⟨fun key hkey => ?_, fun even odd heven hodd => ?_, fun key hkey => if_pos hkey, ?_⟩
  · obtain ⟨even, odd, h⟩ := split?_of_le hkey
    obtain ⟨heven, hodd⟩ := halves_lt h
    exact ⟨even, odd, h, heven, hodd, join_of_split? h, testBit_halves h⟩
  · exact ⟨join_le heven hodd, split?_join heven hodd⟩
  · intro x y evenX oddX evenY oddY hx hy hne
    by_contra hsame
    obtain ⟨rfl, rfl⟩ : evenX = evenY ∧ oddX = oddY := by simpa only [not_or, not_not] using hsame
    exact hne (split?_injective hx hy)

/-- In binary, the key 1011 has the even half 01 and the odd half 11. -/
theorem splits_bijectively_small : join 0b01 0b11 = 0b1011 ∧ split? 0b1011 = .ok (0b01, 0b11) :=
  ⟨rfl, (splits_bijectively.2.1 0b01 0b11 (by decide) (by decide)).2⟩

end EventIndex.SplitKey
