import Mathlib.Data.Nat.Bitwise
import Mathlib.Logic.Function.Iterate
import EventIndex.Binary.Crc32
import EventIndex.Proofs.Binary.LittleEndian

/-! # What the checksum detects

A checksum is a remainder: moving it down one place is linear in exclusive or (`shift_xor`), and nothing
is lost by it, because the polynomial has its highest bit (`shift_injective`). Up to four bytes at once
are the same as their number added to the remainder, and then as many moves (`foldl_step_of_short`).
So a change of up to four bytes next to each other never goes unnoticed, whatever stands before it and
behind it (`checksum_splice_ne`).

Where the checksum follows the bytes that it is of, the remainder of all of them is always the same
(`residue`). A change may then lie in the bytes, in the checksum or across both.

Main results:

* `shift_xor`, `shift_injective`: the moves of the remainder.
* `foldl_step_burst`: a few bytes in place of as many others leave another remainder.
* `checksum_splice_ne`, `foldl_eq_residue_iff`: what follows for checksums, beside their bytes and
  behind them.
-/

namespace EventIndex.Binary

variable {bytes front back xs ys : List UInt8} {offset : Nat}

/-! ## Moving the remainder -/

namespace Crc32

/-- The bit that falls out is the lowest one. -/
theorem low_bit_iff (c : UInt32) : c &&& 1 = 1 ↔ c.toNat % 2 = 1 := by
  rw [← UInt32.toNat_inj, UInt32.toNat_and]
  show c.toNat &&& 1 = 1 ↔ _
  rw [Nat.and_one_is_mod]

theorem toNat_half (c : UInt32) : (c >>> 1).toNat = c.toNat / 2 := by
  rw [UInt32.toNat_shiftRight]
  exact Nat.shiftRight_one c.toNat

/-- If a one falls out the polynomial is added. -/
theorem shift_odd {c : UInt32} (h : c.toNat % 2 = 1) : shift c = (c >>> 1) ^^^ polynomial :=
  if_pos ((low_bit_iff c).mpr h)

/-- If a zero falls out nothing is added. -/
theorem shift_even {c : UInt32} (h : c.toNat % 2 = 0) : shift c = c >>> 1 :=
  if_neg fun hodd => by
    rw [low_bit_iff, h] at hodd
    cases hodd

/-- Remainders are moved bit by bit. -/
theorem shift_xor (a b : UInt32) : shift (a ^^^ b) = shift a ^^^ shift b := by
  have hparity : (a ^^^ b).toNat % 2 = (a.toNat % 2 + b.toNat % 2) % 2 := by
    rw [UInt32.toNat_xor, Nat.xor_mod_two_eq]
    omega
  have hhalf : (a ^^^ b) >>> 1 = (a >>> 1) ^^^ (b >>> 1) := UInt32.shiftRight_xor
  obtain ha | ha := Nat.mod_two_eq_zero_or_one a.toNat <;>
    obtain hb | hb := Nat.mod_two_eq_zero_or_one b.toNat <;> rw [ha, hb] at hparity
  · rw [shift_even hparity, shift_even ha, shift_even hb, hhalf]
  · rw [shift_odd hparity, shift_even ha, shift_odd hb, hhalf, UInt32.xor_assoc]
  · rw [shift_odd hparity, shift_odd ha, shift_even hb, hhalf, UInt32.xor_assoc, UInt32.xor_assoc,
      UInt32.xor_comm polynomial]
  · rw [shift_even hparity, shift_odd ha, shift_odd hb, hhalf, UInt32.xor_comm (b >>> 1) polynomial,
      UInt32.xor_assoc, ← UInt32.xor_assoc polynomial polynomial, UInt32.xor_self, UInt32.zero_xor]

/-- A one that falls out brings the highest bit in, so nothing is lost. -/
theorem eq_zero_of_shift {c : UInt32} (h : shift c = 0) : c = 0 := by
  have hlt := c.toNat_lt
  obtain heven | hodd := Nat.mod_two_eq_zero_or_one c.toNat
  · rw [shift_even heven] at h
    have hhalf := toNat_half c
    rw [h, UInt32.toNat_zero] at hhalf
    exact UInt32.toNat_inj.mp (by rw [UInt32.toNat_zero]; omega)
  · -- half of a remainder is never the polynomial, which has the highest bit
    rw [shift_odd hodd, UInt32.xor_eq_zero_iff] at h
    have hhalf := toNat_half c
    rw [h] at hhalf
    have hhigh : polynomial.toNat = 3988292384 := rfl
    omega

/-- Moving the remainder loses nothing. -/
theorem shift_injective : Function.Injective shift := by
  intro a b h
  refine UInt32.xor_eq_zero_iff.mp (eq_zero_of_shift ?_)
  rw [shift_xor, h, UInt32.xor_self]

/-- Moving the remainder by several places is linear too. -/
theorem shifts_xor (n : Nat) (a b : UInt32) : shift^[n] (a ^^^ b) = shift^[n] a ^^^ shift^[n] b := by
  induction n generalizing a b with
  | zero => rfl
  | succ n ih => rw [Function.iterate_succ_apply, shift_xor, ih]; rfl

/-- A zero that falls out leaves half of a number. -/
theorem shift_double {n : Nat} (h : 2 * n < 2 ^ 32) :
    shift (UInt32.ofNat (2 * n)) = UInt32.ofNat n := by
  have hdouble : (UInt32.ofNat (2 * n)).toNat = 2 * n := UInt32.toNat_ofNat_of_lt' h
  have hhalf : (UInt32.ofNat n).toNat = n := UInt32.toNat_ofNat_of_lt' (by show n < 2 ^ 32; omega)
  rw [shift_even (by omega), ← UInt32.toNat_inj, toNat_half, hdouble, hhalf]
  omega

/-- Zeros that fall out leave the number that stood above them. -/
theorem shifts_double {k n : Nat} (h : 2 ^ k * n < 2 ^ 32) :
    shift^[k] (UInt32.ofNat (2 ^ k * n)) = UInt32.ofNat n := by
  induction k generalizing n with
  | zero => rw [Nat.pow_zero, Nat.one_mul]; rfl
  | succ k ih =>
    have hsplit : 2 ^ (k + 1) * n = 2 * (2 ^ k * n) := by
      rw [Nat.pow_succ', Nat.mul_assoc]
    rw [hsplit] at h ⊢
    rw [Function.iterate_succ_apply, shift_double h]
    exact ih (by omega)

/-! ## Taking bytes in -/

/-- What was in the remainder before a byte is still in it afterwards. -/
theorem foldl_step_injective (bytes : List UInt8) : Function.Injective (bytes.foldl step ·) := by
  induction bytes with
  | nil => exact fun _ _ h => h
  | cons b bytes ih =>
    intro c c' h
    have hstep : shift^[8] (c ^^^ b.toUInt32) = shift^[8] (c' ^^^ b.toUInt32) := ih h
    exact (UInt32.xor_left_inj _).mp (shift_injective.iterate 8 hstep)

/-- A byte in front of a number is the same as both, bit by bit. -/
theorem ofNat_add_mul (b : UInt8) (n : Nat) :
    UInt32.ofNat (b.toNat + 256 * n) = b.toUInt32 ^^^ UInt32.ofNat (2 ^ 8 * n) := by
  have hb := b.toNat_lt
  have hlow : (b.toNat ^^^ 2 ^ 8 * n) % 2 ^ 8 = b.toNat := by
    rw [Nat.xor_mod_two_pow, Nat.mul_mod_right, Nat.xor_zero, Nat.mod_eq_of_lt hb]
  have hhigh : (b.toNat ^^^ 2 ^ 8 * n) / 2 ^ 8 = n := by
    rw [Nat.xor_div_two_pow, Nat.mul_div_cancel_left n (Nat.two_pow_pos 8), Nat.div_eq_of_lt hb,
      Nat.zero_xor]
  have hsum : b.toNat + 256 * n = b.toNat ^^^ 2 ^ 8 * n := by omega
  rw [hsum, UInt32.ofNat_xor, UInt32.ofNat_uInt8ToNat]

/-- Up to four bytes are taken in as the number that they write. -/
theorem foldl_step_of_short (c : UInt32) (h : bytes.length ≤ 4) :
    bytes.foldl step c = shift^[8 * bytes.length] (c ^^^ UInt32.ofNat (ofLittleEndian bytes)) := by
  induction bytes generalizing c with
  | nil => exact (UInt32.xor_zero).symm
  | cons b bytes ih =>
    have hrest : bytes.length ≤ 3 := Nat.le_of_succ_le_succ h
    have hlt : 2 ^ 8 * ofLittleEndian bytes < 2 ^ 32 := by
      have hbytes := ofLittleEndian_lt bytes
      have hpow : 256 ^ bytes.length ≤ 256 ^ 3 := Nat.pow_le_pow_right (by decide) hrest
      omega
    -- as the first byte falls out, the others come down to where it was
    calc (b :: bytes).foldl step c
      _ = shift^[8 * bytes.length]
            (shift^[8] (c ^^^ b.toUInt32) ^^^ UInt32.ofNat (ofLittleEndian bytes)) :=
          ih (step c b) (Nat.le_of_succ_le h)
      _ = shift^[8 * bytes.length] (shift^[8]
            (c ^^^ b.toUInt32 ^^^ UInt32.ofNat (2 ^ 8 * ofLittleEndian bytes))) := by
          rw [shifts_xor 8 (c ^^^ b.toUInt32), shifts_double hlt]
      _ = shift^[8 * bytes.length + 8] (c ^^^ UInt32.ofNat (ofLittleEndian (b :: bytes))) := by
          rw [Function.iterate_add_apply, ofLittleEndian, ofNat_add_mul, UInt32.xor_assoc]
      _ = _ := by rw [List.length_cons, Nat.mul_succ]

/-- A few bytes in place of as many others leave another remainder. -/
theorem foldl_step_burst {c : UInt32} (hlength : xs.length = ys.length) (hshort : ys.length ≤ 4)
    (h : (front ++ (xs ++ back)).foldl step c = (front ++ (ys ++ back)).foldl step c) : xs = ys := by
  simp only [List.foldl_append] at h
  have hburst := foldl_step_injective back h
  rw [foldl_step_of_short _ (hlength ▸ hshort), foldl_step_of_short _ hshort, hlength] at hburst
  have hword := (UInt32.xor_right_inj _).mp (shift_injective.iterate _ hburst)
  have hpow (zs : List UInt8) (hzs : zs.length ≤ 4) : ofLittleEndian zs < 2 ^ 32 :=
    Nat.lt_of_lt_of_le (ofLittleEndian_lt zs) (Nat.pow_le_pow_right (by decide : 0 < 256) hzs)
  refine ofLittleEndian_injective hlength ?_
  have hnumber := congrArg UInt32.toNat hword
  rwa [UInt32.toNat_ofNat_of_lt' (hpow xs (hlength ▸ hshort)),
    UInt32.toNat_ofNat_of_lt' (hpow ys hshort)] at hnumber

end Crc32

/-! ## Changing bytes -/

/-- A byte string with other bytes from an offset on. -/
def splice (bytes : List UInt8) (offset : Nat) (changed : List UInt8) : List UInt8 :=
  bytes.take offset ++ (changed ++ bytes.drop (offset + changed.length))

/-- Putting no bytes in changes nothing. -/
theorem splice_nil (bytes : List UInt8) (offset : Nat) : splice bytes offset [] = bytes :=
  List.take_append_drop offset bytes

/-- What is changed by it is not changed by no bytes. -/
theorem length_pos_of_splice_ne (hne : splice bytes offset xs ≠ bytes) : 0 < xs.length := by
  rw [List.length_pos_iff]
  rintro rfl
  exact hne (splice_nil bytes offset)

/-- As many bytes are put in as are taken out. -/
theorem length_splice (h : offset + xs.length ≤ bytes.length) :
    (splice bytes offset xs).length = bytes.length := by
  rw [splice, List.length_append, List.length_append, List.length_take, List.length_drop]
  omega

/-- Other bytes, one at a time. -/
theorem splice_cons {b : UInt8} (h : offset < bytes.length) :
    splice bytes offset (b :: xs) = splice (bytes.set offset b) (offset + 1) xs := by
  have hset : offset < (bytes.set offset b).length := by rwa [List.length_set]
  have hfront : (bytes.set offset b).take (offset + 1) = bytes.take offset ++ [b] := by
    rw [List.take_succ_eq_append_getElem hset, List.getElem_set_self, List.take_set,
      List.set_eq_of_length_le (List.length_take_le offset bytes)]
  have hback : (bytes.set offset b).drop (offset + 1 + xs.length) =
      bytes.drop (offset + (b :: xs).length) := by
    rw [List.drop_set, if_pos (by omega), List.length_cons, Nat.add_assoc, Nat.add_comm 1]
  rw [splice, splice, hfront, hback, List.append_assoc]
  rfl

/-- What is changed within the first bytes is changed in them alone. -/
theorem take_splice {n : Nat} (h : offset + xs.length ≤ n) (hfits : offset ≤ bytes.length) :
    (splice bytes offset xs).take n = splice (bytes.take n) offset xs := by
  have hfront : (bytes.take offset).length = offset := List.length_take_of_le hfits
  obtain ⟨more, rfl⟩ := Nat.exists_eq_add_of_le h
  rw [splice, splice, List.take_take, Nat.min_eq_left (by omega), Nat.add_assoc,
    List.take_append, hfront, List.take_of_length_le (by omega), Nat.add_sub_cancel_left,
    List.take_length_add_append, List.take_drop, ← Nat.add_assoc, List.drop_take]

/-- Nothing changes before the offset. -/
theorem take_splice_of_le {n : Nat} (h : n ≤ offset) (hfits : offset ≤ bytes.length) :
    (splice bytes offset xs).take n = bytes.take n := by
  have hfront : n ≤ (bytes.take offset).length := by rwa [List.length_take_of_le hfits]
  rw [splice, List.take_append_of_le_length hfront, List.take_take, Nat.min_eq_left h]

/-- What is changed behind the first bytes is changed in the rest. -/
theorem drop_splice {n : Nat} (h : n ≤ offset) (hfits : offset ≤ bytes.length) :
    (splice bytes offset xs).drop n = splice (bytes.drop n) (offset - n) xs := by
  have hfront : n ≤ (bytes.take offset).length := by rwa [List.length_take_of_le hfits]
  have hback : n + (offset - n + xs.length) = offset + xs.length := by omega
  rw [splice, splice, List.drop_append_of_le_length hfront, List.drop_take, List.drop_drop, hback]

/-- A number that stands before the offset stays as it is. -/
theorem numberAt_splice_of_le {place width : Nat} (h : place + width ≤ offset)
    (hfits : offset ≤ bytes.length) :
    numberAt (splice bytes offset xs) place width = numberAt bytes place width := by
  have hback : offset - place ≤ (bytes.drop place).length := by
    rw [List.length_drop]
    omega
  rw [numberAt, numberAt, drop_splice (by omega) hfits, take_splice_of_le (by omega) hback]

namespace Crc32

/-- Up to four bytes that differ from those in their place leave another remainder. -/
theorem foldl_splice_ne (c : UInt32) (hshort : xs.length ≤ 4)
    (hfits : offset + xs.length ≤ bytes.length) (hne : splice bytes offset xs ≠ bytes) :
    (splice bytes offset xs).foldl step c ≠ bytes.foldl step c := by
  have hsplit : bytes.take offset ++
      ((bytes.drop offset).take xs.length ++ bytes.drop (offset + xs.length)) = bytes := by
    rw [← List.drop_drop, List.take_append_drop, List.take_append_drop]
  intro h
  have hlength : xs.length = ((bytes.drop offset).take xs.length).length := by
    rw [List.length_take, List.length_drop]
    omega
  rw [splice] at hne h
  conv at h => rhs; rw [← hsplit]
  have hsame := foldl_step_burst hlength (hlength ▸ hshort) h
  rw [hsame, ← hlength, hsplit] at hne
  exact hne rfl

/-- Up to four changed bytes have another checksum, wherever they stand. -/
theorem checksum_splice_ne (hshort : xs.length ≤ 4) (hfits : offset + xs.length ≤ bytes.length)
    (hne : splice bytes offset xs ≠ bytes) : checksum (splice bytes offset xs) ≠ checksum bytes :=
  fun h => foldl_splice_ne _ hshort hfits hne ((UInt32.xor_left_inj _).mp h)

/-! ## The checksum behind its bytes -/

/-- The remainder of any bytes with their checksum behind them. -/
def residue : UInt32 := shift^[32] 0xFFFFFFFF

/-- Four bytes are the checksum of those before them exactly if the remainder of all is the residue. -/
theorem foldl_eq_residue_iff (front : List UInt8) {stored : List UInt8} (h : stored.length = 4) :
    (front ++ stored).foldl step 0xFFFFFFFF = residue ↔
      UInt32.ofNat (ofLittleEndian stored) = checksum front := by
  have hcancel (r s : UInt32) : r ^^^ s = 0xFFFFFFFF ↔ s = r ^^^ 0xFFFFFFFF := by
    rw [← UInt32.xor_right_inj r, ← UInt32.xor_assoc, UInt32.xor_self, UInt32.zero_xor]
  rw [List.foldl_append, foldl_step_of_short _ h.le, h, residue,
    (shift_injective.iterate 32).eq_iff, hcancel, checksum]

/-- The digits from 1 to 9, whose checksum tells this code from others. -/
example : checksum [49, 50, 51, 52, 53, 54, 55, 56, 57] = 0xCBF43926 := by decide +kernel

end Crc32

end EventIndex.Binary
