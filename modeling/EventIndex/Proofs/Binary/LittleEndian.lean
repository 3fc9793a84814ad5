import Mathlib.Algebra.GroupWithZero.Nat
import EventIndex.Binary.LittleEndian

/-! # Reading back fixed-width numbers

What `littleEndian` and `counted` write, the readers take off again: `takeNumber_append` for one
number and `takeCounted_counted` for a counted sequence. `numberAt_append` finds a number in the
middle of a record. Bytes of one length write one number only if they are the same
(`ofLittleEndian_injective`).
-/

namespace EventIndex.Binary

/-! ## Numbers -/

@[simp] theorem length_littleEndian (width n : Nat) : (littleEndian width n).length = width := by
  induction width generalizing n with
  | zero => rfl
  | succ width ih => simp [littleEndian, ih]

/-- A number that fits its width is read back. -/
theorem ofLittleEndian_littleEndian {width n : Nat} (h : n < 256 ^ width) :
    ofLittleEndian (littleEndian width n) = n := by
  induction width generalizing n with
  | zero =>
    have hn : n = 0 := by simpa using h
    rw [hn]
    rfl
  | succ width ih =>
    have hlow : (UInt8.ofNat n).toNat = n % 256 := UInt8.toNat_ofNat'
    have hhigh : n / 256 < 256 ^ width := by
      rw [Nat.pow_succ'] at h
      exact Nat.div_lt_of_lt_mul h
    simp only [littleEndian, ofLittleEndian, hlow, ih hhigh]
    omega

/-- Bytes write a number that fits their width. -/
theorem ofLittleEndian_lt (bytes : List UInt8) : ofLittleEndian bytes < 256 ^ bytes.length := by
  induction bytes with
  | nil => exact Nat.one_pos
  | cons b bytes ih =>
    have hb := b.toNat_lt
    rw [ofLittleEndian, List.length_cons, Nat.pow_succ]
    omega

/-- As many bytes write another number if they are others. -/
theorem ofLittleEndian_injective {xs ys : List UInt8} (hlength : xs.length = ys.length)
    (h : ofLittleEndian xs = ofLittleEndian ys) : xs = ys := by
  induction xs generalizing ys with
  | nil => exact (List.eq_nil_of_length_eq_zero hlength.symm).symm
  | cons x xs ih =>
    cases ys with
    | nil => cases hlength
    | cons y ys =>
      have hx := x.toNat_lt
      have hy := y.toNat_lt
      rw [ofLittleEndian, ofLittleEndian] at h
      have hhead : x = y := UInt8.toNat_inj.mp (by omega)
      have htail : xs = ys := ih (Nat.succ.inj hlength) (by omega)
      rw [hhead, htail]

/-! ## Readers -/

/-- Bytes are taken off a text that begins with them. -/
theorem takeBytes_append (xs rest : List UInt8) :
    takeBytes xs.length (xs ++ rest) = some (xs, rest) := by
  induction xs with
  | nil => simp [takeBytes]
  | cons x xs ih => simp [takeBytes, ih]

/-- A number that fits its width is taken off a text that begins with it. -/
theorem takeNumber_append {width n : Nat} (h : n < 256 ^ width) (rest : List UInt8) :
    takeNumber width (littleEndian width n ++ rest) = some (n, rest) := by
  have hbytes := takeBytes_append (littleEndian width n) rest
  rw [length_littleEndian] at hbytes
  simp only [takeNumber, hbytes, ofLittleEndian_littleEndian h]

/-- A reader that takes one written value off takes all of them off. -/
theorem takeTimes_flatMap {α : Type} {read : Reader α} {write : α → List UInt8} {as : List α}
    (h : ∀ a ∈ as, ∀ rest, read (write a ++ rest) = some (a, rest)) (rest : List UInt8) :
    takeTimes read as.length (as.flatMap write ++ rest) = some (as, rest) := by
  induction as with
  | nil => rfl
  | cons a as ih =>
    have ha := h a List.mem_cons_self (as.flatMap write ++ rest)
    have has := ih fun b hb => h b (List.mem_cons_of_mem a hb)
    simp only [List.length_cons, List.flatMap_cons, List.append_assoc, takeTimes, ha, has]

theorem length_flatMap_of_length_eq {α : Type} {write : α → List UInt8} {size : Nat}
    (h : ∀ a, (write a).length = size) {as : List α} :
    (as.flatMap write).length = size * as.length := by
  induction as with
  | nil => rfl
  | cons a as ih =>
    rw [List.flatMap_cons, List.length_append, h a, ih, List.length_cons, Nat.mul_succ,
      Nat.add_comm]

/-- A counted sequence is taken off, if each of its members is. -/
theorem takeCounted_counted {α : Type} {read : Reader α} {write : α → List UInt8} {as : List α}
    (hlen : as.length < 2 ^ 64) (h : ∀ a ∈ as, ∀ rest, read (write a ++ rest) = some (a, rest))
    (rest : List UInt8) : takeCounted read (counted write as ++ rest) = some (as, rest) := by
  have hcount : as.length < 256 ^ 8 := by omega
  simp only [takeCounted, counted, List.append_assoc, takeNumber_append hcount,
    takeTimes_flatMap h rest]

/-! ## Numbers within a record -/

/-- A number is found behind the bytes in front of it. -/
theorem numberAt_append {width n : Nat} (h : n < 256 ^ width) (front rest : List UInt8) :
    numberAt (front ++ (littleEndian width n ++ rest)) front.length width = n := by
  have htake : (littleEndian width n ++ rest).take width = littleEndian width n :=
    List.take_left' (length_littleEndian width n)
  rw [numberAt, List.drop_left, htake, ofLittleEndian_littleEndian h]

theorem numberAt_zero_append {width n : Nat} (h : n < 256 ^ width) (rest : List UInt8) :
    numberAt (littleEndian width n ++ rest) 0 width = n :=
  numberAt_append h [] rest

end EventIndex.Binary
