import EventIndex.Binary.Lz4
import EventIndex.Proofs.Binary.LittleEndian

/-! # A packed block gives its bytes back

`expand?_compress` says that reading undoes writing, and `unpack?_pack` says so of packed blocks. A block is read
from its front: `Resumes` says that reading goes on to the whole byte string when the bytes before some place
are there already, and each sequence carries the place further.

How well the table of places remembers is of no account. A copy is written only where the bytes agree, and all
that has to be known of the table is that its places lie before the one looked at.

Main results:

* `takeLength_extraOf`, `toNat_token`: lengths are found again.
* `copyBack_extract`: a copy of bytes that agree goes on with the byte string.
* `resumes_sequence`, `resumes_final`: each sequence carries the place further, the last one to the end.
* `resumes_compressFrom`: all that is written is read again, by induction on what is left to write.
-/

namespace EventIndex.Binary.Lz4

/-! ## Lengths -/

/-- The extra bytes of a length are read up to the first that is not full. -/
theorem takeExtra_replicate {b : UInt8} (hb : b ≠ 255) (m : Nat) (rest : List UInt8) :
    takeExtra (List.replicate m 255 ++ b :: rest) = some (255 * m + b.toNat, rest) := by
  induction m with
  | zero => simp [takeExtra, hb]
  | succ m ih =>
    simp only [List.replicate_succ, List.cons_append, takeExtra, if_true, ih]
    rw [Nat.mul_succ, Nat.add_right_comm]

/-- A length is found again in its half of the token and its extra bytes. -/
theorem takeLength_extraOf (n : Nat) (rest : List UInt8) :
    takeLength (halfOf n) (extraOf n ++ rest) = some (n, rest) := by
  by_cases hn : n < 15
  · have hhalf : halfOf n = n := Nat.min_eq_left (Nat.le_of_lt hn)
    rw [takeLength, hhalf, if_neg (Nat.ne_of_lt hn), extraOf, if_pos hn]
    rfl
  · -- what is beyond fifteen stands in bytes of its own, and only the last of them is not full
    have hhalf : halfOf n = 15 := Nat.min_eq_right (Nat.not_lt.mp hn)
    have hlt : (n - 15) % 255 < 255 := Nat.mod_lt _ (by decide)
    have hbyte : (UInt8.ofNat ((n - 15) % 255)).toNat = (n - 15) % 255 :=
      UInt8.toNat_ofNat_of_lt' (Nat.lt_trans hlt (by decide))
    have hlast : UInt8.ofNat ((n - 15) % 255) ≠ 255 := by
      intro h
      rw [h] at hbyte
      exact Nat.ne_of_lt hlt hbyte.symm
    have hsum : 255 * ((n - 15) / 255) + (n - 15) % 255 + 15 = n := by
      rw [Nat.div_add_mod]
      omega
    rw [takeLength, hhalf, if_pos rfl, extraOf, if_neg hn, List.append_assoc, List.singleton_append,
      takeExtra_replicate hlast, hbyte]
    simp only [hsum]

/-- A length takes at most the whole of its half. -/
theorem halfOf_le (n : Nat) : halfOf n ≤ 15 := Nat.min_le_right _ _

/-- Both halves of a token are found again. -/
theorem toNat_token (a b : Nat) :
    (UInt8.ofNat (16 * halfOf a + halfOf b)).toNat / 16 = halfOf a ∧
      (UInt8.ofNat (16 * halfOf a + halfOf b)).toNat % 16 = halfOf b := by
  have ha := halfOf_le a
  have hb := halfOf_le b
  have htoken : (UInt8.ofNat (16 * halfOf a + halfOf b)).toNat = 16 * halfOf a + halfOf b :=
    UInt8.toNat_ofNat_of_lt' (by
      show 16 * halfOf a + halfOf b < 256
      omega)
  rw [htoken]
  omega

/-! ## Bytes that agree -/

/-- As many bytes from one place on are those from another. -/
def Agrees (bytes : Array UInt8) (i j n : Nat) : Prop :=
  ∀ k, k < n → bytes.getD (i + k) 0 = bytes.getD (j + k) 0

variable {bytes : Array UInt8} {i j n p : Nat}

/-- No more bytes are compared than were asked for. -/
theorem commonLength_le (bytes : Array UInt8) (i j n : Nat) : commonLength bytes i j n ≤ n := by
  induction n generalizing i j with
  | zero => exact Nat.le_refl 0
  | succ n ih =>
    rw [commonLength]
    split
    · exact Nat.succ_le_succ (ih (i + 1) (j + 1))
    · exact Nat.zero_le _

/-- The bytes that were found to agree do. -/
theorem agrees_commonLength (bytes : Array UInt8) (i j n : Nat) :
    Agrees bytes i j (commonLength bytes i j n) := by
  induction n generalizing i j with
  | zero => exact fun k hk => absurd hk (Nat.not_lt_zero k)
  | succ n ih =>
    rw [commonLength]
    split
    · rename_i hfirst
      intro k hk
      cases k with
      | zero => exact hfirst
      | succ k =>
        have hrest := ih (i + 1) (j + 1) k (Nat.lt_of_succ_lt_succ hk)
        rwa [Nat.add_assoc, Nat.add_assoc, Nat.add_comm 1 k] at hrest
    · exact fun k hk => absurd hk (Nat.not_lt_zero k)

/-- Places whose groups are the same agree in as many bytes as a copy needs. -/
theorem agrees_of_sameGroup (h : sameGroup bytes i j = true) : Agrees bytes i j minCopy := by
  have hall := agrees_commonLength bytes i j minCopy
  rwa [beq_iff_eq.mp h] at hall

/-- The bytes found to agree before two places lie within the bounds that were set. -/
theorem commonBefore_le (bytes : Array UInt8) (n i j : Nat) :
    commonBefore bytes n i j ≤ n ∧ commonBefore bytes n i j ≤ i ∧ commonBefore bytes n i j ≤ j := by
  induction n generalizing i j with
  | zero => simp [commonBefore]
  | succ n ih =>
    cases i with
    | zero => simp [commonBefore]
    | succ i =>
      cases j with
      | zero => simp [commonBefore]
      | succ j =>
        obtain ⟨hn, hi, hj⟩ := ih i j
        rw [commonBefore]
        split <;> omega

/-- The bytes before two places that were found to agree do. -/
theorem agrees_commonBefore (bytes : Array UInt8) (n i j : Nat) :
    Agrees bytes (i - commonBefore bytes n i j) (j - commonBefore bytes n i j)
      (commonBefore bytes n i j) := by
  induction n generalizing i j with
  | zero => exact fun k hk => absurd hk (Nat.not_lt_zero k)
  | succ n ih =>
    cases i with
    | zero =>
      simp only [commonBefore]
      exact fun k hk => absurd hk (Nat.not_lt_zero k)
    | succ i =>
      cases j with
      | zero =>
        simp only [commonBefore]
        exact fun k hk => absurd hk (Nat.not_lt_zero k)
      | succ j =>
        rw [commonBefore]
        split
        · rename_i hlast
          obtain ⟨-, hi, hj⟩ := commonBefore_le bytes n i j
          rw [Nat.add_sub_add_right, Nat.add_sub_add_right]
          intro k hk
          rcases Nat.lt_succ_iff_lt_or_eq.mp hk with hk | hk
          · exact ih i j k hk
          · -- the last byte is the one right before the two places
            rw [hk, Nat.sub_add_cancel hi, Nat.sub_add_cancel hj]
            exact hlast
        · exact fun k hk => absurd hk (Nat.not_lt_zero k)

/-- Bytes that agree are put behind others that do. -/
theorem Agrees.append {m : Nat} (h : Agrees bytes i j n) (h' : Agrees bytes (i + n) (j + n) m) :
    Agrees bytes i j (n + m) := by
  intro k hk
  by_cases hlt : k < n
  · exact h k hlt
  · have hrest := h' (k - n) (by omega)
    rwa [Nat.add_assoc, Nat.add_assoc, Nat.add_sub_cancel' (Nat.not_lt.mp hlt)] at hrest

/-- What is found before two places whose groups are the same and behind them makes up one copy. -/
theorem agrees_around (h : sameGroup bytes j i = true) (n m : Nat) :
    Agrees bytes (j - commonBefore bytes n i j) (i - commonBefore bytes n i j)
      (minCopy + (commonBefore bytes n i j + commonLength bytes (j + minCopy) (i + minCopy) m)) := by
  have hbefore := agrees_commonBefore bytes n i j
  obtain ⟨-, hi, hj⟩ := commonBefore_le bytes n i j
  rw [Nat.add_left_comm]
  refine Agrees.append (fun k hk => (hbefore k hk).symm) ?_
  rw [Nat.sub_add_cancel hi, Nat.sub_add_cancel hj]
  exact (agrees_of_sameGroup h).append (agrees_commonLength bytes _ _ m)

/-! ## Copies -/

/-- A copy of bytes that agree goes on with the byte string, also where it reaches into its own bytes. -/
theorem copyBack_extract {d : Nat} (hpos : 0 < d) (hd : d ≤ p) (hsize : p + n ≤ bytes.size)
    (hagree : Agrees bytes (p - d) p n) :
    copyBack d n (bytes.extract 0 p) = bytes.extract 0 (p + n) := by
  induction n generalizing p with
  | zero => rfl
  | succ n ih =>
    have hlt : p < bytes.size := by omega
    have hout : (bytes.extract 0 p).size = p := by
      rw [Array.size_extract]
      omega
    -- the byte copied may be one that this copy has written itself
    have hbyte : (bytes.extract 0 p).getD ((bytes.extract 0 p).size - d) 0 = bytes[p] := by
      have hfirst := hagree 0 (Nat.succ_pos n)
      rw [Nat.add_zero, Nat.add_zero] at hfirst
      have hp : bytes.getD p 0 = bytes[p] := by simp [Array.getD, hlt]
      have hback : p - d < bytes.size := by omega
      have hsource : bytes.getD (p - d) 0 = bytes[p - d] := by simp [Array.getD, hback]
      have hinside : p - d < min p bytes.size := by omega
      rw [← hp, ← hfirst, hsource, hout]
      simp [Array.getD, hinside]
    have hnext : (bytes.extract 0 p).push bytes[p] = bytes.extract 0 (p + 1) := by
      rw [Array.push_extract_getElem hlt, Nat.zero_min]
    rw [copyBack, hbyte, hnext, ih (by omega) (by omega), Nat.add_assoc, Nat.add_comm 1 n]
    intro k hk
    have hrest := hagree (k + 1) (Nat.succ_lt_succ hk)
    rwa [show p - d + (k + 1) = p + 1 - d + k by omega, show p + (k + 1) = p + 1 + k by omega] at hrest

/-! ## Blocks -/

/-- Reading the block goes on from the first bytes to all of them. -/
def Resumes (bytes : Array UInt8) (p : Nat) (block : List UInt8) : Prop :=
  ∀ capacity fuel, bytes.size ≤ capacity → block.length < fuel →
    expandSequences capacity fuel block (bytes.extract 0 p) = some bytes

/-- Literals go on with the byte string. -/
theorem extract_append_literals {q : Nat} (h : p ≤ q) :
    bytes.extract 0 p ++ (bytes.extract p q).toList.toArray = bytes.extract 0 q := by
  rw [Array.toArray_toList, Array.extract_append_extract, Nat.zero_min, Nat.max_eq_right h]

/-- The last sequence goes to the end. -/
theorem resumes_final (h : p ≤ bytes.size) : Resumes bytes p (finalBytes (bytes.toList.drop p)) := by
  intro capacity fuel hcapacity hfuel
  obtain ⟨fuel, rfl⟩ : ∃ m, fuel = m + 1 := ⟨fuel - 1, by omega⟩
  have hliterals : bytes.toList.drop p = (bytes.extract p bytes.size).toList := by
    rw [Array.toList_extract, List.extract_eq_take_drop, List.take_of_length_le]
    simp
  have hout : (bytes.extract 0 p).size = p := by
    rw [Array.size_extract]
    omega
  have hlen : (bytes.toList.drop p).length = bytes.size - p := by simp
  have hroom : ¬ capacity < (bytes.extract 0 p).size + (bytes.toList.drop p).length := by omega
  have htoken : (UInt8.ofNat (16 * halfOf (bytes.toList.drop p).length)).toNat / 16 =
      halfOf (bytes.toList.drop p).length := (toNat_token _ 0).1
  have htake := takeBytes_append (bytes.toList.drop p) []
  rw [List.append_nil] at htake
  simp only [finalBytes, expandSequences, htoken, takeLength_extraOf, hroom, if_false, htake]
  rw [hliterals, extract_append_literals h, Array.extract_size]

/-- A sequence goes over its literals and its copy, and the rest of the block from there. -/
theorem resumes_sequence {q d extra : Nat} {block : List UInt8} (hq : p ≤ q) (hpos : 0 < d) (hd : d ≤ q)
    (hfar : d ≤ maxDistance) (hsize : q + (minCopy + extra) ≤ bytes.size)
    (hagree : Agrees bytes (q - d) q (minCopy + extra))
    (hrest : Resumes bytes (q + (minCopy + extra)) block) :
    Resumes bytes p (sequenceBytes (bytes.extract p q).toList d extra ++ block) := by
  intro capacity fuel hcapacity hfuel
  obtain ⟨fuel, rfl⟩ : ∃ m, fuel = m + 1 := ⟨fuel - 1, by omega⟩
  have hlen : (bytes.extract p q).toList.length = q - p := by
    rw [Array.length_toList, Array.size_extract]
    omega
  have hout : (bytes.extract 0 p).size = p := by
    rw [Array.size_extract]
    omega
  have hread : (bytes.extract 0 q).size = q := by
    rw [Array.size_extract]
    omega
  have hroom : ¬ capacity < (bytes.extract 0 p).size + (bytes.extract p q).toList.length := by omega
  have hcopy : ¬ (d = 0 ∨ (bytes.extract 0 q).size < d ∨
      capacity < (bytes.extract 0 q).size + (minCopy + extra)) := by omega
  have hdistance : d < 256 ^ 2 := Nat.lt_of_le_of_lt hfar (by decide)
  obtain ⟨htoken, htoken'⟩ := toNat_token (bytes.extract p q).toList.length extra
  -- the two bytes of the distance come after the literals, which are therefore not the last ones
  obtain ⟨b, bs, hbytes⟩ : ∃ b bs, littleEndian 2 d ++ (extraOf extra ++ block) = b :: bs := ⟨_, _, rfl⟩
  have hnumber := takeNumber_append hdistance (extraOf extra ++ block)
  rw [hbytes] at hnumber
  have hfuel' : block.length < fuel := by
    simp only [sequenceBytes, List.length_append, List.length_cons] at hfuel
    omega
  simp only [sequenceBytes, List.cons_append, List.append_assoc, expandSequences, htoken, htoken',
    takeLength_extraOf, hroom, if_false, takeBytes_append, hbytes, hnumber,
    extract_append_literals hq, hcopy, copyBack_extract hpos hd hsize hagree]
  exact hrest capacity fuel hcapacity hfuel'

/-! ## The table -/

namespace Slots

/-- The places in the table lie before a place. -/
def Before (slots : Slots) (place : Nat) : Prop :=
  ∀ slot known : Nat, slots[slot]? = some known → known < place

variable {slots : Slots} {place : Nat}

/-- An empty table has no places. -/
theorem before_empty : Slots.Before {} place := by
  intro slot known hget
  rw [Std.HashMap.getElem?_empty] at hget
  cases hget

/-- A place that is looked up lies before the one looked at. -/
theorem Before.earlier_lt (h : slots.Before place) (hpos : 0 < place) (bytes : Array UInt8) (i : Nat) :
    slots.earlier bytes i < place := by
  rw [earlier, Std.HashMap.getD_eq_getD_getElem?]
  cases hget : slots[slotAt bytes i]? with
  | none => exact hpos
  | some known => exact h _ _ hget

/-- A place that is visited lies before the next one. -/
theorem Before.visit (h : slots.Before place) {next i : Nat} (hnext : place ≤ next) (hi : i < next)
    (bytes : Array UInt8) : (slots.visit bytes i).Before next := by
  intro slot known hget
  rw [Slots.visit, Std.HashMap.getElem?_insert] at hget
  split at hget
  · cases hget
    exact hi
  · exact Nat.lt_of_lt_of_le (h slot known hget) hnext

end Slots

/-! ## Writing -/

/-- A copy that is found at a place begins there or before and ends behind the place, within all bytes. Reading
goes over the literals before it and over the copy. -/
theorem resumes_copy {start place earlier back more : Nat} (hstart : start ≤ place)
    (hearlier : earlier < place) (hfar : place - earlier ≤ maxDistance)
    (hgroup : sameGroup bytes earlier place = true) (hroom : place + copyMargin ≤ bytes.size)
    (hback : commonBefore bytes (place - start) place earlier = back)
    (hmore : commonLength bytes (earlier + minCopy) (place + minCopy)
      (bytes.size - endLiterals - (place + minCopy)) = more) :
    place < place - back + (minCopy + (back + more)) ∧
      place - back + (minCopy + (back + more)) ≤ bytes.size ∧
      ∀ block, Resumes bytes (place - back + (minCopy + (back + more))) block →
        Resumes bytes start (sequenceBytes (bytes.extract start (place - back)).toList (place - earlier)
          (back + more) ++ block) := by
  -- the copy reaches back from the place and on behind it, as far as the bytes agree
  have hagree := agrees_around hgroup (place - start) (bytes.size - endLiterals - (place + minCopy))
  obtain ⟨hbefore, hbefore', hbeforeEarlier⟩ := commonBefore_le bytes (place - start) place earlier
  have hbehind := commonLength_le bytes (earlier + minCopy) (place + minCopy)
    (bytes.size - endLiterals - (place + minCopy))
  rw [hback] at hbefore hbefore' hbeforeEarlier
  rw [hback, hmore] at hagree
  rw [hmore] at hbehind
  simp only [copyMargin, endLiterals, minCopy] at hroom hbehind
  -- the bytes kept free at the end bound how far it may reach
  have hend : place - back + (minCopy + (back + more)) ≤ bytes.size := by
    simp only [minCopy]
    omega
  have hon : place < place - back + (minCopy + (back + more)) := by
    simp only [minCopy]
    omega
  have hsource : place - back - (place - earlier) = earlier - back := by omega
  refine ⟨hon, hend, fun block hrest => ?_⟩
  exact resumes_sequence (by omega) (by omega) (by omega) hfar hend (hsource ▸ hagree) hrest

/-- Whatever the table knows, the pieces written from a place on go to the end. -/
theorem resumes_compressFrom (bytes : Array UInt8) (fuel start place misses : Nat) (slots : Slots)
    (written : List (List UInt8)) (hslots : slots.Before place) (hpos : 0 < place)
    (hstart : start ≤ place) (hsize : start ≤ bytes.size) :
    ∃ pieces, compressFrom bytes fuel start place misses slots written = pieces ++ written ∧
      Resumes bytes start pieces.reverse.flatten := by
  induction fuel generalizing start place misses slots written with
  | zero => exact ⟨[_], rfl, by simpa using resumes_final hsize⟩
  | succ fuel ih =>
    rw [compressFrom]
    split
    · exact ⟨[_], rfl, by simpa using resumes_final hsize⟩
    · rename_i hroom
      dsimp only
      have hearlier := hslots.earlier_lt hpos bytes place
      generalize slots.earlier bytes place = earlier at hearlier ⊢
      split
      · rename_i hcopy
        obtain ⟨hfar, hgroup⟩ := hcopy
        obtain ⟨hon, hend, hgoes⟩ :=
          resumes_copy hstart hearlier hfar hgroup (Nat.not_lt.mp hroom) rfl rfl
        generalize commonBefore bytes (place - start) place earlier = back at *
        generalize commonLength bytes (earlier + minCopy) (place + minCopy)
          (bytes.size - endLiterals - (place + minCopy)) = more at *
        rw [Nat.add_assoc (place - back)]
        -- the next sequence begins where the copy ends, and the table knows places in the copy
        obtain ⟨pieces, hpieces, hresumes⟩ := ih _ _ 0
          ((slots.visit bytes place).visit bytes (place - back + (minCopy + (back + more)) - 2))
          (sequenceBytes (bytes.extract start (place - back)).toList (place - earlier)
            (back + more) :: written)
          ((hslots.visit (Nat.le_of_lt hon) hon bytes).visit (Nat.le_refl _) (by omega) bytes)
          (Nat.lt_trans hpos hon) (Nat.le_refl _) hend
        refine ⟨pieces ++ [sequenceBytes (bytes.extract start (place - back)).toList (place - earlier)
          (back + more)], by simpa using hpieces, ?_⟩
        rw [List.reverse_append, List.reverse_singleton, List.singleton_append, List.flatten_cons]
        exact hgoes _ hresumes
      · have hnext : place < place + 1 + misses / patience := by
          rw [Nat.add_assoc]
          exact Nat.lt_add_of_pos_right (Nat.lt_of_lt_of_le Nat.one_pos (Nat.le_add_right 1 _))
        exact ih _ _ _ _ _ (hslots.visit (Nat.le_of_lt hnext) hnext bytes) (Nat.lt_trans hpos hnext)
          (Nat.le_trans hstart (Nat.le_of_lt hnext)) hsize

/-- What a block is made of is read back from it. -/
theorem expand?_compress (bytes : List UInt8) {capacity : Nat} (h : bytes.length ≤ capacity) :
    expand? capacity (compress bytes) = some bytes := by
  obtain ⟨pieces, hpieces, hresumes⟩ := resumes_compressFrom bytes.toArray bytes.length 0 1 0 {} []
    Slots.before_empty Nat.one_pos (Nat.zero_le 1) (Nat.zero_le _)
  have hblock : compress bytes = pieces.reverse.flatten := by
    rw [compress, hpieces, List.append_nil]
  have hempty : bytes.toArray.extract 0 0 = #[] := by simp
  have hread := hresumes capacity ((compress bytes).length + 1) (by simpa using h)
    (by rw [hblock]; exact Nat.lt_succ_self _)
  rw [hempty, ← hblock] at hread
  rw [expand?, hread]
  simp

/-- A packed block gives its bytes back, as long as four bytes can count them. -/
theorem unpack?_pack {bytes : List UInt8} (h : bytes.length < 2 ^ 32) :
    unpack? (pack bytes) = some bytes := by
  have hlength : bytes.length < 256 ^ 4 := h
  simp only [unpack?, pack, takeNumber_append hlength, expand?_compress bytes (Nat.le_refl _)]

end EventIndex.Binary.Lz4
