import EventIndex.Proofs.Binary.LittleEndian
import EventIndex.Store.Basic

/-! # Reading back descriptors and directories

`Descriptor.ofBytes_toBytes` says that the bytes of a descriptor pass their own check and give the
descriptor back, and `Store.directoryOf?_directoryBytes` that those of a directory do, when its page
numbers, lengths and positions fit their bytes.
-/

namespace EventIndex

open Binary

/-! ## Descriptors -/

namespace Descriptor

theorem length_checkedBytes (d : Descriptor) : d.checkedBytes.length = checkedSize := by
  simp [checkedBytes, checkedSize]

theorem length_toBytes (d : Descriptor) : d.toBytes.length = byteSize := by
  simp [toBytes, length_checkedBytes, checkedSize, byteSize]

/-- A number of a descriptor is found behind the bytes before it. -/
theorem numberAt_of_split {bytes rest : List UInt8} {width n : Nat} (front : List UInt8) (place : Nat)
    (h : bytes = front ++ (littleEndian width n ++ rest)) (hplace : front.length = place)
    (hn : n < 256 ^ width) : numberAt bytes place width = n := by
  rw [h, ← hplace]
  exact numberAt_append hn front rest

theorem ofChecked_toBytes (d : Descriptor) : ofChecked d.toBytes = d := by
  have hlength : d.length.toNat < 256 ^ 8 := d.length.toNat_lt
  have hcount : d.pageCount.toNat < 256 ^ 4 := d.pageCount.toNat_lt
  have hdirectory : d.directory.toNat < 256 ^ 4 := d.directory.toNat_lt
  have htailPage : d.tailPage.toNat < 256 ^ 4 := d.tailPage.toNat_lt
  have htailLength : d.tailLength.toNat < 256 ^ 4 := d.tailLength.toNat_lt
  have hlast : (d.lastKey.getD 0).toNat < 256 ^ 8 := (d.lastKey.getD 0).toNat_lt
  -- each field stands behind the fields before it
  have h0 : numberAt d.toBytes 0 8 = d.length.toNat :=
    numberAt_of_split [] 0 (by simp only [toBytes, checkedBytes, List.append_assoc]; rfl)
      rfl hlength
  have h8 : numberAt d.toBytes 8 4 = d.pageCount.toNat :=
    numberAt_of_split (littleEndian 8 d.length.toNat) 8
      (by simp only [toBytes, checkedBytes, List.append_assoc]; rfl) (by simp) hcount
  have h12 : numberAt d.toBytes 12 4 = d.directory.toNat :=
    numberAt_of_split (littleEndian 8 d.length.toNat ++ littleEndian 4 d.pageCount.toNat) 12
      (by simp only [toBytes, checkedBytes, List.append_assoc]; rfl) (by simp) hdirectory
  have h16 : numberAt d.toBytes 16 4 = d.tailPage.toNat :=
    numberAt_of_split (littleEndian 8 d.length.toNat ++
      littleEndian 4 d.pageCount.toNat ++ littleEndian 4 d.directory.toNat) 16
      (by simp only [toBytes, checkedBytes, List.append_assoc]; rfl) (by simp) htailPage
  have h20 : numberAt d.toBytes 20 4 = d.tailLength.toNat :=
    numberAt_of_split (littleEndian 8 d.length.toNat ++
      littleEndian 4 d.pageCount.toNat ++ littleEndian 4 d.directory.toNat ++
      littleEndian 4 d.tailPage.toNat) 20
      (by simp only [toBytes, checkedBytes, List.append_assoc]; rfl) (by simp) htailLength
  have hmark : ([if d.lastKey.isSome then 1 else 0] : List UInt8) =
      littleEndian 1 (if d.lastKey.isSome then 1 else 0) := by
    cases d.lastKey <;> rfl
  have h24 : numberAt d.toBytes 24 1 = if d.lastKey.isSome then 1 else 0 :=
    numberAt_of_split (littleEndian 8 d.length.toNat ++
      littleEndian 4 d.pageCount.toNat ++ littleEndian 4 d.directory.toNat ++
      littleEndian 4 d.tailPage.toNat ++ littleEndian 4 d.tailLength.toNat) 24
      (by simp only [toBytes, checkedBytes, List.append_assoc, hmark]; rfl) (by simp)
      (by split <;> decide)
  have h25 : numberAt d.toBytes 25 8 = (d.lastKey.getD 0).toNat :=
    numberAt_of_split (littleEndian 8 d.length.toNat ++
      littleEndian 4 d.pageCount.toNat ++ littleEndian 4 d.directory.toNat ++
      littleEndian 4 d.tailPage.toNat ++ littleEndian 4 d.tailLength.toNat ++
      [if d.lastKey.isSome then 1 else 0]) 25
      (by simp only [toBytes, checkedBytes, List.append_assoc]; rfl) (by simp) hlast
  simp only [ofChecked, h0, h8, h12, h16, h20, h24, h25, UInt64.ofNat_toNat, UInt32.ofNat_toNat]
  rcases d with ⟨length, pageCount, directory, tailPage, tailLength, lastKey⟩
  cases lastKey <;> simp

/-- The bytes of a descriptor pass their own check and give it back. -/
theorem ofBytes_toBytes (d : Descriptor) : ofBytes d.toBytes = .ok d := by
  have hsum : (Crc32.checksum d.checkedBytes).toNat < 256 ^ 4 := (Crc32.checksum _).toNat_lt
  have hlen : ¬ d.toBytes.length < byteSize := by rw [length_toBytes]; exact Nat.lt_irrefl _
  have hsplit : d.toBytes = d.checkedBytes ++
      (littleEndian 4 (Crc32.checksum d.checkedBytes).toNat ++ []) := by simp [toBytes]
  have hstored : numberAt d.toBytes checkedSize 4 = (Crc32.checksum d.checkedBytes).toNat :=
    numberAt_of_split d.checkedBytes checkedSize hsplit
      d.length_checkedBytes hsum
  have htake : d.toBytes.take checkedSize = d.checkedBytes :=
    List.take_left' d.length_checkedBytes
  rw [ofBytes, if_neg hlen]
  simp only [hstored, htake, UInt32.ofNat_toNat, ofChecked_toBytes]
  rw [if_neg (fun h => h rfl)]

end Descriptor

/-! ## Directories -/

/-- The numbers of a directory entry fit their bytes. -/
structure PageRef.Fits (p : PageRef) : Prop where
  page : p.page < 256 ^ 4
  length : p.length < 256 ^ 4
  start : p.start < 256 ^ 8

namespace Store

theorem takeRef_refBytes {p : PageRef} (h : p.Fits) (rest : List UInt8) :
    takeRef (refBytes p ++ rest) = some (p, rest) := by
  have hfirst : p.firstKey.toNat < 256 ^ 8 := p.firstKey.toNat_lt
  have hlast : p.lastKey.toNat < 256 ^ 8 := p.lastKey.toNat_lt
  simp [takeRef, refBytes, takeNumber_append h.page, takeNumber_append h.length,
    takeNumber_append h.start, takeNumber_append hfirst, takeNumber_append hlast]

theorem directoryOf?_directoryBytes {directory : List PageRef} (hlen : directory.length < 2 ^ 64)
    (h : ∀ p ∈ directory, p.Fits) : directoryOf? (directoryBytes directory) = some directory := by
  have htake := takeCounted_counted hlen (fun p hp rest => takeRef_refBytes (h p hp) rest) []
  rw [List.append_nil] at htake
  rw [directoryOf?, directoryBytes, htake]
  rfl

theorem directoryBytes_ne_nil (directory : List PageRef) : directoryBytes directory ≠ [] := by
  simp [directoryBytes, counted, littleEndian]

end Store

end EventIndex
