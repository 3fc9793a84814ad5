import EventIndex.Proofs.Binary.Crc32
import EventIndex.Proofs.Page.Transparency
import EventIndex.Proofs.Store.Records

/-! # Corruption — damage on the disk is noticed

Descriptors and pages are stored with a checksum. Whole ones are read back as they were written. Up to
four bytes next to each other that changed are noticed wherever they stand: in a descriptor anywhere in
its 64 bytes, the checksum included (`Descriptor.refuses_splice`), in a page anywhere in its payload
(`PageFile.refuses_splice`), once the page is read from the file and not from the cache.

Three things come together in the proof for pages. The bytes that were changed are bytes of the payload,
and so of all that the checksum is of (`PageFile.checked_splice`). The checksum notices any change that
is so short. And the page is checked whenever it is read from the file.
-/

namespace EventIndex

open Binary

/-! ## Descriptors -/

namespace Descriptor

/-- The checksum of 64 bytes is right exactly if their remainder is that of a checksum. -/
theorem checksum_iff {bytes : List UInt8} (h : bytes.length = byteSize) :
    UInt32.ofNat (numberAt bytes checkedSize 4) = Crc32.checksum (bytes.take checkedSize) ↔
      bytes.foldl Crc32.step 0xFFFFFFFF = Crc32.residue := by
  have hstored : (bytes.drop checkedSize).length = 4 := by
    rw [List.length_drop, h]
    rfl
  have hwhole := Crc32.foldl_eq_residue_iff (bytes.take checkedSize) hstored
  rw [List.take_append_drop] at hwhole
  rw [hwhole, numberAt, List.take_of_length_le hstored.le]

/-- The bytes of a descriptor with a few of them changed are refused for their checksum. -/
theorem refuses_splice (d : Descriptor) {offset : Nat} {changed : List UInt8}
    (hshort : changed.length ≤ 4) (hfits : offset + changed.length ≤ byteSize)
    (hne : splice d.toBytes offset changed ≠ d.toBytes) :
    ∃ stored computed, ofBytes (splice d.toBytes offset changed) =
      .error (.corrupt (.descriptorChecksum stored computed)) := by
  rw [← length_toBytes d] at hfits
  have hlength : (splice d.toBytes offset changed).length = byteSize :=
    (length_splice hfits).trans (length_toBytes d)
  have hwhole : d.toBytes.foldl Crc32.step 0xFFFFFFFF = Crc32.residue := by
    have hsum : (Crc32.checksum d.checkedBytes).toNat < 256 ^ 4 := (Crc32.checksum _).toNat_lt
    refine (Crc32.foldl_eq_residue_iff d.checkedBytes (length_littleEndian 4 _)).mpr ?_
    rw [ofLittleEndian_littleEndian hsum, UInt32.ofNat_toNat]
  have hwrong : UInt32.ofNat (numberAt (splice d.toBytes offset changed) checkedSize 4) ≠
      Crc32.checksum ((splice d.toBytes offset changed).take checkedSize) := by
    rw [Ne, checksum_iff hlength, ← hwhole]
    exact Crc32.foldl_splice_ne _ hshort hfits hne
  rw [ofBytes, if_neg (Nat.not_lt.mpr hlength.ge)]
  exact ⟨_, _, if_pos hwrong⟩

end Descriptor

/-! ## Pages -/

namespace PageFile

variable {f : PageFile} {id : PageId} {offset : Nat} {payload changed : List UInt8}

theorem blockBytes_setByte (b : UInt8) (h : offset / f.pageSize = id) :
    (f.setByte offset b).blockBytes id = (f.blockBytes id).set (offset % f.pageSize) b := by
  subst h
  have hblock : (f.setByte offset b).blocks[offset / f.pageSize]? =
      some ⟨((f.blocks[offset / f.pageSize]?).getD
        (pack (List.replicate f.pageSize 0))).data.setIfInBounds (offset % f.pageSize) b⟩ :=
    Std.HashMap.getElem?_insert_self
  rw [blockBytes, blockBytes, hblock]
  cases f.blocks[offset / f.pageSize]? <;> simp [unpack, pack]

/-- The cache knows nothing of what changes behind it. -/
theorem cache_patch (f : PageFile) (place : Nat) (changed : List UInt8) :
    (f.patch place changed).cache = f.cache := by
  induction changed generalizing f place with
  | nil => rfl
  | cons b changed ih => exact ih (f.setByte place b) (place + 1)

/-- Changing bytes of a page within its bounds changes these bytes of it. -/
theorem patch_spec (id : PageId) (changed : List UInt8) (hpage : offset + changed.length ≤ f.pageSize)
    (hblock : offset + changed.length ≤ (f.blockBytes id).length) :
    (f.patch (id * f.pageSize + offset) changed).blockBytes id =
        splice (f.blockBytes id) offset changed ∧
      (f.patch (id * f.pageSize + offset) changed).pageSize = f.pageSize ∧
      f.length ≤ (f.patch (id * f.pageSize + offset) changed).length := by
  induction changed generalizing f offset with
  | nil => exact ⟨(splice_nil _ _).symm, rfl, Nat.le_refl _⟩
  | cons b changed ih =>
    rw [List.length_cons] at hpage hblock
    have hlt : offset < f.pageSize := by omega
    let g := f.setByte (id * f.pageSize + offset) b
    -- the byte belongs to this page, at this offset
    have hdiv : (id * f.pageSize + offset) / f.pageSize = id := by
      rw [Nat.add_comm, Nat.add_mul_div_right _ _ (by omega), Nat.div_eq_of_lt hlt, Nat.zero_add]
    have hmod : (id * f.pageSize + offset) % f.pageSize = offset := by
      rw [Nat.add_comm, Nat.add_mul_mod_self_right, Nat.mod_eq_of_lt hlt]
    have hset : g.blockBytes id = (f.blockBytes id).set offset b := by
      rw [blockBytes_setByte b hdiv, hmod]
    have hlonger : f.length ≤ g.length := Nat.le_max_left _ _
    have hpage' : offset + 1 + changed.length ≤ g.pageSize := by
      show _ ≤ f.pageSize
      omega
    have hblock' : offset + 1 + changed.length ≤ (g.blockBytes id).length := by
      rw [hset, List.length_set]
      omega
    obtain ⟨hbytes, hsize, hlength⟩ := ih hpage' hblock'
    refine ⟨?_, hsize, Nat.le_trans hlonger hlength⟩
    rw [splice_cons (by omega), ← hset]
    exact hbytes

/-- Changed bytes of a payload are changed bytes of all that the checksum is of. -/
theorem checked_splice {block : List UInt8} {size : Nat}
    (h : offset + changed.length ≤ ((block.drop 4).take (4 + size)).length - 4)
    (hpos : 0 < changed.length) :
    ((splice block (pageHeaderSize + offset) changed).drop 4).take (4 + size) =
      splice ((block.drop 4).take (4 + size)) (4 + offset) changed := by
  have hheader : pageHeaderSize = 8 := rfl
  rw [List.length_take, List.length_drop] at h
  have hplace : pageHeaderSize + offset - 4 = 4 + offset := by omega
  have hblock : 4 + offset ≤ (block.drop 4).length := by
    rw [List.length_drop]
    omega
  rw [drop_splice (by omega) (by omega), hplace, take_splice (by omega) hblock]

/-- A page with a few bytes of its payload changed is refused for its checksum. -/
theorem refuses_splice (hload : f.load id = .ok payload) (hshort : changed.length ≤ 4)
    (hfits : offset + changed.length ≤ payload.length) (hne : splice payload offset changed ≠ payload) :
    ∃ stored computed,
      (f.patch (id * f.pageSize + (pageHeaderSize + offset)) changed).load id =
        .error (.corrupt (.pageChecksum id stored computed)) := by
  obtain ⟨size, hcapacity, hend, hcount, hsum, rfl⟩ := checks_of_load hload
  have hpos := length_pos_of_splice_ne hne
  have hheader : pageHeaderSize = 8 := rfl
  rw [List.length_drop] at hfits
  have hbounds := hfits
  rw [List.length_take, List.length_drop] at hbounds
  have hpage : pageHeaderSize + offset + changed.length ≤ f.pageSize := by
    rw [payloadCapacity] at hcapacity
    omega
  obtain ⟨hblock, hsize, hlength⟩ :=
    patch_spec id changed hpage (by omega)
  have hcap : (f.patch (id * f.pageSize + (pageHeaderSize + offset)) changed).payloadCapacity =
      f.payloadCapacity := by
    rw [payloadCapacity, hsize, payloadCapacity]
  -- the length and the stored checksum stand before the payload
  have hstored (place : Nat) (hplace : place ≤ 4) :
      numberAt (splice (f.blockBytes id) (pageHeaderSize + offset) changed) place 4 =
        numberAt (f.blockBytes id) place 4 := numberAt_splice_of_le (by omega) (by omega)
  have hother : splice (((f.blockBytes id).drop 4).take (4 + size)) (4 + offset) changed ≠
      ((f.blockBytes id).drop 4).take (4 + size) := by
    intro heq
    have hdrop := congrArg (List.drop 4) heq
    rw [drop_splice (Nat.le_add_right 4 offset) (by omega), Nat.add_sub_cancel_left] at hdrop
    exact hne hdrop
  have hwrong := Crc32.checksum_splice_ne hshort (by omega) hother
  rw [← hsum, ← checked_splice hfits hpos] at hwrong
  rw [load, hcap, hsize, if_neg (Nat.not_lt.mpr (Nat.le_trans hend hlength)), hblock]
  simp only [hstored 0 (Nat.zero_le 4), hstored 4 (Nat.le_refl 4), hcount]
  rw [if_neg (Nat.not_lt.mpr hcapacity)]
  exact ⟨_, _, if_pos hwrong.symm⟩

/-! ## What was stored -/

theorem outcome_read_miss (h : f.cache.find? id = none) : Act.outcome (read id) f = f.load id := by
  rw [Act.outcome, read_miss h]
  cases f.load id <;> rfl

end PageFile

/-- The bytes of a descriptor give it back, and a page gives back what was last written to it. With up
to four bytes next to each other changed, anywhere in the descriptor or in the payload, neither gives
anything but an error, as long as the page is not in the cache.

Four bytes are as many as the checksum has. That a change of so many adjacent bits never gives the same
remainder is proved from the polynomial (`Crc32.checksum_splice_ne`). -/
theorem corruption_detected {pageSize cachePages : Nat} {fresh : PageFile}
    (h : PageFile.create pageSize cachePages = .ok fresh) (calls : List PageCall) :
    (∀ d : Descriptor, Descriptor.ofBytes d.toBytes = .ok d ∧
      ∀ offset changed, changed.length ≤ 4 → offset + changed.length ≤ Descriptor.byteSize →
        splice d.toBytes offset changed ≠ d.toBytes →
        ∃ stored computed, Descriptor.ofBytes (splice d.toBytes offset changed) =
          .error (.corrupt (.descriptorChecksum stored computed))) ∧
    (∀ id payload, lastWritten id (fresh.transcript calls) = some payload →
      Act.outcome (PageFile.read id) (fresh.run calls) = .ok payload ∧
      ∀ offset changed, changed.length ≤ 4 → offset + changed.length ≤ payload.length →
        splice payload offset changed ≠ payload → (fresh.run calls).cache.find? id = none →
        ∃ stored computed, Act.outcome (PageFile.read id)
            ((fresh.run calls).patch (id * (fresh.run calls).pageSize + (pageHeaderSize + offset))
              changed) =
          .error (.corrupt (.pageChecksum id stored computed))) := by
  refine ⟨fun d => ⟨Descriptor.ofBytes_toBytes d, fun offset changed => d.refuses_splice⟩,
    fun id payload hlast => ?_⟩
  have hfaithful := (PageFile.faithful_create h).run calls
  rw [List.nil_append] at hfaithful
  have hload := hfaithful.written id payload hlast
  refine ⟨(PageFile.outcome_read hfaithful.sound id).trans hload,
    fun offset changed hshort hfits hne huncached => ?_⟩
  rw [PageFile.outcome_read_miss ((PageFile.cache_patch _ _ _).symm ▸ huncached)]
  exact PageFile.refuses_splice hload hshort hfits hne

/-- A byte changes on a page that was written and left the cache, and four bytes of a descriptor
change, two of them in its checksum. -/
theorem corruption_detected_small :
    ∃ fresh, PageFile.create 256 16 = .ok fresh ∧
      ∃ f, f = fresh.run [.allocate, .write 1 [7, 8, 9], .release 1] ∧
        Act.outcome (PageFile.read 1) f = .ok [7, 8, 9] ∧
        (∃ stored computed, Act.outcome (PageFile.read 1)
            (f.patch (1 * f.pageSize + (pageHeaderSize + 1)) [0]) =
          .error (.corrupt (.pageChecksum 1 stored computed))) ∧
        ∃ d : Descriptor, d = ⟨3, 0, 0, 1, 3, some 9⟩ ∧ Descriptor.ofBytes d.toBytes = .ok d ∧
          ∃ stored computed, Descriptor.ofBytes (splice d.toBytes 58 [1, 0, 0, 0]) =
            .error (.corrupt (.descriptorChecksum stored computed)) := by
  obtain ⟨fresh, hfresh⟩ : ∃ fresh, PageFile.create 256 16 = .ok fresh := ⟨_, rfl⟩
  obtain ⟨hdescriptor, hpage⟩ :=
    corruption_detected hfresh [.allocate, .write 1 [7, 8, 9], .release 1]
  have hlast : lastWritten 1 (fresh.transcript [.allocate, .write 1 [7, 8, 9], .release 1]) =
      some [7, 8, 9] := by
    cases hfresh
    rfl
  have huncached :
      (fresh.run [.allocate, .write 1 [7, 8, 9], .release 1]).cache.find? 1 = none := by
    cases hfresh
    rfl
  obtain ⟨hread, hdamaged⟩ := hpage 1 [7, 8, 9] hlast
  exact ⟨fresh, hfresh, _, rfl, hread,
    hdamaged 1 [0] (by decide) (by decide) (by decide) huncached, _, rfl, (hdescriptor _).1,
    (hdescriptor _).2 58 [1, 0, 0, 0] (by decide) (by decide) (by decide +kernel)⟩

end EventIndex
