import Mathlib.Algebra.GroupWithZero.Nat
import EventIndex.Proofs.Act
import EventIndex.Proofs.Binary.LittleEndian
import EventIndex.Proofs.Recency
import Mathlib.Data.List.Nodup

/-! # Disk — what a page file holds

The cache, the counters and the padding of a page file are nobody's business but its own. `disk` is
what is left when they are taken away: the payload of each page, the number of pages handed out and
the free ones. A page file is `Sound` when its cache agrees with its bytes, and each of the four
operations keeps it so.

Pages in use are counted, not only listed: `Owned d used` says that every page handed out is either
free or in use, and that once. What an operation does to the pages of its caller is an `Exchange`:
it takes some pages for others and touches no page besides, whatever else is in use. Exchanges go
one after another (`trans`) and leave room for bystanders (`frame`).

Main results:

* `Exchange.trans`, `Exchange.frame`, `Exchange.keeps`: how exchanges are put together, and what they
  leave alone.
* `read_spec`, `allocate_spec`, `release_spec`, `write_spec`: what each operation does to the disk.
* `create_spec`: a new file is sound, and nobody uses a page of it.
-/

namespace EventIndex

/-- The payloads of the pages of a file, and which pages are free. -/
structure Disk where
  /-- The bytes of payload that one page can hold. -/
  capacity : Nat
  pages : Nat → Option (List UInt8)
  /-- The pages handed out so far, the header included. -/
  pageCount : Nat
  free : List Nat

namespace Disk

/-- Every page handed out is free or in use, and that once. -/
def Owned (d : Disk) (used : List Nat) : Prop :=
  ∀ p, d.free.count p + used.count p = if 0 < p ∧ p < d.pageCount then 1 else 0

/-- What some pages held they still hold. -/
def Keeps (d d' : Disk) (ps : List Nat) : Prop :=
  ∀ p ∈ ps, ∀ payload, d.pages p = some payload → d'.pages p = some payload

/-- From one disk to the next, the pages `before` are given up for the pages `after`, and all
others that are in use stay in use and keep what they hold. -/
structure Exchange (d d' : Disk) (before after : List Nat) : Prop where
  capacity_eq : d'.capacity = d.capacity
  pageCount_le : d.pageCount ≤ d'.pageCount
  owned : ∀ rest, d.Owned (before ++ rest) → d'.Owned (after ++ rest)
  kept : ∀ rest, d.Owned (before ++ rest) → d.Keeps d' rest

variable {d d' d'' : Disk} {used used' rest before after middle : List Nat} {p : Nat}

/-! ## Pages in use -/

/-- The order in which pages in use are listed makes no difference. -/
theorem Owned.perm (h : d.Owned used) (hp : used.Perm used') : d.Owned used' := fun p => by
  rw [← hp.count_eq]
  exact h p

/-- Nobody uses a page while there are none but the header. -/
theorem owned_nil (hcount : d.pageCount = 1) (hfree : d.free = []) : d.Owned [] := fun p => by
  have hnone : ¬ (0 < p ∧ p < d.pageCount) := by omega
  rw [hfree, if_neg hnone]
  rfl

theorem Owned.count_le_one (h : d.Owned used) (p : PageId) : used.count p ≤ 1 := by
  have hp := h p
  split at hp <;> omega

/-- No page is in use twice. -/
theorem Owned.nodup (h : d.Owned used) : used.Nodup :=
  List.nodup_iff_count_le_one.mpr h.count_le_one

/-- Pages in use have been handed out, and the header is none of them. -/
theorem Owned.bounds (h : d.Owned used) (hp : p ∈ used) : 0 < p ∧ p < d.pageCount := by
  have hcount := h p
  have hpos : 0 < used.count p := List.count_pos_iff.mpr hp
  split at hcount
  · assumption
  · omega

theorem Owned.ne_noPage (h : d.Owned used) (hp : p ∈ used) : p ≠ noPage :=
  Nat.pos_iff_ne_zero.mp (h.bounds hp).1

/-- The header is never free. -/
theorem Owned.noPage_not_mem_free (h : d.Owned used) : noPage ∉ d.free := by
  intro hmem
  have hcount := h noPage
  have hpos : 0 < d.free.count noPage := List.count_pos_iff.mpr hmem
  rw [if_neg (fun hp => Nat.lt_irrefl _ hp.1)] at hcount
  omega

/-- A page is not in use twice. -/
theorem Owned.not_mem_of_mem (h : d.Owned (used ++ rest)) (hp : p ∈ used) : p ∉ rest := by
  intro hrest
  have hle := h.count_le_one p
  have h1 : 0 < used.count p := List.count_pos_iff.mpr hp
  have h2 : 0 < rest.count p := List.count_pos_iff.mpr hrest
  rw [List.count_append] at hle
  omega

/-- Fewer pages are in use than were handed out. -/
theorem Owned.length_lt (h : d.Owned used) (hpos : 0 < d.pageCount) :
    used.length < d.pageCount := by
  have hsub : used ⊆ List.range' 1 (d.pageCount - 1) := by
    intro p hp
    have hb := h.bounds hp
    rw [List.mem_range'_1]
    omega
  have hle := h.nodup.length_le_of_subset hsub
  rw [List.length_range'] at hle
  omega

/-- What is in use besides afterwards was free before, or not handed out yet. -/
theorem Owned.perm_of_allocated {new : List Nat} (h : d.Owned used) (h' : d'.Owned (new ++ used))
    (hpos : 0 < d.pageCount) (hle : d.pageCount ≤ d'.pageCount) :
    (new ++ d'.free).Perm (d.free ++ List.range' d.pageCount (d'.pageCount - d.pageCount)) := by
  refine List.perm_iff_count.mpr fun p => ?_
  have hp := h p
  have hp' := h' p
  have hrange := (List.nodup_range' (s := d.pageCount) (n := d'.pageCount - d.pageCount)).count (a := p)
  simp only [List.mem_range'_1] at hrange
  rw [List.count_append] at hp'
  rw [List.count_append, List.count_append, hrange]
  split at hp <;> split at hp' <;> split <;> omega

/-! ## Keeping pages -/

theorem Keeps.refl (d : Disk) (ps : List Nat) : d.Keeps d ps := fun _ _ _ h => h

/-- What is kept twice is kept. -/
theorem Keeps.trans {ps : List Nat} (h : d.Keeps d' ps) (h' : d'.Keeps d'' ps) :
    d.Keeps d'' ps := fun p hp payload hd => h' p hp payload (h p hp payload hd)

/-- Who keeps some pages keeps fewer of them. -/
theorem Keeps.mono {ps qs : List Nat} (h : d.Keeps d' ps) (hq : qs ⊆ ps) : d.Keeps d' qs :=
  fun p hp => h p (hq hp)

/-! ## Exchanges -/

theorem Exchange.refl (d : Disk) (used : List Nat) : d.Exchange d used used :=
  ⟨rfl, Nat.le_refl _, fun _ h => h, fun rest _ => Keeps.refl d rest⟩

/-- One exchange after another is an exchange. -/
theorem Exchange.trans (h : d.Exchange d' before middle) (h' : d'.Exchange d'' middle after) :
    d.Exchange d'' before after where
  capacity_eq := h'.capacity_eq.trans h.capacity_eq
  pageCount_le := Nat.le_trans h.pageCount_le h'.pageCount_le
  owned rest hd := h'.owned rest (h.owned rest hd)
  kept rest hd := (h.kept rest hd).trans (h'.kept rest (h.owned rest hd))

/-- Pages that an exchange does not touch may be counted in. -/
theorem Exchange.frame (h : d.Exchange d' before after) (more : List Nat) :
    d.Exchange d' (before ++ more) (after ++ more) where
  capacity_eq := h.capacity_eq
  pageCount_le := h.pageCount_le
  owned rest hd := by
    rw [List.append_assoc] at hd ⊢
    exact h.owned (more ++ rest) hd
  kept rest hd := by
    rw [List.append_assoc] at hd
    exact (h.kept (more ++ rest) hd).mono (List.subset_append_right more rest)

/-- The order in which exchanged pages are listed makes no difference. -/
theorem Exchange.perm {before' after' : List Nat} (h : d.Exchange d' before after)
    (hb : before.Perm before') (ha : after.Perm after') : d.Exchange d' before' after' where
  capacity_eq := h.capacity_eq
  pageCount_le := h.pageCount_le
  owned rest hd := (h.owned rest (hd.perm (hb.symm.append_right rest))).perm (ha.append_right rest)
  kept rest hd := h.kept rest (hd.perm (hb.symm.append_right rest))

/-- What an exchange does not touch it keeps. -/
theorem Exchange.keeps (h : d.Exchange d' before after) (hd : d.Owned (before ++ rest)) :
    d.Keeps d' rest := h.kept rest hd

end Disk

/-! ## The disk of a page file -/

namespace PageFile

open Binary

/-- What a page file holds, whatever its cache knows. -/
def disk (f : PageFile) : Disk where
  capacity := f.payloadCapacity
  pages id := (f.load id).toOption
  pageCount := f.pageCount
  free := f.free

/-- The size of a page is one that is allowed, the header has been handed out, and the cache agrees
with the bytes. -/
structure Sound (f : PageFile) : Prop where
  minSize : minPageSize ≤ f.pageSize
  maxSize : f.pageSize ≤ maxPageSize
  pageCount_pos : 0 < f.pageCount
  coherent : ∀ id payload, f.cache.find? id = some payload → f.load id = .ok (unpack payload)

variable {f f' : PageFile} {id : Nat} {payload : List UInt8}

/-- A page holds what its bytes give when they are checked. -/
theorem disk_pages_eq_some : f.disk.pages id = some payload ↔ f.load id = .ok payload := by
  show (f.load id).toOption = some payload ↔ _
  cases h : f.load id <;> simp [Except.toOption]

/-- What is packed for the file is unpacked again. -/
theorem unpack_pack (bytes : List UInt8) : unpack (pack bytes) = bytes := by
  simp [unpack, pack]

/-- A page takes 248 bytes at least, whatever size was asked for. -/
theorem Sound.capacity_bounds (hf : f.Sound) :
    248 ≤ f.disk.capacity ∧ f.disk.capacity < 2 ^ 32 := by
  have h1 := hf.minSize
  have h2 := hf.maxSize
  simp only [minPageSize, maxPageSize] at h1 h2
  show 248 ≤ f.pageSize - 8 ∧ f.pageSize - 8 < 2 ^ 32
  omega

/-- What it takes to read a payload from the bytes of a page. -/
theorem checks_of_load (h : f.load id = .ok payload) :
    ∃ size ≤ f.payloadCapacity, (id + 1) * f.pageSize ≤ f.length ∧
      numberAt (f.blockBytes id) 4 4 = size ∧
      UInt32.ofNat (numberAt (f.blockBytes id) 0 4) =
        Crc32.checksum (((f.blockBytes id).drop 4).take (4 + size)) ∧
      payload = (((f.blockBytes id).drop 4).take (4 + size)).drop 4 := by
  unfold load at h
  split at h
  · cases h
  rename_i hbeyond
  dsimp only at h
  split at h
  · cases h
  rename_i hsize
  split at h
  · cases h
  rename_i hsum
  cases h
  exact ⟨_, Nat.not_lt.mp hsize, Nat.not_lt.mp hbeyond, rfl, not_not.mp hsum, rfl⟩

/-- A page that can be read lies within the file. -/
theorem lt_wholePages (hf : f.Sound) (h : f.disk.pages id = some payload) : id < f.wholePages := by
  rw [disk_pages_eq_some, load] at h
  split at h
  · simp at h
  · rename_i hlen
    have hpos : 0 < f.pageSize := Nat.lt_of_lt_of_le (by decide) hf.minSize
    exact (Nat.le_div_iff_mul_le hpos).mpr (Nat.not_lt.mp hlen)

/-! ## Reading -/

/-- Remembering what a page holds changes nothing else. -/
theorem sound_remember (hf : f.Sound) (h : f.load id = .ok payload) :
    (f.remember id payload).Sound := by
  refine ⟨hf.minSize, hf.maxSize, hf.pageCount_pos, fun id' cached hfind => ?_⟩
  have hput := Recency.find?_of_keep hfind
  rw [Recency.find?_put] at hput
  by_cases hid : id = id'
  · rw [if_pos hid, Option.some.injEq] at hput
    rw [← hput, unpack_pack, ← hid]
    exact h
  · rw [if_neg hid] at hput
    exact hf.coherent id' cached hput

/-- A page that holds something can be read, and nothing changes on the disk. -/
theorem read_spec (hf : f.Sound) (h : f.disk.pages id = some payload) :
    ∃ f', read id f = .ok payload f' ∧ f'.Sound ∧ f'.disk = f.disk := by
  rw [disk_pages_eq_some] at h
  cases hfind : f.cache.find? id with
  | some cached =>
    -- the cached payload is the one on the disk
    have hpay : payload = unpack cached := by
      have hload := hf.coherent id cached hfind
      rw [h] at hload
      exact Except.ok.inj hload
    refine ⟨{ f with hits := f.hits + 1, cache := f.cache.promote id }, ?_, ?_, rfl⟩
    · simp only [read, hfind, hpay]
    · refine ⟨hf.minSize, hf.maxSize, hf.pageCount_pos, fun id' other hother => ?_⟩
      rw [Recency.find?_promote] at hother
      exact hf.coherent id' other hother
  | none =>
    let g : PageFile := { f with misses := f.misses + 1 }
    have hload : g.load id = .ok payload := h
    refine ⟨g.remember id payload, ?_, ?_, rfl⟩
    · simp only [read, hfind, g, hload]
    · exact sound_remember ⟨hf.minSize, hf.maxSize, hf.pageCount_pos, hf.coherent⟩ hload

/-- Reading changes nothing on disk, whether it fails or not. -/
theorem after_read (hf : f.Sound) (id : PageId) :
    (Act.after (read id) f).Sound ∧ (Act.after (read id) f).disk = f.disk := by
  cases h : f.disk.pages id with
  | some payload =>
    obtain ⟨f', hrun, hf', hdisk⟩ := read_spec hf h
    rw [Act.after_ok hrun]
    exact ⟨hf', hdisk⟩
  | none =>
    -- what is not on the disk is not cached either
    have hmiss : f.cache.find? id = none := by
      by_contra hne
      obtain ⟨cached, hfind⟩ := Option.ne_none_iff_exists'.mp hne
      rw [disk_pages_eq_some.mpr (hf.coherent id cached hfind)] at h
      cases h
    obtain ⟨e, hload⟩ : ∃ e, f.load id = .error e := by
      cases hload : f.load id with
      | ok payload =>
        rw [disk_pages_eq_some.mpr hload] at h
        cases h
      | error e => exact ⟨e, rfl⟩
    have hload' : ({ f with misses := f.misses + 1 } : PageFile).load id = .error e := hload
    have hrun : read id f = .error e { f with misses := f.misses + 1 } := by
      simp only [read, hmiss, hload']
    rw [Act.after_error hrun]
    exact ⟨⟨hf.minSize, hf.maxSize, hf.pageCount_pos, hf.coherent⟩, rfl⟩

/-- A page cannot be read because it is not there or because it is damaged. -/
theorem error_of_read {e : StorageError} (h : Act.outcome (read id) f = .error e) :
    (∃ reason, e = .io reason) ∨ ∃ damage, e = .corrupt damage := by
  obtain ⟨f', hrun⟩ : ∃ f', read id f = .error e f' := ⟨_, Act.eq_of_outcome_error h⟩
  have hload : f.load id = .error e := by
    unfold read at hrun
    split at hrun
    · cases hrun
    · dsimp only at hrun
      split at hrun
      · rename_i e' hload
        cases hrun
        exact hload
      · cases hrun
  -- a block that is not there is an input error, and each of the two checks reports damage
  unfold load at hload
  split at hload
  · cases hload
    exact .inl ⟨_, rfl⟩
  · dsimp only at hload
    split at hload
    · cases hload
      exact .inr ⟨_, rfl⟩
    · split at hload
      · cases hload
        exact .inr ⟨_, rfl⟩
      · cases hload

/-! ## Handing pages out and taking them back -/

/-- The page handed out was not in use; nothing is written. -/
theorem allocate_spec (hf : f.Sound) :
    ∃ id f', allocate f = .ok id f' ∧ f'.Sound ∧ f.disk.Exchange f'.disk [] [id] ∧
      f'.disk.pages = f.disk.pages := by
  cases hfree : f.free with
  | cons id free =>
    refine ⟨id, { f with free }, by simp only [allocate, hfree],
      ⟨hf.minSize, hf.maxSize, hf.pageCount_pos, hf.coherent⟩,
      ⟨rfl, Nat.le_refl _, fun rest hd p => ?_, fun rest _ p _ payload h => h⟩, rfl⟩
    refine Eq.trans ?_ (hd p)
    simp only [disk, hfree, List.count_cons, List.nil_append, List.cons_append]
    omega
  | nil =>
    refine ⟨f.pageCount, { f with pageCount := f.pageCount + 1 }, by simp only [allocate, hfree],
      ⟨hf.minSize, hf.maxSize, Nat.succ_pos _, hf.coherent⟩,
      ⟨rfl, Nat.le_succ _, fun rest hd p => ?_, fun rest _ p _ payload h => h⟩, rfl⟩
    -- the new page is the first one beyond those handed out before
    have hp := hd p
    have hpos := hf.pageCount_pos
    simp only [disk, hfree, List.count_cons, List.count_nil, List.nil_append, List.cons_append,
      beq_iff_eq] at hp ⊢
    split at hp <;> split <;> split <;> omega

/-- If the header is not free, it is not handed out, whatever else is free. -/
theorem allocate_ne_noPage (hf : f.Sound) (hfree : noPage ∉ f.free) :
    ∃ id f', allocate f = .ok id f' ∧ f'.Sound ∧ id ≠ noPage ∧ noPage ∉ f'.free ∧
      f'.disk.capacity = f.disk.capacity ∧ f'.disk.pages = f.disk.pages := by
  cases hlist : f.free with
  | cons id free =>
    rw [hlist, List.mem_cons, not_or] at hfree
    exact ⟨id, { f with free }, by simp only [allocate, hlist],
      ⟨hf.minSize, hf.maxSize, hf.pageCount_pos, hf.coherent⟩, Ne.symm hfree.1, hfree.2, rfl, rfl⟩
  | nil =>
    exact ⟨f.pageCount, { f with pageCount := f.pageCount + 1 }, by simp only [allocate, hlist],
      ⟨hf.minSize, hf.maxSize, Nat.succ_pos _, hf.coherent⟩,
      Nat.pos_iff_ne_zero.mp hf.pageCount_pos, hfree, rfl, rfl⟩

/-- A page taken back is free, and what the others hold stays. -/
theorem release_spec (hf : f.Sound) (hid : id ≠ noPage) :
    ∃ f', release id f = .ok () f' ∧ f'.Sound ∧
      f'.disk = { f.disk with free := id :: f.disk.free } := by
  refine ⟨{ f with cache := f.cache.erase id, free := id :: f.free }, ?_, ?_, rfl⟩
  · simp only [release, hid, if_false]
  · refine ⟨hf.minSize, hf.maxSize, hf.pageCount_pos, fun id' cached hfind => ?_⟩
    rw [Recency.find?_erase] at hfind
    split at hfind
    · cases hfind
    · exact hf.coherent id' cached hfind

/-- Pages taken back one after another are free, and nobody else notices. -/
theorem exchange_released (d : Disk) (ps : List Nat) :
    d.Exchange { d with free := ps ++ d.free } ps [] where
  capacity_eq := rfl
  pageCount_le := Nat.le_refl _
  owned rest hd p := by
    have hp := hd p
    simp only [List.count_append, List.nil_append] at hp ⊢
    omega
  kept _ _ _ _ _ h := h

/-! ## Writing -/

/-- The bytes of a page give its payload back. -/
theorem load_of_block (hsize : payload.length ≤ f.payloadCapacity)
    (hmax : f.pageSize ≤ maxPageSize) (hlen : (id + 1) * f.pageSize ≤ f.length)
    (hblock : f.blockBytes id = pageBytes f.pageSize payload) : f.load id = .ok payload := by
  have hpay : payload.length < 256 ^ 4 := by
    simp only [payloadCapacity, maxPageSize] at hsize hmax
    omega
  let checked := littleEndian 4 payload.length ++ payload
  let sum := Crc32.checksum checked
  -- the block is the checksum, the length, the payload and zeros
  have hsum : sum.toNat < 256 ^ 4 := sum.toNat_lt
  have hbytes : f.blockBytes id =
      littleEndian 4 sum.toNat ++ (checked ++ List.replicate
        (f.pageSize - (littleEndian 4 sum.toNat ++ checked).length) 0) := by
    rw [hblock, pageBytes, padded, List.append_assoc]
  have hstored : numberAt (f.blockBytes id) 0 4 = sum.toNat := by
    rw [hbytes]
    exact numberAt_zero_append hsum _
  have hcount : numberAt (f.blockBytes id) 4 4 = payload.length := by
    have hat := numberAt_append hpay (littleEndian 4 sum.toNat) (payload ++ List.replicate
      (f.pageSize - (littleEndian 4 sum.toNat ++ checked).length) 0)
    rw [length_littleEndian] at hat
    rw [hbytes, List.append_assoc]
    exact hat
  have hdrop : ((f.blockBytes id).drop 4).take (4 + payload.length) = checked := by
    rw [hbytes, List.drop_left' (length_littleEndian 4 _)]
    exact List.take_left' (by simp [checked])
  have hrest : checked.drop 4 = payload := List.drop_left' (length_littleEndian 4 _)
  rw [load, if_neg (Nat.not_lt.mpr hlen)]
  simp only [hstored, hcount, hdrop, UInt32.ofNat_toNat]
  rw [if_neg (Nat.not_lt.mpr hsize), if_neg (not_not.mpr rfl), hrest]

/-- What a page holds does not depend on the bytes of the others, as long as the file gets no shorter. -/
theorem load_of_insert {other : Nat} {g : PageFile} {block : ByteArray} (hne : other ≠ id)
    (hblocks : g.blocks = f.blocks.insert id block) (hsize : g.pageSize = f.pageSize)
    (hlength : f.length ≤ g.length) (h : f.load other = .ok payload) : g.load other = .ok payload := by
  have hblock : g.blockBytes other = f.blockBytes other := by
    simp only [blockBytes, hblocks, hsize, Std.HashMap.getElem?_insert, beq_iff_eq, Ne.symm hne,
      if_false]
  have hcap : g.payloadCapacity = f.payloadCapacity := by rw [payloadCapacity, hsize, payloadCapacity]
  rw [load] at h ⊢
  split at h
  · cases h
  · rename_i hlen
    have hglen : ¬ g.length < (other + 1) * g.pageSize := by
      rw [hsize]
      exact fun hlt => hlen (Nat.lt_of_le_of_lt hlength hlt)
    rw [if_neg hglen, hblock, hcap]
    exact h

/-- A page written holds the payload, and the others what they held. -/
theorem write_spec (hf : f.Sound) (hid : id ≠ noPage) (hsize : payload.length ≤ f.disk.capacity) :
    ∃ f', write id payload f = .ok () f' ∧ f'.Sound ∧ f'.disk.pages id = some payload ∧
      f.disk.Exchange f'.disk [id] [id] := by
  let g : PageFile :=
    { f with
      blocks := f.blocks.insert id (pack (pageBytes f.pageSize payload))
      length := max f.length ((id + 1) * f.pageSize)
      writes := f.writes + 1 }
  have hself : g.load id = .ok payload := by
    refine load_of_block hsize hf.maxSize (Nat.le_max_right _ _) ?_
    simp only [blockBytes, g, Std.HashMap.getElem?_insert_self, unpack_pack]
  have hother : ∀ id' payload', id' ≠ id → f.load id' = .ok payload' →
      g.load id' = .ok payload' := fun _ _ hne h =>
    load_of_insert hne rfl rfl (Nat.le_max_left _ _) h
  refine ⟨g.remember id payload, ?_, ?_, disk_pages_eq_some.mpr hself,
    ⟨rfl, Nat.le_refl _, fun rest hd => hd, fun rest hd p hp other h => ?_⟩⟩
  · have hroom : ¬ f.payloadCapacity < payload.length := Nat.not_lt.mpr hsize
    simp only [write, hid, hroom, if_false, g]
  · refine ⟨hf.minSize, hf.maxSize, hf.pageCount_pos, fun id' cached hfind => ?_⟩
    -- the page that was written is cached with its new payload, the others as before
    have hput := Recency.find?_of_keep hfind
    rw [Recency.find?_put] at hput
    by_cases hne : id = id'
    · rw [if_pos hne, Option.some.injEq] at hput
      rw [← hput, unpack_pack, ← hne]
      exact hself
    · rw [if_neg hne] at hput
      exact hother id' _ (Ne.symm hne) (hf.coherent id' cached hput)
  · have hne : p ≠ id := fun h => hd.not_mem_of_mem List.mem_cons_self (h ▸ hp)
    rw [disk_pages_eq_some] at h ⊢
    exact hother p other hne h

/-- A write changes what one page holds, if it does not fail, and hands no page out. -/
theorem after_write (hf : f.Sound) (id : PageId) (payload : List UInt8) :
    (Act.after (write id payload) f).Sound ∧
      (Act.after (write id payload) f).disk.capacity = f.disk.capacity ∧
      (Act.after (write id payload) f).free = f.free ∧
      ∀ ps : List Nat, id ∉ ps → f.disk.Keeps (Act.after (write id payload) f).disk ps := by
  have hsame : ∀ ps : List Nat, id ∉ ps → f.disk.Keeps f.disk ps := fun ps _ => .refl _ ps
  by_cases hid : id = noPage
  · -- both refusals leave the file as it is
    have hrun : write id payload f = .error (.corrupt .headerPage) f := by
      rw [write, if_pos hid]
    rw [Act.after_error hrun]
    exact ⟨hf, rfl, rfl, hsame⟩
  · by_cases hsize : f.payloadCapacity < payload.length
    · have hrun : write id payload f =
          .error (.oversizedPayload payload.length f.payloadCapacity) f := by
        rw [write, if_neg hid, if_pos hsize]
      rw [Act.after_error hrun]
      exact ⟨hf, rfl, rfl, hsame⟩
    · obtain ⟨f', hrun, hf', -, hx⟩ := write_spec hf hid (Nat.le_of_not_lt hsize)
      have hwritten := hrun
      rw [write, if_neg hid, if_neg hsize] at hwritten
      rw [Act.after_ok hrun]
      cases hwritten
      refine ⟨hf', hx.capacity_eq, rfl, fun ps hps p hp other h => ?_⟩
      rw [disk_pages_eq_some] at h ⊢
      have hne : p ≠ id := fun heq => hps (heq ▸ hp)
      exact load_of_insert hne rfl rfl (Nat.le_max_left _ _) h

/-- A file that was just made. -/
theorem create_spec {pageSize cachePages : Nat} {f : PageFile}
    (h : create pageSize cachePages = .ok f) :
    f.Sound ∧ f.disk.pageCount = 1 ∧ f.disk.free = [] := by
  unfold create at h
  split at h
  · cases h
  · rename_i hsize
    rw [not_or, Nat.not_lt, Nat.not_lt] at hsize
    cases h
    exact ⟨⟨hsize.1, hsize.2, Nat.one_pos, fun id payload hfind => by cases hfind⟩, rfl, rfl⟩

end PageFile

end EventIndex
