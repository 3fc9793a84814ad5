import EventIndex.Proofs.Store.Chain
import EventIndex.Proofs.Store.Contents
import EventIndex.Proofs.Store.Records

/-! # Writing a store out and taking it back

A store that is written out leaves its sealed pages where they are. Its tail goes to one page, if
there is a tail, and its directory to a chain of pages, if there is a directory; these pages are the
*scratch* pages of the store until it is taken back. `SavedAs` says that a descriptor and the scratch
pages describe a store. `save_spec` makes them so, and `load_spec` finds the same store again and
gives the scratch pages back.

Main results:

* `Store.save_spec`: where a store lies when it has been written out.
* `Store.load_exact`, `Store.load_spec`: taking it back, seen from the disk and from those who use other
  pages of it.
-/

namespace EventIndex

/-! ## Tails and directories on disk -/

/-- A tail lies on a page, unless it is empty. -/
inductive Disk.TailAt (d : Disk) (k : Kind) : Nat → List Nat → List Tuple → Prop
  | none : d.TailAt k noPage [] []
  | page {p : Nat} {payload : List UInt8} {ts : List Tuple} (hp : p ≠ noPage)
      (hpage : d.pages p = some payload) (hdecode : TuplePage.decode k payload = .ok ts) :
      d.TailAt k p [p] ts

/-- A directory lies in a chain of pages, unless it is empty. -/
inductive Disk.DirectoryAt (d : Disk) : Nat → List Nat → List PageRef → Prop
  | none : d.DirectoryAt noPage [] []
  | chain {head : Nat} {ps : List Nat} {bytes : List UInt8} {refs : List PageRef}
      (hhead : head ≠ noPage) (hchain : d.Chain head ps bytes)
      (hrefs : Store.directoryOf? bytes = some refs) : d.DirectoryAt head ps refs

/-- A store was written out, and this is its descriptor. -/
structure Store.SavedAs (s : Store) (d : Disk) (x : Descriptor) (scratch : List Nat) : Prop where
  pages : ∃ ps qs, scratch = ps ++ qs ∧ d.TailAt s.kind x.tailPage.toNat ps s.tail.toList ∧
    d.DirectoryAt x.directory.toNat qs s.directory.toList
  pageCount : x.pageCount.toNat = s.directory.size
  tailLength : x.tailLength.toNat = s.tail.size
  length : x.length.toNat = s.length
  lastKey : x.lastKey = s.lastKey

namespace Disk

variable {d d' : Disk} {k : Kind} {head : Nat} {ps : List Nat} {ts : List Tuple}
  {refs : List PageRef}

theorem TailAt.keep (h : d.TailAt k head ps ts) (hk : d.Keeps d' ps) : d'.TailAt k head ps ts := by
  cases h with
  | none => exact .none
  | page hp hpage hdecode => exact .page hp (hk _ (by simp) _ hpage) hdecode

theorem DirectoryAt.keep (h : d.DirectoryAt head ps refs) (hk : d.Keeps d' ps) :
    d'.DirectoryAt head ps refs := by
  cases h with
  | none => exact .none
  | chain hhead hchain hrefs => exact .chain hhead (hchain.keep hk) hrefs

/-- A directory with entries has a page. -/
theorem DirectoryAt.pages_ne_nil (h : d.DirectoryAt head ps refs) (hrefs : refs ≠ []) : ps ≠ [] := by
  cases h with
  | none => exact absurd rfl hrefs
  | chain hhead hchain =>
    cases hchain with
    | nil => exact absurd rfl hhead
    | cons => exact List.cons_ne_nil _ _

end Disk

namespace Store

variable {d d' : Disk} {s : Store} {x : Descriptor} {scratch : List Nat}
  {chunks : List (List Tuple)} {f : PageFile} {rest : List Nat}

/-- What was written out depends on the scratch pages alone. -/
theorem SavedAs.keep (h : s.SavedAs d x scratch) (hk : d.Keeps d' scratch) :
    s.SavedAs d' x scratch := by
  obtain ⟨ps, qs, rfl, htail, hdirectory⟩ := h.pages
  exact ⟨⟨ps, qs, rfl, htail.keep (hk.mono (List.subset_append_left _ _)),
    hdirectory.keep (hk.mono (List.subset_append_right _ _))⟩,
    h.pageCount, h.tailLength, h.length, h.lastKey⟩

/-! ## Numbers that fit -/

theorem length_flatten_le {n : Nat} {chunks : List (List Tuple)}
    (h : ∀ chunk ∈ chunks, chunk.length ≤ n) : chunks.flatten.length ≤ chunks.length * n := by
  induction chunks with
  | nil => simp
  | cons chunk chunks ih =>
    have hfirst := h chunk List.mem_cons_self
    have hrest := ih fun c hc => h c (List.mem_cons_of_mem _ hc)
    rw [List.flatten_cons, List.length_append, List.length_cons, Nat.succ_mul]
    omega

/-- As long as page numbers fit four bytes, so does the number of sealed pages, and the number of
tuples fits eight. -/
theorem LiesOn.counts_lt (h : s.LiesOn f.disk chunks) (hf : f.Sound)
    (hown : f.disk.Owned (s.sealedPages ++ rest)) (hroom : f.disk.pageCount ≤ maxPages) :
    s.directory.size < 2 ^ 32 ∧ chunks.flatten.length + s.tail.size < 2 ^ 64 := by
  have hpages : s.sealedPages.length = s.directory.size := by simp [sealedPages]
  have hchunks : chunks.length = s.directory.size := h.view.sealedPages.length_eq.symm
  have hlt := hown.length_lt hf.pageCount_pos
  have htail := h.tail_lt
  have hper := hf.perPage_lt s.kind
  have hflat := length_flatten_le h.fits
  rw [List.length_append, hpages] at hlt
  simp only [maxPages] at hroom
  refine ⟨by omega, ?_⟩
  calc chunks.flatten.length + s.tail.size
      < chunks.length * f.disk.perPage s.kind + f.disk.perPage s.kind := by omega
    _ = (chunks.length + 1) * f.disk.perPage s.kind := (Nat.succ_mul _ _).symm
    _ ≤ 2 ^ 32 * 256 ^ 4 := Nat.mul_le_mul (by omega) (Nat.le_of_lt hper)
    _ = 2 ^ 64 := by decide

/-- The directory of a store can be written. -/
theorem LiesOn.fits_of_mem (h : s.LiesOn f.disk chunks) (hf : f.Sound)
    (hown : f.disk.Owned (s.sealedPages ++ rest)) (hroom : f.disk.pageCount ≤ maxPages) :
    ∀ ref ∈ s.directory.toList, ref.Fits := by
  intro ref href
  obtain ⟨-, hcount⟩ := h.counts_lt hf hown hroom
  obtain ⟨chunk, hchunk, start, hpage, hle⟩ := h.view.sealedPages.mem_page href
  have hmem : ref.page ∈ s.sealedPages ++ rest :=
    List.mem_append_left _ (List.mem_map_of_mem (f := PageRef.page) href)
  have hbounds := hown.bounds hmem
  have hper := hf.perPage_lt s.kind
  have hfit := h.fits chunk hchunk
  simp only [maxPages] at hroom
  refine ⟨Nat.lt_of_lt_of_le hbounds.2 (Nat.le_trans hroom (by decide)), ?_, ?_⟩
  · rw [hpage.length]
    omega
  · rw [hpage.start]
    omega

/-! ## Saving -/

theorem saveTail_spec (hf : f.Sound) (hown : f.disk.Owned rest) (h : s.LiesOn f.disk chunks) :
    ∃ p ps f', s.saveTail f = .ok p f' ∧ f'.Sound ∧ f.disk.Exchange f'.disk [] ps ∧
      f'.disk.TailAt s.kind p ps s.tail.toList ∧ (p = noPage ∨ p ∈ ps) := by
  unfold saveTail
  cases hempty : s.tail.isEmpty with
  | true =>
    have hnil : s.tail = #[] := Array.isEmpty_iff.mp hempty
    refine ⟨noPage, [], f, rfl, hf, .refl _ _, ?_, .inl rfl⟩
    rw [hnil]
    exact .none
  | false =>
    have hholds : ∀ t ∈ s.tail.toList, s.kind.Holds t := fun t ht =>
      h.ordered.holds t (List.mem_append_right _ ht)
    have hle : s.tail.toList.length ≤ f.disk.perPage s.kind := Nat.le_of_lt h.tail_lt
    obtain ⟨p, f₁, f₂, halloc, hwrite, hf₂, hx, hp, payload, hheld, hdecode⟩ :=
      PageFile.writeFresh_spec hf hown hholds hle
    refine ⟨p, [p], f₂, ?_, hf₂, hx, .page hp hheld hdecode, .inr (by simp)⟩
    rw [if_neg Bool.false_ne_true, Act.bind_ok halloc, Act.bind_ok hwrite]
    rfl

theorem saveDirectory_spec (hf : f.Sound) (hown : f.disk.Owned rest) :
    ∃ head qs f', s.saveDirectory f = .ok head f' ∧ f'.Sound ∧ f.disk.Exchange f'.disk [] qs ∧
      (f'.disk.pageCount ≤ maxPages → s.directory.size < 2 ^ 64 →
        (∀ ref ∈ s.directory.toList, ref.Fits) →
        head < 256 ^ 4 ∧ f'.disk.DirectoryAt head qs s.directory.toList) := by
  unfold saveDirectory
  cases hempty : s.directory.isEmpty with
  | true =>
    have hnil : s.directory = #[] := Array.isEmpty_iff.mp hempty
    refine ⟨noPage, [], f, rfl, hf, .refl _ _, fun _ _ _ => ⟨by decide, ?_⟩⟩
    rw [hnil]
    exact .none
  | false =>
    obtain ⟨head, qs, f', hwrite, hf', hx, hchain⟩ :=
      writeChain_spec hf hown (directoryBytes s.directory.toList)
    refine ⟨head, qs, f', ?_, hf', hx, fun hroom hlen hfits => ⟨(hchain hroom).head_lt, ?_⟩⟩
    · rw [if_neg Bool.false_ne_true]
      exact hwrite
    · refine .chain ?_ (hchain hroom) (directoryOf?_directoryBytes (by simpa using hlen) hfits)
      exact (hchain hroom).head_ne_noPage (directoryBytes_ne_nil _)

/-- A store is written to fresh pages, and its descriptor describes it. -/
theorem save_spec (hf : f.Sound) (hown : f.disk.Owned (s.sealedPages ++ rest))
    (h : s.LiesOn f.disk chunks) :
    ∃ x scratch f', s.save f = .ok x f' ∧ f'.Sound ∧ f.disk.Exchange f'.disk [] scratch ∧
      (f'.disk.pageCount ≤ maxPages → s.SavedAs f'.disk x scratch) := by
  obtain ⟨p, ps, f₁, htail, hf₁, hx₁, htailAt, hp⟩ := saveTail_spec hf hown h
  obtain ⟨head, qs, f₂, hdir, hf₂, hx₂, hdirAt⟩ :=
    saveDirectory_spec (s := s) hf₁ (hx₁.owned _ hown)
  have hx₂' : f₁.disk.Exchange f₂.disk ps (ps ++ qs) :=
    (hx₂.frame ps).perm (.refl _) List.perm_append_comm
  have hx := hx₁.trans hx₂'
  let x : Descriptor :=
    { length := UInt64.ofNat s.length
      pageCount := UInt32.ofNat s.directory.size
      directory := UInt32.ofNat head
      tailPage := UInt32.ofNat p
      tailLength := UInt32.ofNat s.tail.size
      lastKey := s.lastKey }
  refine ⟨x, ps ++ qs, f₂, ?_, hf₂, hx, fun hroom => ?_⟩
  · unfold save
    rw [Act.bind_ok htail, Act.bind_ok hdir]
    rfl
  · -- the numbers of the descriptor fit their bytes
    have hroom₀ := Nat.le_trans hx.pageCount_le hroom
    obtain ⟨hsize, hlength⟩ := h.counts_lt hf hown hroom₀
    obtain ⟨hhead, hdirAt⟩ := hdirAt hroom (by omega) (h.fits_of_mem hf hown hroom₀)
    have htailLt := h.tail_lt
    have hper := hf.perPage_lt s.kind
    have hlen : s.length < 2 ^ 64 := by
      have hsum : s.sealedLength = chunks.flatten.length := h.view.sealedLength
      rw [Store.length, hsum]
      exact hlength
    have hpLt : p < 2 ^ 32 := by
      rcases hp with rfl | hp
      · decide
      · have hb := ((hx₁.owned _ hown).bounds (List.mem_append_left _ hp)).2
        have hle := hx₂.pageCount_le
        exact Nat.lt_of_lt_of_le hb (Nat.le_trans hle (Nat.le_trans hroom (by decide)))
    refine ⟨⟨ps, qs, rfl, ?_, ?_⟩, ?_, ?_, ?_, rfl⟩
    · show f₂.disk.TailAt s.kind (UInt32.ofNat p).toNat ps s.tail.toList
      rw [UInt32.toNat_ofNat_of_lt' hpLt]
      exact htailAt.keep ((hx₂.kept _ (hx₁.owned _ hown)).mono (List.subset_append_left _ _))
    · show f₂.disk.DirectoryAt (UInt32.ofNat head).toNat qs s.directory.toList
      rw [UInt32.toNat_ofNat_of_lt' hhead]
      exact hdirAt
    · exact UInt32.toNat_ofNat_of_lt' hsize
    · exact UInt32.toNat_ofNat_of_lt' (Nat.lt_trans htailLt hper)
    · exact UInt64.toNat_ofNat_of_lt' hlen

/-! ## Loading -/

/-- The directory is read back, and its pages are given back. -/
theorem loadDirectory_spec {refs : List PageRef} {qs : List Nat} (hf : f.Sound) (hnodup : qs.Nodup)
    (h : f.disk.DirectoryAt x.directory.toNat qs refs) :
    ∃ f', loadDirectory x f = .ok refs f' ∧ f'.Sound ∧
      f'.disk = { f.disk with free := qs.reverse ++ f.disk.free } := by
  have hzero : x.directory = 0 ↔ x.directory.toNat = noPage := by
    rw [← UInt32.toNat_inj]
    rfl
  unfold loadDirectory
  generalize x.directory.toNat = head at h hzero
  cases h with
  | none =>
    refine ⟨f, ?_, hf, rfl⟩
    rw [if_pos (hzero.mpr rfl)]
    rfl
  | chain hhead hchain hrefs =>
    obtain ⟨f', hread, hf', hdisk⟩ := readChain_spec hf hnodup hchain
    refine ⟨f', ?_, hf', hdisk⟩
    rw [if_neg (fun h => hhead (hzero.mp h)), Act.bind_ok hread, hrefs]
    rfl

/-- The tail is read back, and its page is given back. -/
theorem loadTail_spec {ts : List Tuple} {ps : List Nat} {k : Kind} (hf : f.Sound)
    (h : f.disk.TailAt k x.tailPage.toNat ps ts) :
    ∃ f', loadTail k x f = .ok ts f' ∧ f'.Sound ∧
      f'.disk = { f.disk with free := ps ++ f.disk.free } := by
  have hzero : x.tailPage = 0 ↔ x.tailPage.toNat = noPage := by
    rw [← UInt32.toNat_inj]
    rfl
  unfold loadTail
  generalize x.tailPage.toNat = head at h hzero
  cases h with
  | none =>
    -- there is no open page
    refine ⟨f, ?_, hf, rfl⟩
    rw [if_pos (hzero.mpr rfl)]
    rfl
  | page hp hpage hdecode =>
    -- the page is read, and given back
    obtain ⟨f₁, hread, hf₁, hd₁⟩ := PageFile.read_spec hf hpage
    obtain ⟨f₂, hrelease, hf₂, hd₂⟩ := PageFile.release_spec hf₁ hp
    have hdecoded : Act.ofExcept (.ok ts) f₁ = .ok ts f₁ := rfl
    refine ⟨f₂, ?_, hf₂, ?_⟩
    · rw [if_neg (fun h => hp (hzero.mp h)), Act.bind_ok hread, hdecode, Act.bind_ok hdecoded,
        Act.bind_ok hrelease]
      rfl
    · rw [hd₂, hd₁]
      rfl

/-- A store that was written out is found again as it was, and all that happens to the disk is that the
scratch pages are given back. Nothing else need be known of the pages in use. -/
theorem load_exact (hf : f.Sound) (hnodup : scratch.Nodup) (h : s.LiesOn f.disk chunks)
    (hx : s.SavedAs f.disk x scratch) :
    ∃ f' released, load s.kind x f = .ok s f' ∧ f'.Sound ∧ released.Perm scratch ∧
      f'.disk = { f.disk with free := released ++ f.disk.free } := by
  obtain ⟨ps, qs, rfl, htail, hdirectory⟩ := hx.pages
  obtain ⟨f₁, hdir, hf₁, hd₁⟩ :=
    loadDirectory_spec hf (List.nodup_append.mp hnodup).2.1 hdirectory
  have htail₁ : f₁.disk.TailAt s.kind x.tailPage.toNat ps s.tail.toList :=
    htail.keep fun p _ payload hp => by rwa [hd₁]
  obtain ⟨f₂, htl, hf₂, hd₂⟩ := loadTail_spec hf₁ htail₁
  -- the three counts agree
  have hcount : ¬ s.directory.toList.length ≠ x.pageCount.toNat := by simp [hx.pageCount]
  have htailCount : ¬ s.tail.toList.length ≠ x.tailLength.toNat := by simp [hx.tailLength]
  have hsealed : (s.directory.toList.getLast?.map PageRef.stop).getD 0 = s.sealedLength := by
    have hstop := h.view.sealedPages.stop_eq
    rw [Nat.zero_add, ← h.view.sealedLength] at hstop
    exact hstop
  have htotal : ¬ s.sealedLength + s.tail.toList.length ≠ x.length.toNat := by
    simp [hx.length, Store.length]
  refine ⟨f₂, ps ++ qs.reverse, ?_, hf₂, (List.reverse_perm qs).append_left ps, ?_⟩
  · unfold load
    rw [Act.bind_ok hdir, if_neg hcount]
    dsimp only
    rw [Act.bind_ok htl, if_neg htailCount, hsealed, if_neg htotal, hx.lastKey]
    rfl
  · rw [hd₂, hd₁, List.append_assoc]

/-- The scratch pages are given back, and the pages of others stay as they are. -/
theorem load_spec (hf : f.Sound) (hown : f.disk.Owned (scratch ++ rest))
    (h : s.LiesOn f.disk chunks) (hx : s.SavedAs f.disk x scratch) :
    ∃ f', load s.kind x f = .ok s f' ∧ f'.Sound ∧ f.disk.Exchange f'.disk scratch [] ∧
      f'.disk.pages = f.disk.pages := by
  have hnodup : scratch.Nodup := (List.nodup_append.mp hown.nodup).1
  obtain ⟨f', released, hload, hf', hperm, hdisk⟩ := load_exact hf hnodup h hx
  refine ⟨f', hload, hf', ?_, by rw [hdisk]⟩
  rw [hdisk]
  exact (PageFile.exchange_released f.disk released).perm hperm (.refl _)

end Store

end EventIndex
