import EventIndex.Proofs.Page.Disk
import EventIndex.Proofs.Page.TuplePage
import EventIndex.Proofs.Store.Ordered
import EventIndex.Store.Snapshot

/-! # What a store holds

`Snapshot.LiesOn v d chunks` says that the sealed pages of a snapshot lie on the disk `d` and hold
`chunks`, one page each; what the snapshot lists is then the chunks and its tail. A store `LiesOn` a
disk when its snapshot does, its pages are not overfull and its last key is right. `append_spec` says
that a store does to its disk what `Kind.extend` does to the list, and that the only page it may come to
use is a fresh one.

* `sealTail_spec`: sealing the tail keeps the tuples and comes to use one fresh page.
* `append_spec`: an append succeeds exactly if `Kind.extend` does, and leaves the tuples that it gives.
-/

namespace EventIndex

/-! ## Sealed pages -/

/-- A directory entry describes the tuples of its page, which lie from position `start` on. -/
structure Disk.Page (d : Disk) (k : Kind) (ref : PageRef) (start : Nat) (chunk : List Tuple) : Prop where
  held : ∃ payload, d.pages ref.page = some payload ∧ TuplePage.decode k payload = .ok chunk
  firstKey : chunk.head?.map Tuple.key = some ref.firstKey
  lastKey : chunk.getLast?.map Tuple.key = some ref.lastKey
  length : ref.length = chunk.length
  start : ref.start = start

/-- A directory describes the tuples of its pages, which lie one after another from position
`start` on. -/
inductive Disk.Sealed (d : Disk) (k : Kind) : Nat → List PageRef → List (List Tuple) → Prop
  | nil {start : Nat} : d.Sealed k start [] []
  | cons {start : Nat} {ref : PageRef} {refs : List PageRef} {chunk : List Tuple}
      {chunks : List (List Tuple)} (hpage : d.Page k ref start chunk)
      (hrest : d.Sealed k (start + chunk.length) refs chunks) :
      d.Sealed k start (ref :: refs) (chunk :: chunks)

namespace Disk

variable {d d' : Disk} {k : Kind} {ref : PageRef} {refs : List PageRef} {chunk : List Tuple}
  {chunks : List (List Tuple)} {start : Nat}

/-- A sealed page has one tuple at least. -/
theorem Page.ne_nil (h : d.Page k ref start chunk) : chunk ≠ [] := by
  intro hnil
  have hkey := h.firstKey
  rw [hnil] at hkey
  cases hkey

/-- The directory tells where a page stops. -/
theorem Page.stop_eq (h : d.Page k ref start chunk) : ref.stop = start + chunk.length := by
  rw [PageRef.stop, h.start, h.length]

/-- A page that is kept has the tuples it had. -/
theorem Page.keep (h : d.Page k ref start chunk) (hk : d.Keeps d' [ref.page]) :
    d'.Page k ref start chunk := by
  obtain ⟨payload, hpage, hdecode⟩ := h.held
  exact ⟨⟨payload, hk _ (by simp) _ hpage, hdecode⟩, h.firstKey, h.lastKey, h.length, h.start⟩

/-- Sealed pages depend on nothing but themselves. -/
theorem Sealed.keep (h : d.Sealed k start refs chunks)
    (hk : d.Keeps d' (refs.map PageRef.page)) : d'.Sealed k start refs chunks := by
  induction h with
  | nil => exact .nil
  | cons hpage hrest ih =>
    exact .cons (hpage.keep (hk.mono (by simp)))
      (ih (hk.mono (List.subset_cons_self _ _)))

/-- The directory has an entry for each page. -/
theorem Sealed.length_eq (h : d.Sealed k start refs chunks) : refs.length = chunks.length := by
  induction h with
  | nil => rfl
  | cons hpage hrest ih => simp only [List.length_cons, ih]

/-- No page is sealed empty, so there are no more pages than tuples on them. -/
theorem Sealed.length_le (h : d.Sealed k start refs chunks) : refs.length ≤ chunks.flatten.length := by
  induction h with
  | nil => exact Nat.le_refl _
  | cons hpage hrest ih =>
    have hpos := List.length_pos_iff.mpr hpage.ne_nil
    rw [List.length_cons, List.flatten_cons, List.length_append]
    omega

/-- A page may be added at the end. -/
theorem Sealed.concat (h : d.Sealed k start refs chunks)
    (hpage : d.Page k ref (start + chunks.flatten.length) chunk) :
    d.Sealed k start (refs ++ [ref]) (chunks ++ [chunk]) := by
  induction h with
  | nil => exact .cons (by simpa using hpage) .nil
  | cons hfirst hrest ih =>
    refine .cons hfirst (ih ?_)
    rw [List.flatten_cons, List.length_append, ← Nat.add_assoc] at hpage
    exact hpage

/-- The position behind the last page. -/
theorem Sealed.stop_eq (h : d.Sealed k start refs chunks) :
    (refs.getLast?.map PageRef.stop).getD start = start + chunks.flatten.length := by
  induction h with
  | nil => simp
  | @cons start ref refs chunk chunks hpage hrest ih =>
    rw [List.flatten_cons, List.length_append, ← Nat.add_assoc, ← ih]
    cases refs with
    | nil => simpa using hpage.stop_eq
    | cons ref' refs =>
      rw [List.getLast?_cons_cons, List.getLast?_cons]
      rfl

/-- Each entry of the directory has its page, with a part of the list on it. -/
theorem Sealed.mem_page (h : d.Sealed k start refs chunks) (href : ref ∈ refs) :
    ∃ chunk ∈ chunks, ∃ start', d.Page k ref start' chunk ∧
      start' + chunk.length ≤ start + chunks.flatten.length := by
  induction h with
  | nil => cases href
  | @cons start ref' refs chunk chunks hpage hrest ih =>
    rcases List.mem_cons.mp href with rfl | href
    · refine ⟨chunk, by simp, start, hpage, ?_⟩
      simp only [List.flatten_cons, List.length_append]
      omega
    · obtain ⟨chunk', hmem, start', hpage', hle⟩ := ih href
      refine ⟨chunk', List.mem_cons_of_mem _ hmem, start', hpage', ?_⟩
      simp only [List.flatten_cons, List.length_append]
      omega

/-- The first pages lie as before when later ones are left out. -/
theorem Sealed.of_prefix {refs' : List PageRef} {chunks' : List (List Tuple)}
    (h : d.Sealed k start refs chunks) (hrefs : refs' <+: refs) (hchunks : chunks' <+: chunks)
    (hlen : refs'.length = chunks'.length) : d.Sealed k start refs' chunks' := by
  induction h generalizing refs' chunks' with
  | nil =>
    rw [List.prefix_nil.mp hrefs, List.prefix_nil.mp hchunks]
    exact .nil
  | cons hpage hrest ih =>
    cases refs' with
    | nil =>
      rw [List.length_eq_zero_iff.mp hlen.symm]
      exact .nil
    | cons ref' refs' =>
      cases chunks' with
      | nil => cases hlen
      | cons chunk' chunks' =>
        obtain ⟨rfl, hrefs'⟩ := List.cons_prefix_cons.mp hrefs
        obtain ⟨rfl, hchunks'⟩ := List.cons_prefix_cons.mp hchunks
        exact .cons hpage (ih hrefs' hchunks' (Nat.succ.inj hlen))

/-- The page that holds the tuples behind some of the chunks. -/
theorem Sealed.getElem? (h : d.Sealed k start refs chunks) {i : Nat} (href : refs[i]? = some ref) :
    ∃ chunk, chunks[i]? = some chunk ∧
      d.Page k ref (start + (chunks.take i).flatten.length) chunk := by
  induction h generalizing i with
  | nil => simp at href
  | @cons start ref' refs chunk chunks hpage hrest ih =>
    cases i with
    | zero =>
      obtain rfl : ref' = ref := by simpa using href
      exact ⟨chunk, rfl, by simpa using hpage⟩
    | succ i =>
      obtain ⟨chunk', hchunk, hpage'⟩ := ih (i := i) (by simpa using href)
      refine ⟨chunk', by simpa using hchunk, ?_⟩
      rw [List.take_succ_cons, List.flatten_cons, List.length_append, ← Nat.add_assoc]
      exact hpage'

end Disk

/-! ## Snapshots and stores -/

/-- The sealed pages of a snapshot lie on a disk and hold some chunks of tuples. -/
structure Snapshot.LiesOn (v : Snapshot) (d : Disk) (chunks : List (List Tuple)) : Prop where
  sealedPages : d.Sealed v.kind 0 v.directory.toList chunks
  sealedLength : v.sealedLength = chunks.flatten.length
  ordered : v.kind.Ordered (chunks.flatten ++ v.tail.toList)

/-- The most tuples that a page of a disk holds. -/
def Disk.perPage (d : Disk) (k : Kind) : Nat := max (k.pageCapacity d.capacity) 1

/-- The sealed pages of a store lie on a disk and hold some chunks of tuples. -/
structure Store.LiesOn (s : Store) (d : Disk) (chunks : List (List Tuple)) : Prop where
  view : s.snapshot.LiesOn d chunks
  fits : ∀ chunk ∈ chunks, chunk.length ≤ d.perPage s.kind
  tail_lt : s.tail.size < d.perPage s.kind
  lastKey : s.lastKey = (chunks.flatten ++ s.tail.toList).getLast?.map Tuple.key

/-- The tuples of a snapshot whose sealed pages hold some chunks. -/
def Snapshot.tuples (v : Snapshot) (chunks : List (List Tuple)) : List Tuple :=
  chunks.flatten ++ v.tail.toList

/-- The pages that a store has sealed. -/
def Store.sealedPages (s : Store) : List Nat := s.directory.toList.map PageRef.page

/-- The tuples of a store whose sealed pages hold some chunks. -/
def Store.tuples (s : Store) (chunks : List (List Tuple)) : List Tuple :=
  chunks.flatten ++ s.tail.toList

/-- A page takes one tuple at least. -/
theorem Disk.perPage_pos (d : Disk) (k : Kind) : 0 < d.perPage k := Nat.le_max_right _ _

/-- An exchange of pages leaves their size as it is. -/
theorem Disk.Exchange.perPage_eq {d d' : Disk} {before after : List Nat}
    (h : d.Exchange d' before after) (k : Kind) : d'.perPage k = d.perPage k := by
  rw [Disk.perPage, h.capacity_eq, Disk.perPage]

namespace PageFile

variable {f : PageFile} {k : Kind} {ts : List Tuple} {rest : List Nat}

/-- On the pages of a sound file there is room for a tuple, so the capacity is what was computed. -/
theorem Sound.perPage_eq (hf : f.Sound) (k : Kind) :
    f.disk.perPage k = k.pageCapacity f.disk.capacity := by
  obtain ⟨hmin, -⟩ := hf.capacity_bounds
  refine Nat.max_eq_left ((Nat.le_div_iff_mul_le ?_).mpr ?_)
  · cases hk : k.carriesRole <;> simp [Kind.tupleSize, hk]
  · cases hk : k.carriesRole <;> simp [Kind.tupleSize, hk, pageOverhead] <;> omega

/-- A page holds fewer tuples than four bytes can count. -/
theorem Sound.perPage_lt (hf : f.Sound) (k : Kind) : f.disk.perPage k < 256 ^ 4 := by
  obtain ⟨-, hmax⟩ := hf.capacity_bounds
  have hdiv : k.pageCapacity f.disk.capacity ≤ f.disk.capacity :=
    Nat.le_trans (Nat.div_le_self _ _) (Nat.sub_le _ _)
  rw [hf.perPage_eq]
  omega

/-- As many tuples as a page holds fit it in their plain form, whatever they are. -/
theorem Sound.plain_le (hf : f.Sound) (hle : ts.length ≤ f.disk.perPage k) :
    pageOverhead + k.tupleSize * ts.length ≤ f.disk.capacity := by
  obtain ⟨hmin, -⟩ := hf.capacity_bounds
  exact TuplePage.plain_le_payload (Nat.le_trans (by decide) hmin) (hf.perPage_eq k ▸ hle)

/-- As many tuples as a page holds can be written to a fresh page and read back. -/
theorem writeFresh_spec (hf : f.Sound) (hown : f.disk.Owned rest) (hholds : ∀ t ∈ ts, k.Holds t)
    (hle : ts.length ≤ f.disk.perPage k) :
    ∃ page f₁ f₂, allocate f = .ok page f₁ ∧ write page (TuplePage.encode k ts) f₁ = .ok () f₂ ∧
      f₂.Sound ∧ f.disk.Exchange f₂.disk [] [page] ∧ page ≠ noPage ∧
      ∃ payload, f₂.disk.pages page = some payload ∧ TuplePage.decode k payload = .ok ts := by
  obtain ⟨-, hmax⟩ := hf.capacity_bounds
  obtain ⟨page, f₁, halloc, hf₁, hx₁, -⟩ := allocate_spec hf
  have hpage : page ≠ noPage := (hx₁.owned _ hown).ne_noPage (by simp)
  have hplain := hf.plain_le hle
  have hencode : (TuplePage.encode k ts).length ≤ f₁.disk.capacity := by
    rw [hx₁.capacity_eq]
    exact Nat.le_trans (TuplePage.length_encodeWith_le _ k ts) hplain
  have hbody : (TuplePage.ofTuples k ts).body.length < 2 ^ 32 := by
    have hlen := TuplePage.length_body_ofTuples k ts
    omega
  obtain ⟨f₂, hwrite, hf₂, hheld, hx₂⟩ := write_spec hf₁ hpage hencode
  exact ⟨page, f₁, f₂, halloc, hwrite, hf₂, hx₁.trans hx₂, hpage, _, hheld,
    TuplePage.decode_encode hholds hbody⟩

end PageFile

namespace Store

variable {d d' : Disk} {s : Store} {chunks : List (List Tuple)} {f : PageFile} {rest : List Nat}
  {t : Tuple}

/-- What a store holds depends on its sealed pages alone. -/
theorem LiesOn.keep (h : s.LiesOn d chunks) (hcap : d'.capacity = d.capacity)
    (hk : d.Keeps d' s.sealedPages) : s.LiesOn d' chunks := by
  have hper : d'.perPage s.kind = d.perPage s.kind := by rw [Disk.perPage, hcap, Disk.perPage]
  exact ⟨⟨h.view.sealedPages.keep hk, h.view.sealedLength, h.view.ordered⟩,
    hper ▸ h.fits, hper ▸ h.tail_lt, h.lastKey⟩

/-- The tuples of a store are in the order of its kind. -/
theorem LiesOn.ordered (h : s.LiesOn d chunks) : s.kind.Ordered (s.tuples chunks) := h.view.ordered

/-- A store knows its length. -/
theorem LiesOn.length_eq (h : s.LiesOn d chunks) : s.length = (s.tuples chunks).length := by
  have hlen : s.sealedLength = chunks.flatten.length := h.view.sealedLength
  have htail : s.tail.toList.length = s.tail.size := Array.length_toList
  rw [Store.length, hlen, Store.tuples, List.length_append, htail]

/-- No sealed page is empty, so there are no more of them than tuples. -/
theorem LiesOn.directory_size_le (h : s.LiesOn d chunks) :
    s.directory.size ≤ (s.tuples chunks).length := by
  have hle : s.directory.toList.length ≤ chunks.flatten.length := h.view.sealedPages.length_le
  rw [Array.length_toList] at hle
  rw [tuples, List.length_append]
  omega

theorem liesOn_empty (d : Disk) (k : Kind) : (Store.empty k).LiesOn d [] :=
  ⟨⟨.nil, rfl, Kind.ordered_nil⟩, by simp, d.perPage_pos k, rfl⟩

/-! ## Appending -/

/-- A store takes a tuple exactly when the list it holds does. -/
theorem LiesOn.extend_eq (h : s.LiesOn d chunks) (t : Tuple) :
    s.kind.extend (s.tuples chunks) t =
      if s.accepts t.key = true then .ok (s.tuples chunks ++ [t])
      else .error (.outOfOrder t.key (s.lastKey.getD 0)) := by
  have hlast : s.lastKey = (s.tuples chunks).getLast?.map Tuple.key := h.lastKey
  cases hget : (s.tuples chunks).getLast? with
  | none =>
    rw [hget] at hlast
    rw [Kind.extend_of_none hget, accepts, hlast]
    rfl
  | some last =>
    rw [hget] at hlast
    have haccepts : s.accepts t.key = true ↔ s.kind.MayFollow last.key t.key := by
      simp [accepts, hlast, Kind.MayFollow]
    simp only [Kind.extend, hget, hlast, Option.map_some, Option.getD_some]
    by_cases hkey : s.kind.MayFollow last.key t.key
    · rw [if_pos hkey, if_pos (haccepts.mpr hkey)]
    · rw [if_neg hkey, if_neg (fun h => hkey (haccepts.mp h))]

/-- A tuple that is accepted goes to the tail, which is sealed when it has filled a page. -/
theorem append_of_accepts (h : s.accepts t.key = true) :
    s.append t f =
      if tuplesPerPage s.kind f ≤ (s.push t).tail.size then (s.push t).sealTail f
      else .ok (s.push t) f := by
  have hget : (get : Act PageFile PageFile) f = .ok f f := rfl
  unfold append
  cases s.lastKey <;> simp only [h, Bool.not_true, Bool.false_eq_true, if_false]
  all_goals
    rw [Act.bind_ok hget]
    show (if tuplesPerPage s.kind f ≤ (s.push t).tail.size then (s.push t).sealTail
      else pure (s.push t) : Act PageFile Store) f = _
    split <;> rfl

/-- A tuple that is refused changes nothing. -/
theorem append_of_refuses (h : s.accepts t.key = false) :
    s.append t f = .error (.outOfOrder t.key (s.lastKey.getD 0)) f := by
  unfold append
  cases hlast : s.lastKey with
  | none => simp [accepts, hlast] at h
  | some last =>
    simp only [h, Bool.not_false, if_true]
    rfl

/-- Putting a tuple into the tail leaves the sealed pages alone. The tail may then be full. -/
theorem LiesOn.push (h : s.LiesOn d chunks) (ht : s.kind.Holds t)
    (hext : s.kind.extend (s.tuples chunks) t = .ok (s.tuples chunks ++ [t])) :
    (s.push t).snapshot.LiesOn d chunks ∧ (s.push t).tuples chunks = s.tuples chunks ++ [t] ∧
      (s.push t).tail.size ≤ d.perPage s.kind ∧
      (s.push t).lastKey = ((s.push t).tuples chunks).getLast?.map Tuple.key := by
  have htuples : (s.push t).tuples chunks = s.tuples chunks ++ [t] := by
    simp [tuples, Store.push, List.append_assoc]
  refine ⟨⟨h.view.sealedPages, h.view.sealedLength, ?_⟩, htuples, ?_, ?_⟩
  · have hord := (h.ordered.extend ht hext).1
    rw [← htuples] at hord
    exact hord
  · have hlt := h.tail_lt
    simp only [Store.push, Array.size_push]
    omega
  · rw [htuples, List.getLast?_concat]
    rfl

/-- The directory entry of a tail that has moved to a page. -/
def tailRef (s : Store) (page : PageId) (hpos : 0 < s.tail.size) : PageRef where
  page
  firstKey := s.tail[0].key
  lastKey := s.tail[s.tail.size - 1].key
  length := s.tail.size
  start := s.sealedLength

/-- The store whose tail has moved to a page. -/
def withTailOn (s : Store) (page : PageId) (hpos : 0 < s.tail.size) : Store :=
  { s with
    directory := s.directory.push (s.tailRef page hpos)
    tail := #[]
    sealedLength := s.sealedLength + s.tail.size }

/-- A tail that is not empty begins with its tuple at place zero. -/
theorem tail_head (hpos : 0 < s.tail.size) : s.tail[0]? = some s.tail[0] :=
  Array.getElem?_eq_getElem hpos

/-- A tail that is not empty ends with its last tuple. -/
theorem tail_back (hpos : 0 < s.tail.size) : s.tail.back? = some s.tail[s.tail.size - 1] := by
  rw [Array.back?_eq_getElem?]
  exact Array.getElem?_eq_getElem _

/-- The entry of a tail describes a page that holds the tail behind the pages sealed before. -/
theorem page_tailRef (hlength : s.sealedLength = chunks.flatten.length) (hpos : 0 < s.tail.size)
    {page : PageId} {payload : List UInt8} (hheld : d.pages page = some payload)
    (hdecode : TuplePage.decode s.kind payload = .ok s.tail.toList) :
    d.Page s.kind (s.tailRef page hpos) (0 + chunks.flatten.length) s.tail.toList := by
  refine ⟨⟨payload, hheld, hdecode⟩, ?_, ?_, Array.length_toList.symm, ?_⟩
  · rw [List.head?_eq_getElem?, Array.getElem?_toList, tail_head hpos]
    rfl
  · rw [Array.getLast?_toList, tail_back hpos]
    rfl
  · rw [Nat.zero_add]
    exact hlength

/-- Sealing a tail that is not empty moves it to a fresh page. -/
theorem sealTail_spec (hf : f.Sound) (hown : f.disk.Owned (s.sealedPages ++ rest))
    (hview : s.snapshot.LiesOn f.disk chunks)
    (hfits : ∀ chunk ∈ chunks, chunk.length ≤ f.disk.perPage s.kind) (hpos : 0 < s.tail.size)
    (hle : s.tail.size ≤ f.disk.perPage s.kind)
    (hlast : s.lastKey = (s.tuples chunks).getLast?.map Tuple.key) :
    ∃ page s' f', s.sealTail f = .ok s' f' ∧ f'.Sound ∧ f.disk.Exchange f'.disk [] [page] ∧
      s'.LiesOn f'.disk (chunks ++ [s.tail.toList]) ∧ s'.kind = s.kind ∧
      s'.tuples (chunks ++ [s.tail.toList]) = s.tuples chunks ∧
      s'.sealedPages = s.sealedPages ++ [page] ∧ s.directory.toList <+: s'.directory.toList := by
  have hholds : ∀ t ∈ s.tail.toList, s.kind.Holds t := fun t ht =>
    hview.ordered.holds t (List.mem_append_right _ ht)
  have hlen : s.tail.toList.length = s.tail.size := Array.length_toList
  obtain ⟨page, f₁, f₂, halloc, hwrite, hf₂, hx, hpage, payload, hheld, hdecode⟩ :=
    PageFile.writeFresh_spec hf hown hholds (hlen ▸ hle)
  -- the page is fresh, so those that are sealed already keep what they hold
  have hkeeps : f.disk.Keeps f₂.disk s.sealedPages :=
    (hx.kept _ hown).mono (List.subset_append_left _ _)
  refine ⟨page, s.withTailOn page hpos, f₂, ?_, hf₂, hx, ?_, rfl, ?_, ?_, ?_⟩
  · unfold sealTail
    rw [tail_head hpos, tail_back hpos]
    dsimp only
    rw [Act.bind_ok halloc, Act.bind_ok hwrite]
    rfl
  · -- the tail becomes the last chunk, and the list of all chunks is what it was
    have hflat : (chunks ++ [s.tail.toList]).flatten = s.tuples chunks := by simp [tuples]
    refine ⟨⟨?_, ?_, ?_⟩, fun chunk hchunk => ?_, f₂.disk.perPage_pos s.kind, ?_⟩
    · have hall := (hview.sealedPages.keep hkeeps).concat
        (page_tailRef hview.sealedLength hpos hheld hdecode)
      simpa [snapshot, withTailOn] using hall
    · have hsum : s.sealedLength = chunks.flatten.length := hview.sealedLength
      simp [snapshot, withTailOn, hsum]
    · have hord : s.kind.Ordered (s.tuples chunks) := hview.ordered
      simpa [snapshot, withTailOn, hflat] using hord
    · show chunk.length ≤ f₂.disk.perPage s.kind
      rw [hx.perPage_eq s.kind]
      rcases List.mem_append.mp hchunk with hchunk | hchunk
      · exact hfits chunk hchunk
      · rw [List.mem_singleton.mp hchunk]
        omega
    · simpa [withTailOn, hflat] using hlast
  · simp [tuples, withTailOn]
  · simp [sealedPages, withTailOn, tailRef]
  · simp [withTailOn]

/-- Appending does to a store what it does to the list that the store holds. The store may come to
use one more page, which is a fresh one; the pages sealed before stay as they are. -/
theorem append_spec (hf : f.Sound) (hown : f.disk.Owned (s.sealedPages ++ rest))
    (h : s.LiesOn f.disk chunks) (ht : s.kind.Holds t) :
    match s.kind.extend (s.tuples chunks) t with
    | .ok ts => ∃ s' f' chunks' new, s.append t f = .ok s' f' ∧ f'.Sound ∧
        f.disk.Exchange f'.disk [] new ∧ s'.LiesOn f'.disk chunks' ∧ s'.kind = s.kind ∧
        s'.tuples chunks' = ts ∧ s'.sealedPages = s.sealedPages ++ new ∧
        s.directory.toList <+: s'.directory.toList ∧ chunks <+: chunks'
    | .error e => s.append t f = .error e f := by
  cases haccepts : s.accepts t.key with
  | false =>
    rw [h.extend_eq t, haccepts]
    exact append_of_refuses haccepts
  | true =>
    have hext : s.kind.extend (s.tuples chunks) t = .ok (s.tuples chunks ++ [t]) := by
      rw [h.extend_eq t, if_pos haccepts]
    obtain ⟨hview, htuples, hle, hlast⟩ := h.push ht hext
    rw [hext, append_of_accepts haccepts]
    dsimp only
    split
    · -- the tail fills a page
      have hpos : 0 < (s.push t).tail.size := by simp [Store.push]
      obtain ⟨page, s', f', hseal, hf', hx, hlies, hkind, hsame, hpages, hprefix⟩ :=
        sealTail_spec (s := s.push t) hf hown hview h.fits hpos hle hlast
      exact ⟨s', f', _, [page], hseal, hf', hx, hlies, hkind, hsame.trans htuples, hpages,
        hprefix, List.prefix_append _ _⟩
    · rename_i hroom
      have hroom : (s.push t).tail.size < f.disk.perPage s.kind := Nat.not_le.mp hroom
      exact ⟨s.push t, f, chunks, [], rfl, hf, .refl _ _, ⟨hview, h.fits, hroom, hlast⟩, rfl,
        htuples, (List.append_nil _).symm, List.prefix_refl _, List.prefix_refl _⟩

end Store

end EventIndex
