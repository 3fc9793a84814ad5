import EventIndex.Cursor.Stored
import EventIndex.Proofs.Cursor.Shows
import EventIndex.Proofs.Store.Contents

/-! # Reading a snapshot

A snapshot that lies on a disk is a sorted list, and reading it gives the tuples of this list. Both
bisections over its directory find the page in question: `pageOf` by position, `pageFor` by key.
`shows_of_view` says that a cursor over a snapshot shows the list, over all disks on which it lies.

Main results:

* `Snapshot.LiesOn.pageOf`, `Snapshot.LiesOn.lt_pageFor_iff`: the page of a position, and that of a key.
* `Snapshot.LiesOnAll.reads_get`, `Snapshot.LiesOnAll.reads_lowerBound`: reading by position and by key.
* `Stored.StandsAt.next`, `Stored.StandsAt.previous`, `Stored.StandsAt.seek`: the moves of a cursor.
-/

namespace EventIndex

open Cursor

/-- Bisection counts the places at which a condition holds. -/
theorem bisect_eq {n m : Nat} {p : Nat → Bool} (hm : m ≤ n) (h : ∀ i, i < n → (p i = true ↔ i < m)) :
    bisect n p = m := by
  have hmono : ∀ i j, i ≤ j → j < n → p j → p i := fun i j hij hj hp =>
    (h i (by omega)).mpr (by have := (h j hj).mp hp; omega)
  have hle := bisect_le hmono
  rcases Nat.lt_trichotomy (bisect n p) m with hlt | heq | hgt
  · have hp := (h _ (by omega)).mpr hlt
    have hself := (lt_bisect_iff hmono (i := bisect n p) (by omega)).mpr hp
    omega
  · exact heq
  · have hp := (lt_bisect_iff hmono (i := m) (by omega)).mp hgt
    have hself := (h m (by omega)).mp hp
    omega

/-! ## Chunks -/

section Chunks

variable {chunks : List (List Tuple)} {chunk : List Tuple} {i j : Nat}

/-- The number of tuples in the first chunks. -/
def startOf (chunks : List (List Tuple)) (i : Nat) : Nat := (chunks.take i).flatten.length

/-- A page starts where the one before it ends. -/
theorem startOf_succ (h : chunks[i]? = some chunk) :
    startOf chunks (i + 1) = startOf chunks i + chunk.length := by
  obtain ⟨hlt, rfl⟩ := List.getElem?_eq_some_iff.mp h
  rw [startOf, startOf, List.take_succ_eq_append_getElem hlt, List.flatten_append,
    List.length_append, List.flatten_singleton]

/-- Later pages start later. -/
theorem startOf_mono (chunks : List (List Tuple)) (h : i ≤ j) :
    startOf chunks i ≤ startOf chunks j := by
  obtain ⟨k, rfl⟩ := Nat.exists_eq_add_of_le h
  induction k with
  | zero => exact Nat.le_refl _
  | succ k ih =>
    refine Nat.le_trans (ih (Nat.le_add_right i k)) ?_
    rw [← Nat.add_assoc]
    cases hget : chunks[i + k]? with
    | none =>
      have hend : chunks.length ≤ i + k := List.getElem?_eq_none_iff.mp hget
      have hsame : startOf chunks (i + k + 1) = startOf chunks (i + k) := by
        rw [startOf, startOf, List.take_of_length_le hend, List.take_of_length_le (by omega)]
      exact Nat.le_of_eq hsame.symm
    | some chunk =>
      rw [startOf_succ hget]
      exact Nat.le_add_right _ _

/-- No page starts behind the end of the list. -/
theorem startOf_le (chunks : List (List Tuple)) (i : Nat) : startOf chunks i ≤ chunks.flatten.length := by
  by_cases h : i ≤ chunks.length
  · have hmono := startOf_mono chunks h
    rwa [startOf.eq_1 chunks chunks.length, List.take_length] at hmono
  · have hall : startOf chunks i = chunks.flatten.length := by
      rw [startOf, List.take_of_length_le (by omega)]
    exact Nat.le_of_eq hall

/-- The list is cut in front of a page and behind it. -/
theorem flatten_eq (h : chunks[i]? = some chunk) :
    chunks.flatten = (chunks.take i).flatten ++ (chunk ++ (chunks.drop (i + 1)).flatten) := by
  obtain ⟨hlt, rfl⟩ := List.getElem?_eq_some_iff.mp h
  rw [← List.flatten_cons, List.getElem_cons_drop, ← List.flatten_append, List.take_append_drop]

/-- The tuples of a chunk lie one after another. -/
theorem getElem?_flatten (h : chunks[i]? = some chunk) (hj : j < chunk.length) :
    chunks.flatten[startOf chunks i + j]? = chunk[j]? := by
  rw [flatten_eq h, startOf, List.getElem?_append_right (Nat.le_add_right _ _),
    Nat.add_sub_cancel_left, List.getElem?_append_left hj]

end Chunks

namespace Snapshot

variable {v : Snapshot} {d : Disk} {ds : Disks} {chunks : List (List Tuple)} {key : UInt64} {position i : Nat}
  {ref : PageRef}

/-! ## Pages of a snapshot -/

/-- The page with an index. -/
theorem LiesOn.page (h : v.LiesOn d chunks) (href : v.directory[i]? = some ref) :
    ∃ chunk, chunks[i]? = some chunk ∧ d.Page v.kind ref (startOf chunks i) chunk := by
  rw [← Array.getElem?_toList] at href
  obtain ⟨chunk, hchunk, hpage⟩ := h.sealedPages.getElem? href
  exact ⟨chunk, hchunk, by simpa [startOf] using hpage⟩

/-- The directory has an entry for each page. -/
theorem LiesOn.size_eq (h : v.LiesOn d chunks) : v.directory.size = chunks.length := by
  rw [← h.sealedPages.length_eq, Array.length_toList]

/-- A snapshot that lies on a disk is sorted. -/
theorem LiesOn.sorted (h : v.LiesOn d chunks) : Sorted (v.tuples chunks) :=
  h.ordered.follows.imp fun h => h.le

/-- A snapshot knows its length. -/
theorem LiesOn.length_eq (h : v.LiesOn d chunks) : (v.tuples chunks).length = v.length := by
  rw [tuples, List.length_append, ← h.sealedLength, Array.length_toList, length]

/-- A page is read and decoded. -/
theorem reads_loadPage {start : Nat} {chunk : List Tuple}
    (h : ∀ d, ds d → d.Page v.kind ref start chunk) :
    PageFile.Reads ds (v.loadPage ref) chunk.toArray := by
  refine .of_each fun d hd => ?_
  obtain ⟨payload, hheld, hdecode⟩ := (h d hd).held
  refine (PageFile.Reads.page fun _ heq => heq ▸ hheld).bind
    ((PageFile.Reads.ofExcept hdecode).bind ?_)
  have hlength : ¬ chunk.length ≠ ref.length := not_not.mpr (h d hd).length.symm
  rw [if_neg hlength]
  exact .pure _

/-- The same tuples lie on several disks. -/
structure LiesOnAll (v : Snapshot) (ds : Disks) (chunks : List (List Tuple)) : Prop where
  nonempty : ∃ d, ds d
  lies : ∀ d, ds d → v.LiesOn d chunks

theorem LiesOn.onAll (h : v.LiesOn d chunks) : v.LiesOnAll (· = d) chunks :=
  ⟨⟨d, rfl⟩, fun _ heq => heq ▸ h⟩

theorem LiesOnAll.sorted (h : v.LiesOnAll ds chunks) : Sorted (v.tuples chunks) :=
  let ⟨d, hd⟩ := h.nonempty
  (h.lies d hd).sorted

/-- A snapshot knows its length, whichever of the disks it is read from. -/
theorem LiesOnAll.length_eq (h : v.LiesOnAll ds chunks) : (v.tuples chunks).length = v.length :=
  let ⟨d, hd⟩ := h.nonempty
  (h.lies d hd).length_eq

/-- The page with an index holds the same tuples on all disks. -/
theorem LiesOnAll.page (h : v.LiesOnAll ds chunks) (href : v.directory[i]? = some ref)
    {chunk : List Tuple} (hchunk : chunks[i]? = some chunk) :
    ∀ d, ds d → d.Page v.kind ref (startOf chunks i) chunk := by
  intro d hd
  obtain ⟨chunk', hchunk', hpage⟩ := (h.lies d hd).page href
  rw [hchunk, Option.some.injEq] at hchunk'
  exact hchunk' ▸ hpage

/-! ## By position -/

/-- The page of a position is the one whose chunk has it. -/
theorem LiesOn.pageOf (h : v.LiesOn d chunks) (hlt : position < v.sealedLength) :
    ∃ ref chunk, v.directory[v.pageOf position]? = some ref ∧
      chunks[v.pageOf position]? = some chunk ∧
      d.Page v.kind ref (startOf chunks (v.pageOf position)) chunk ∧
      startOf chunks (v.pageOf position) ≤ position ∧
      position < startOf chunks (v.pageOf position) + chunk.length := by
  have hstop : ∀ i, i < v.directory.size →
      (v.directory[i]?.any (·.stop ≤ position) = true ↔ startOf chunks (i + 1) ≤ position) := by
    intro i hi
    have href : v.directory[i]? = some v.directory[i] := Array.getElem?_eq_getElem hi
    obtain ⟨chunk, hchunk, hpage⟩ := h.page href
    rw [href, startOf_succ hchunk, ← hpage.stop_eq]
    simp
  have hmono : ∀ i j, i ≤ j → j < v.directory.size →
      (v.directory[j]?.any (·.stop ≤ position) : Bool) →
      (v.directory[i]?.any (·.stop ≤ position) : Bool) := by
    intro i j hij hj hpj
    rw [hstop i (by omega)]
    exact Nat.le_trans (startOf_mono chunks (by omega)) ((hstop j hj).mp hpj)
  have hcount : ∀ i, i < v.directory.size →
      (i < v.pageOf position ↔ startOf chunks (i + 1) ≤ position) := fun i hi =>
    (lt_bisect_iff hmono hi).trans (hstop i hi)
  have hfirst : startOf chunks (v.pageOf position) ≤ position := by
    have hle : v.pageOf position ≤ v.directory.size := bisect_le hmono
    cases hpage : v.pageOf position with
    | zero => exact Nat.zero_le _
    | succ i => exact (hcount i (by omega)).mp (by omega)
  have hinside : v.pageOf position < v.directory.size := by
    refine Nat.lt_of_not_le fun hle => ?_
    -- all pages lie before the position, and so do all sealed tuples
    have hall := Nat.le_trans (startOf_mono chunks hle) hfirst
    rw [h.size_eq, startOf, List.take_length, ← h.sealedLength] at hall
    omega
  have href : v.directory[v.pageOf position]? = some _ := Array.getElem?_eq_getElem hinside
  obtain ⟨chunk, hchunk, hpage⟩ := h.page href
  refine ⟨_, chunk, href, hchunk, hpage, hfirst, ?_⟩
  rw [← startOf_succ hchunk, ← Nat.not_le, ← hcount _ hinside]
  exact Nat.lt_irrefl _

/-! ## By key -/

/-- The bisection in a page finds the place of the key there. -/
theorem firstAtLeast_eq {ts : List Tuple} (h : Sorted ts) (key : UInt64) :
    firstAtLeast ts.toArray key = place ts key := by
  refine bisect_eq (by simpa using place_le ts key) fun i hi => ?_
  have hget : ts[i]? = some ts[i] := List.getElem?_eq_getElem (by simpa using hi)
  rw [lt_place_iff h hget]
  simp [hget]

/-- The tuples before a page, on it, and behind it. -/
theorem tuples_eq {chunk : List Tuple} (hchunk : chunks[i]? = some chunk) :
    v.tuples chunks = (chunks.take i).flatten ++
      (chunk ++ ((chunks.drop (i + 1)).flatten ++ v.tail.toList)) := by
  rw [tuples, flatten_eq hchunk, List.append_assoc, List.append_assoc]

/-- A position within a page is one of the page's tuples. -/
theorem getElem?_tuples {chunk : List Tuple} (hchunk : chunks[i]? = some chunk)
    (hstart : startOf chunks i ≤ position) (hstop : position < startOf chunks i + chunk.length) :
    (v.tuples chunks)[position]? = chunk[position - startOf chunks i]? := by
  obtain ⟨j, rfl⟩ := Nat.exists_eq_add_of_le hstart
  rw [Nat.add_lt_add_iff_left] at hstop
  rw [Nat.add_sub_cancel_left, tuples, List.getElem?_append_left, getElem?_flatten hchunk hstop]
  have hle := startOf_le chunks (i + 1)
  rw [startOf_succ hchunk] at hle
  omega

/-- The tuple at a position. -/
theorem LiesOnAll.reads_get (hall : v.LiesOnAll ds chunks) (position : Nat) :
    PageFile.Reads ds (v.get position) (v.tuples chunks)[position]? := by
  obtain ⟨d, hd⟩ := hall.nonempty
  have h := hall.lies d hd
  unfold get
  by_cases htail : v.sealedLength ≤ position
  · rw [if_pos htail, h.sealedLength, tuples,
      List.getElem?_append_right (h.sealedLength ▸ htail), Array.getElem?_toList]
    exact .pure _
  · obtain ⟨ref, chunk, href, hchunk, hpage, hstart, hstop⟩ := h.pageOf (Nat.lt_of_not_le htail)
    rw [if_neg htail, href, getElem?_tuples hchunk hstart hstop, ← List.getElem?_toArray,
      ← hpage.start]
    exact (reads_loadPage (hall.page href hchunk)).bind (.pure _)

/-- If the last key of a page is too small, all keys up to it are. -/
theorem LiesOn.lt_of_lastKey (h : v.LiesOn d chunks) {start : Nat} {chunk : List Tuple}
    (hchunk : chunks[i]? = some chunk) (hpage : d.Page v.kind ref start chunk)
    (hkey : ref.lastKey < key) : ∀ t ∈ (chunks.take (i + 1)).flatten, t.key < key := by
  obtain ⟨last, hlast, hlastKey⟩ := Option.map_eq_some_iff.mp hpage.lastKey
  obtain ⟨hlt, hget⟩ := List.getElem?_eq_some_iff.mp hchunk
  have htake : (chunks.take (i + 1)).flatten = (chunks.take i).flatten ++ chunk := by
    rw [List.take_succ_eq_append_getElem hlt, List.flatten_append, List.flatten_singleton, hget]
  have hsorted := h.sorted
  rw [tuples_eq hchunk, ← List.append_assoc, ← htake] at hsorted
  have hlast' : (chunks.take (i + 1)).flatten.getLast? = some last := by
    rw [htake, List.getLast?_append_of_ne_nil _ hpage.ne_nil, hlast]
  intro t ht
  have hle := Sorted.le_getLast (List.pairwise_append.mp hsorted).1 hlast' ht
  exact UInt64.lt_of_le_of_lt hle (hlastKey ▸ hkey)

/-- If the last key of a page is large enough, all later keys are. -/
theorem LiesOn.le_of_lastKey (h : v.LiesOn d chunks) {start : Nat} {chunk : List Tuple}
    (hchunk : chunks[i]? = some chunk) (hpage : d.Page v.kind ref start chunk)
    (hkey : key ≤ ref.lastKey) :
    ∀ t ∈ (chunks.drop (i + 1)).flatten ++ v.tail.toList, key ≤ t.key := by
  obtain ⟨last, hlast, hlastKey⟩ := Option.map_eq_some_iff.mp hpage.lastKey
  have hsorted := h.sorted
  rw [tuples_eq hchunk] at hsorted
  have hpair := (List.pairwise_append.mp (List.pairwise_append.mp hsorted).2.1).2.2
  intro t ht
  have hle := hpair last (List.mem_of_getLast? hlast) t ht
  exact UInt64.le_trans (hlastKey ▸ hkey) hle

/-- If a page does not reach up to a key, those before it do not either. -/
theorem LiesOn.lastKey_mono (h : v.LiesOn d chunks) (key : UInt64) :
    ∀ i j, i ≤ j → j < v.directory.size → (v.directory[j]?.any (·.lastKey < key) : Bool) →
      (v.directory[i]?.any (·.lastKey < key) : Bool) := by
  intro i j hij hj hpj
  have hi : i < v.directory.size := Nat.lt_of_le_of_lt hij hj
  obtain ⟨chunk, hchunk, hpage⟩ := h.page (Array.getElem?_eq_getElem hj)
  obtain ⟨chunk', hchunk', hpage'⟩ := h.page (Array.getElem?_eq_getElem hi)
  obtain ⟨last, hlast, hlastKey⟩ := Option.map_eq_some_iff.mp hpage'.lastKey
  have hmem : last ∈ (chunks.take (j + 1)).flatten := by
    refine List.mem_flatten_of_mem ?_ (List.mem_of_getLast? hlast)
    have hget : (chunks.take (j + 1))[i]? = some chunk' := by
      rw [List.getElem?_take_of_lt (by omega), hchunk']
    exact List.mem_of_getElem? hget
  have hlt := h.lt_of_lastKey hchunk hpage (by simpa [Array.getElem?_eq_getElem hj] using hpj) _ hmem
  rw [hlastKey] at hlt
  simpa [Array.getElem?_eq_getElem hi] using hlt

/-- The page of a key is the first that reaches up to it. -/
theorem LiesOn.lt_pageFor_iff (h : v.LiesOn d chunks) (hi : v.directory[i]? = some ref)
    (key : UInt64) : i < v.pageFor key ↔ ref.lastKey < key := by
  have hlt : i < v.directory.size := (Array.getElem?_eq_some_iff.mp hi).1
  refine (lt_bisect_iff (h.lastKey_mono key) hlt).trans ?_
  rw [hi]
  simp

/-- The position in front of the first tuple whose key is at least the one sought. -/
theorem LiesOnAll.reads_lowerBound (hall : v.LiesOnAll ds chunks) (key : UInt64) :
    PageFile.Reads ds (v.lowerBound key) (place (v.tuples chunks) key) := by
  obtain ⟨d, hd⟩ := hall.nonempty
  have h := hall.lies d hd
  -- the tuples on the pages before the one in question are all below the key
  have hle : v.pageFor key ≤ v.directory.size := bisect_le (h.lastKey_mono key)
  have hbelow : ∀ t ∈ (chunks.take (v.pageFor key)).flatten, t.key < key := by
    cases hpage : v.pageFor key with
    | zero => simp
    | succ i =>
      have hi : v.directory[i]? = some _ := Array.getElem?_eq_getElem (by omega)
      obtain ⟨chunk, hchunk, hat⟩ := h.page hi
      exact h.lt_of_lastKey hchunk hat ((h.lt_pageFor_iff hi key).mp (by omega))
  have htail : Sorted v.tail.toList := (List.pairwise_append.mp h.sorted).2.1
  unfold lowerBound
  cases href : v.directory[v.pageFor key]? with
  | none =>
    have hend : v.pageFor key = chunks.length := by
      have hge : v.directory.size ≤ v.pageFor key := Array.getElem?_eq_none_iff.mp href
      rw [← h.size_eq]
      omega
    rw [hend, List.take_length] at hbelow
    rw [tuples, place_append, place_eq_length hbelow, ← h.sealedLength, ← firstAtLeast_eq htail]
    exact .pure _
  | some ref =>
    obtain ⟨chunk, hchunk, hpage⟩ := h.page href
    have hsize : v.pageFor key < v.directory.size := (Array.getElem?_eq_some_iff.mp href).1
    have habove : key ≤ ref.lastKey := by
      rw [← UInt64.not_lt, ← h.lt_pageFor_iff href key]
      exact Nat.lt_irrefl _
    have hplace : place (v.tuples chunks) key = ref.start + place chunk key := by
      rw [tuples_eq hchunk, place_append, place_append, place_eq_length hbelow,
        place_eq_zero (h.le_of_lastKey hchunk hpage habove), Nat.add_zero, hpage.start]
      rfl
    have hsorted : Sorted chunk := by
      have hall := h.sorted
      rw [tuples_eq hchunk] at hall
      exact (List.pairwise_append.mp (List.pairwise_append.mp hall).2.1).1
    rw [hplace]
    dsimp only
    split
    · rename_i hkey
      obtain ⟨first, hfirst, hfirstKey⟩ := Option.map_eq_some_iff.mp hpage.firstKey
      have hzero : place chunk key = 0 := place_eq_zero fun t ht =>
        UInt64.le_trans (hfirstKey ▸ hkey) (hsorted.head_le hfirst ht)
      rw [hzero]
      exact .pure _
    · rw [← firstAtLeast_eq hsorted]
      exact (reads_loadPage (hall.page href hchunk)).bind (.pure _)

/-- A cursor at a key is a snapshot with its gap at the place of the key. -/
theorem LiesOnAll.reads_cursorAt (h : v.LiesOnAll ds chunks) (key : UInt64) :
    PageFile.Reads ds (v.cursorAt key) ⟨v, place (v.tuples chunks) key, none⟩ :=
  (h.reads_lowerBound key).bind (.pure _)

end Snapshot

namespace Stored

variable {c : Stored} {ds : Disks} {chunks : List (List Tuple)} {position : Nat}

/-- The page decoded last is one of the snapshot. -/
def Coherent (c : Stored) (chunks : List (List Tuple)) : Prop :=
  ∀ i tuples, c.page = some (i, tuples) → chunks[i]? = some tuples.toList

/-- The page with an index is decoded, or it was. -/
theorem reads_pageAt {i : Nat} {ref : PageRef} {start : Nat} {chunk : List Tuple}
    (hc : c.Coherent chunks) (hchunk : chunks[i]? = some chunk)
    (hpage : ∀ d, ds d → d.Page c.view.kind ref start chunk) :
    ∃ c', Over.Reads ds (pageAt i ref) c chunk.toArray c' ∧ c'.Coherent chunks ∧
      c'.view = c.view ∧ c'.position = c.position := by
  have hload : Over.Reads ds (Over.onPages (c.view.loadPage ref)) c chunk.toArray c :=
    .onPages (Snapshot.reads_loadPage hpage) c
  have hdecoded : Coherent { c with page := some (i, chunk.toArray) } chunks := by
    intro j tuples hj
    cases hj
    exact hchunk
  rcases hlast : c.page with _ | ⟨j, tuples⟩
  · -- no page has been decoded yet
    refine ⟨{ c with page := some (i, chunk.toArray) }, ?_, hdecoded, rfl, rfl⟩
    refine (Over.Reads.current c).bind ?_
    rw [hlast]
    exact hload.bind ((Over.Reads.replace c _).bind (.pure _ _))
  · by_cases hj : j = i
    · -- the page at hand is the one that is asked for
      refine ⟨c, ?_, hc, rfl, rfl⟩
      have htuples : tuples = chunk.toArray := by
        have hheld := hc j tuples hlast
        rw [hj, hchunk, Option.some.injEq] at hheld
        rw [hheld]
      refine (Over.Reads.current c).bind ?_
      rw [hlast]
      dsimp only
      rw [if_pos hj, htuples]
      exact .pure _ _
    · refine ⟨{ c with page := some (i, chunk.toArray) }, ?_, hdecoded, rfl, rfl⟩
      refine (Over.Reads.current c).bind ?_
      rw [hlast]
      dsimp only
      rw [if_neg hj]
      exact hload.bind ((Over.Reads.replace c _).bind (.pure _ _))

/-- The tuple at a position. -/
theorem reads_tupleAt (hall : c.view.LiesOnAll ds chunks) (hc : c.Coherent chunks)
    (position : Nat) :
    ∃ c', Over.Reads ds (tupleAt position) c (c.view.tuples chunks)[position]? c' ∧
      c'.Coherent chunks ∧ c'.view = c.view ∧ c'.position = c.position := by
  obtain ⟨d, hd⟩ := hall.nonempty
  have h := hall.lies d hd
  by_cases htail : c.view.sealedLength ≤ position
  · -- the tuple lies in the open page of the view
    refine ⟨c, ?_, hc, rfl, rfl⟩
    refine (Over.Reads.current c).bind ?_
    dsimp only
    rw [if_pos htail, h.sealedLength, Snapshot.tuples,
      List.getElem?_append_right (h.sealedLength ▸ htail), Array.getElem?_toList]
    exact .pure _ _
  · -- it lies in a sealed page, as far behind its first tuple
    obtain ⟨ref, chunk, href, hchunk, hpage, hstart, hstop⟩ := h.pageOf (Nat.lt_of_not_le htail)
    obtain ⟨c', hrun, hc', hview, hposition⟩ := reads_pageAt hc hchunk (hall.page href hchunk)
    refine ⟨c', ?_, hc', hview, hposition⟩
    refine (Over.Reads.current c).bind ?_
    dsimp only
    rw [if_neg htail, href]
    refine hrun.bind ?_
    rw [Snapshot.getElem?_tuples hchunk hstart hstop, hpage.start, List.getElem?_toArray]
    exact .pure _ _

/-- A cursor over a snapshot stands at a place of its list. -/
structure StandsAt (ds : Disks) (chunks : List (List Tuple)) (c : Stored) (p : Nat) : Prop where
  lies : c.view.LiesOnAll ds chunks
  coherent : c.Coherent chunks
  position : c.position = p
  inside : p ≤ (c.view.tuples chunks).length

variable {p : Nat}

/-- Reading leaves the gap where it is. -/
theorem StandsAt.reads_tupleAt (h : StandsAt ds chunks c p) (q : Nat) :
    ∃ c', Over.Reads ds (tupleAt q) c (c.view.tuples chunks)[q]? c' ∧ StandsAt ds chunks c' p ∧
      c'.view = c.view := by
  obtain ⟨c', hrun, hc', hview, hposition⟩ := Stored.reads_tupleAt h.lies h.coherent q
  exact ⟨c', hrun, ⟨hview ▸ h.lies, hc', hposition.trans h.position, hview ▸ h.inside⟩, hview⟩

/-- A cursor over a snapshot peeks on as one over its list does. -/
theorem StandsAt.peekNext (h : StandsAt ds chunks c p) :
    ∃ c', Over.Reads ds peekNext c (c.view.tuples chunks)[p]? c' ∧ StandsAt ds chunks c' p ∧
      c'.view = c.view := by
  obtain ⟨c', hrun, h', hview⟩ := h.reads_tupleAt p
  refine ⟨c', (Over.Reads.current c).bind ?_, h', hview⟩
  rw [h.position]
  exact hrun

/-- A cursor over a snapshot peeks back as one over its list does. -/
theorem StandsAt.peekPrevious (h : StandsAt ds chunks c p) :
    ∃ c', Over.Reads ds peekPrevious c (before (c.view.tuples chunks) p) c' ∧
      StandsAt ds chunks c' p ∧ c'.view = c.view := by
  cases p with
  | zero =>
    refine ⟨c, (Over.Reads.current c).bind ?_, h, rfl⟩
    rw [h.position]
    exact .pure c _
  | succ p =>
    obtain ⟨c', hrun, h', hview⟩ := h.reads_tupleAt p
    refine ⟨c', (Over.Reads.current c).bind ?_, h', hview⟩
    rw [h.position]
    exact hrun

/-- The gap may be moved to any place. -/
theorem StandsAt.moved (h : StandsAt ds chunks c p) {q : Nat}
    (hq : q ≤ (c.view.tuples chunks).length) : StandsAt ds chunks { c with position := q } q :=
  ⟨h.lies, h.coherent, rfl, hq⟩

/-- A cursor over a snapshot goes on as one over its list does. -/
theorem StandsAt.next (h : StandsAt ds chunks c p) :
    ∃ c', Over.Reads ds next c (c.view.tuples chunks)[p]? c' ∧
      StandsAt ds chunks c' (min (p + 1) (c.view.tuples chunks).length) ∧ c'.view = c.view := by
  obtain ⟨c', hrun, h', hview⟩ := h.peekNext
  cases hget : (c.view.tuples chunks)[p]? with
  | none =>
    have hend : (c.view.tuples chunks).length ≤ p := List.getElem?_eq_none_iff.mp hget
    rw [hget] at hrun
    refine ⟨c', hrun.bind (.pure c' _), ?_, hview⟩
    rw [show min (p + 1) (c.view.tuples chunks).length = p by have := h.inside; omega]
    exact h'
  | some t =>
    have hlt : p < (c.view.tuples chunks).length := (List.getElem?_eq_some_iff.mp hget).1
    rw [hget] at hrun
    refine ⟨{ c' with position := p + 1 }, hrun.bind ((Over.Reads.current c').bind ?_), ?_, hview⟩
    · rw [h'.position]
      exact (Over.Reads.replace c' _).bind (.pure _ _)
    · rw [Nat.min_eq_left hlt]
      exact h'.moved (hview ▸ hlt)

/-- A cursor over a snapshot goes back as one over its list does. -/
theorem StandsAt.previous (h : StandsAt ds chunks c p) :
    ∃ c', Over.Reads ds previous c (before (c.view.tuples chunks) p) c' ∧
      StandsAt ds chunks c' (p - 1) ∧ c'.view = c.view := by
  obtain ⟨c', hrun, h', hview⟩ := h.peekPrevious
  cases p with
  | zero => exact ⟨c', hrun.bind (.pure c' _), h', hview⟩
  | succ p =>
    have hlt : p < (c.view.tuples chunks).length := h.inside
    rw [before_succ, List.getElem?_eq_getElem hlt] at hrun ⊢
    refine ⟨{ c' with position := p }, hrun.bind ((Over.Reads.current c').bind ?_), ?_, hview⟩
    · rw [h'.position]
      exact (Over.Reads.replace c' _).bind (.pure _ _)
    · exact h'.moved (hview ▸ Nat.le_of_lt hlt)

/-- A seek is answered from the tuples at the gap if the place is there, and by bisection otherwise; both
ways end at the place of the key. -/
theorem StandsAt.seek (h : StandsAt ds chunks c p) (key : UInt64) :
    ∃ c', Over.Reads ds (seek key) c () c' ∧
      StandsAt ds chunks c' (place (c.view.tuples chunks) key) ∧ c'.view = c.view := by
  obtain ⟨c₁, hrun₁, h₁, hview₁⟩ := h.peekPrevious
  obtain ⟨c₂, hrun₂, h₂, hview₂⟩ := h₁.peekNext
  rw [hview₁] at hrun₂ hview₂
  by_cases hgap : ((before (c.view.tuples chunks) p).all (·.key < key) &&
      (c.view.tuples chunks)[p]?.all (key ≤ ·.key)) = true
  · -- the tuples on both sides tell that the cursor stands there already
    obtain ⟨hbefore, hafter⟩ := Bool.and_eq_true_iff.mp hgap
    refine ⟨c₂, hrun₁.bind (hrun₂.bind ?_), ?_, hview₂⟩
    · rw [if_pos hgap]
      exact .pure c₂ _
    · rw [place_eq_of_gap h.lies.sorted h.inside hbefore hafter]
      exact h₂
  · -- otherwise the place is searched for
    have hlower : PageFile.Reads ds (c₂.view.lowerBound key)
        (place (c.view.tuples chunks) key) := by
      rw [hview₂]
      exact h.lies.reads_lowerBound key
    refine ⟨{ c₂ with position := place (c.view.tuples chunks) key },
      hrun₁.bind (hrun₂.bind ?_), h₂.moved (hview₂ ▸ place_le _ key), hview₂⟩
    rw [if_neg hgap]
    refine (Over.Reads.current c₂).bind ((Over.Reads.onPages hlower c₂).bind ?_)
    exact (Over.Reads.current c₂).bind (.replace c₂ _)

/-- Standing at a place of a snapshot is showing its list there. -/
theorem mimicry_standsAt (ds : Disks) :
    Mimicry ds fun c ts p => ∃ chunks, StandsAt ds chunks c p ∧ ts = c.view.tuples chunks where
  sorted := fun ⟨chunks, h, hts⟩ => hts ▸ h.lies.sorted
  inside := fun ⟨chunks, h, hts⟩ => hts ▸ h.inside
  extent := fun ⟨chunks, h, hts⟩ => hts ▸ Nat.le_of_eq h.lies.length_eq
  peekNext := by
    rintro c _ p ⟨chunks, h, rfl⟩
    obtain ⟨c', hrun, h', hview⟩ := h.peekNext
    exact ⟨c', hrun, chunks, h', by rw [hview]⟩
  peekPrevious := by
    rintro c _ p ⟨chunks, h, rfl⟩
    obtain ⟨c', hrun, h', hview⟩ := h.peekPrevious
    exact ⟨c', hrun, chunks, h', by rw [hview]⟩
  next := by
    rintro c _ p ⟨chunks, h, rfl⟩
    obtain ⟨c', hrun, h', hview⟩ := h.next
    exact ⟨c', hrun, chunks, h', by rw [hview]⟩
  previous := by
    rintro c _ p ⟨chunks, h, rfl⟩
    obtain ⟨c', hrun, h', hview⟩ := h.previous
    exact ⟨c', hrun, chunks, h', by rw [hview]⟩
  seek := by
    rintro c _ p key ⟨chunks, h, rfl⟩
    obtain ⟨c', hrun, h', hview⟩ := h.seek key
    exact ⟨c', hrun, chunks, h', by rw [hview]⟩

/-- A cursor over a snapshot that was just opened shows its list. -/
theorem shows_of_view {v : Snapshot} (h : v.LiesOnAll ds chunks) (hp : p ≤ (v.tuples chunks).length) :
    Shows ds (⟨v, p, none⟩ : Stored) (v.tuples chunks) p :=
  (mimicry_standsAt ds).shows ⟨chunks, ⟨h, fun _ _ h => (nomatch h), rfl, hp⟩, rfl⟩

end Stored

end EventIndex
