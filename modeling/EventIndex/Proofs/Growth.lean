import EventIndex.Proofs.Act
import EventIndex.Proofs.Binary.LittleEndian
import EventIndex.Index.Set

/-! # Growth — page numbers are never given up

A page file hands out page numbers in increasing order and keeps count of them; pages that are given
back stay counted. So nothing that runs on a page file ever makes the count smaller, whether it
succeeds or fails. A bound on the pages after a run is therefore a bound on the pages at every moment
of the run.

How many pages an operation may take is known beforehand: `adds_append` says that a tuple takes one at
most, and `adds_save` that a store takes one for its tail and so many for each entry of its directory.
Reading takes none, and so a list comes back into memory for nothing. Only what a list takes that is
written out depends on the state (`pageCount_discard_le`).
-/

namespace EventIndex

open Act

/-! ## Pages -/

namespace PageFile

/-- A page that was given back is handed out again before a new number is taken. -/
theorem adds_allocate : Adds pageCount 1 allocate := by
  intro f
  cases hfree : f.free with
  | nil => simp [after, allocate, hfree]
  | cons id rest => simp [after, allocate, hfree]

/-- A page that is given back stays counted, and so does the header if somebody tries it. -/
theorem adds_release (id : PageId) : Adds pageCount 0 (release id) := by
  intro f
  by_cases hid : id = noPage <;> simp [after, release, hid]

/-- Writing needs a page that is there already, and fails otherwise. -/
theorem adds_write (id : PageId) (payload : List UInt8) : Adds pageCount 0 (write id payload) := by
  intro f
  by_cases hid : id = noPage
  · simp [after, write, hid]
  · by_cases hsize : f.payloadCapacity < payload.length <;>
      simp [after, write, hid, hsize, remember]

/-- Reading fills the cache, which has nothing to do with the pages that were handed out. -/
theorem adds_read (id : PageId) : Adds pageCount 0 (read id) := by
  intro f
  simp only [after, read]
  cases f.cache.find? id with
  | some cached => exact ⟨Nat.le_refl _, Nat.le_refl _⟩
  | none =>
    dsimp only
    cases PageFile.load _ id <;> exact ⟨Nat.le_refl _, Nat.le_refl _⟩

theorem grows_allocate : Grows pageCount allocate := adds_allocate.grows

theorem grows_release (id : PageId) : Grows pageCount (release id) := (adds_release id).grows

theorem grows_write (id : PageId) (payload : List UInt8) : Grows pageCount (write id payload) :=
  (adds_write id payload).grows

theorem grows_read (id : PageId) : Grows pageCount (read id) := (adds_read id).grows

/-- A page that is handed out to be written. -/
theorem adds_writeFresh {α : Type} (payload : List UInt8) (a : PageId → α) :
    Adds pageCount 1 (do
      let page ← allocate
      write page payload
      return a page) :=
  adds_allocate.bind fun _ => (adds_write _ _).bind fun _ => .pure _

end PageFile

open PageFile

/-! ## Stores -/

namespace Store

/-- An empty tail is not sealed. -/
theorem adds_sealTail (s : Store) : Adds pageCount 1 s.sealTail := by
  unfold sealTail
  split
  · exact adds_writeFresh _ _
  · exact (Adds.pure _).mono (Nat.zero_le _)

/-- A tuple may fill a page. -/
theorem adds_append (s : Store) (t : Tuple) : Adds pageCount 1 (s.append t) := by
  have hseal (s : Store) : Adds pageCount 1 (do
      let capacity := tuplesPerPage s.kind (← get)
      if capacity ≤ s.tail.size then s.sealTail else return s) := by
    refine Adds.get.bind (n := 1) fun f => ?_
    dsimp only
    split
    · exact adds_sealTail s
    · exact (Adds.pure _).mono (Nat.zero_le _)
  unfold append
  split
  · exact .check (hseal _)
  · exact (Adds.pure _).bind (n := 1) fun _ => hseal _

/-- Each piece takes a page. -/
theorem adds_allocateFor (pieces : List (List UInt8)) :
    Adds pageCount pieces.length (allocateFor pieces) := by
  induction pieces with
  | nil => exact .pure _
  | cons piece pieces ih =>
    refine (adds_allocate.bind fun _ => ih.bind fun _ => .pure _).mono ?_
    rw [List.length_cons]
    omega

/-- The pages for the pieces were taken before. -/
theorem adds_writePieces (pages : List PageId) (pieces : List (List UInt8)) :
    Adds pageCount 0 (writePieces pages pieces) := by
  induction pages generalizing pieces with
  | nil => exact .pure _
  | cons page pages ih =>
    cases pieces with
    | nil => exact .pure _
    | cons piece pieces => exact (adds_write _ _).bind fun _ => ih pieces

/-- No piece is empty. -/
theorem length_piecesOf_le (size fuel : Nat) (bytes : List UInt8) :
    (piecesOf size fuel bytes).length ≤ fuel := by
  induction fuel generalizing bytes with
  | zero => exact Nat.le_refl _
  | succ fuel ih =>
    cases bytes with
    | nil => exact Nat.zero_le _
    | cons b bs => exact Nat.succ_le_succ (ih _)

/-- Every piece takes a byte at least, so that there are no more of them than bytes. -/
theorem adds_writeChain (bytes : List UInt8) : Adds pageCount bytes.length (writeChain bytes) := by
  refine Adds.mono (Adds.get.bind fun f => ?_) (Nat.le_of_eq (Nat.zero_add _))
  refine Adds.mono ((adds_allocateFor _).bind fun _ => (adds_writePieces _ _).bind fun _ => .pure _) ?_
  exact length_piecesOf_le _ _ _

/-- The tail of a store goes to one page, unless it is empty. -/
theorem adds_saveTail (s : Store) : Adds pageCount 1 s.saveTail := by
  unfold saveTail
  split
  · exact (Adds.pure _).mono (Nat.zero_le _)
  · exact adds_writeFresh _ _

/-- An entry of a directory has 32 bytes. -/
theorem length_directoryBytes (directory : List PageRef) :
    (directoryBytes directory).length = 8 + 32 * directory.length := by
  have hentry (p : PageRef) : (refBytes p).length = 32 := by simp [refBytes]
  rw [directoryBytes, Binary.counted, List.length_append, Binary.length_littleEndian,
    Binary.length_flatMap_of_length_eq hentry]

/-- Without entries a directory is not written. -/
theorem adds_saveDirectory (s : Store) : Adds pageCount (40 * s.directory.size) s.saveDirectory := by
  unfold saveDirectory
  split
  · exact (Adds.pure _).mono (Nat.zero_le _)
  · rename_i hempty
    have hpos : 0 < s.directory.size := by
      rw [Array.size_pos_iff]
      simpa using hempty
    refine (adds_writeChain _).mono ?_
    rw [length_directoryBytes, Array.length_toList]
    omega

/-- Tail and directory together. The sealed pages stay where they are. -/
theorem adds_save (s : Store) : Adds pageCount (40 * s.directory.size + 1) s.save :=
  ((adds_saveTail s).bind fun _ => (adds_saveDirectory s).bind fun _ => .pure _).mono (by omega)

theorem adds_readChainWithin (fuel : Nat) (page : PageId) :
    Adds pageCount 0 (readChainWithin fuel page) := by
  induction fuel generalizing page with
  | zero =>
    unfold readChainWithin
    split
    · exact .pure _
    · exact .pure _
  | succ fuel ih =>
    unfold readChainWithin
    split
    · exact .pure _
    · refine (adds_read page).bind (n := 0) fun payload => ?_
      refine .check ((adds_release page).bind (n := 0) fun _ => (ih _).bind (n := 0) fun bytes => ?_)
      cases bytes with
      | none => exact .pure _
      | some bytes => exact .pure _

/-- The pages of a chain are given back as they are read. -/
theorem adds_readChain (page : PageId) : Adds pageCount 0 (readChain page) := by
  refine Adds.get.bind (n := 0) fun f => (adds_readChainWithin _ _).bind (n := 0) fun bytes => ?_
  cases bytes with
  | none => exact .throw _
  | some bytes => exact .pure _

theorem adds_loadDirectory (d : Descriptor) : Adds pageCount 0 (loadDirectory d) := by
  unfold loadDirectory
  split
  · exact .pure _
  · refine (adds_readChain _).bind (n := 0) fun bytes => ?_
    split
    · exact .pure _
    · exact .throw _

theorem adds_loadTail (k : Kind) (d : Descriptor) : Adds pageCount 0 (loadTail k d) := by
  unfold loadTail
  split
  · exact .pure _
  · exact (adds_read _).bind fun _ => (Adds.ofExcept _).bind fun _ =>
      (adds_release _).bind fun _ => .pure _

/-- Taking a store back takes no page. -/
theorem adds_load (k : Kind) (d : Descriptor) : Adds pageCount 0 (load k d) := by
  refine (adds_loadDirectory d).bind (n := 0) fun directory => .check ?_
  exact (adds_loadTail k d).bind (n := 0) fun tail => .check (.check (.pure _))

theorem grows_sealTail (s : Store) : Grows pageCount s.sealTail := (adds_sealTail s).grows

theorem grows_append (s : Store) (t : Tuple) : Grows pageCount (s.append t) :=
  (adds_append s t).grows

theorem grows_save (s : Store) : Grows pageCount s.save := (adds_save s).grows

theorem grows_load (k : Kind) (d : Descriptor) : Grows pageCount (load k d) := (adds_load k d).grows

end Store

/-! ## Index sets -/

/-- The pages handed out by the file below a value. -/
def Over.pageCount {C : Type} (s : Over C) : Nat := s.pages.pageCount

namespace IndexSet

variable {α : Type} {n : Nat}

/-- The page count of a set is that of the file below it. -/
theorem adds_onPages {act : Act PageFile α} (h : Adds PageFile.pageCount n act) :
    Adds Over.pageCount n (Over.onPages act : Act (Over IndexSet) α) := Over.adds_onPages h

theorem adds_current : Adds Over.pageCount 0 (Over.current : Act (Over IndexSet) IndexSet) :=
  fun _ => ⟨Nat.le_refl _, Nat.le_refl _⟩

theorem adds_replace (set : IndexSet) :
    Adds Over.pageCount 0 (Over.replace set : Act (Over IndexSet) Unit) :=
  fun _ => ⟨Nat.le_refl _, Nat.le_refl _⟩

/-- A descriptor is looked for on a page that is there, if any. -/
theorem adds_readSlot (value : ValueId) : Adds Over.pageCount 0 (readSlot value) := by
  refine adds_current.bind (n := 0) fun set => Adds.get.bind (n := 0) fun s => ?_
  dsimp only
  split
  · exact .throw _
  · exact (adds_onPages (adds_read _)).bind (n := 0) fun payload => .check (.ofExcept _)

/-- Only the first slot of a page takes one. -/
theorem adds_slotPage (number : Nat) : Adds Over.pageCount 1 (slotPage number) := by
  refine adds_current.bind (n := 1) fun set => ?_
  split
  · exact ((adds_onPages (adds_read _)).bind fun _ => .pure _).mono (Nat.zero_le _)
  · exact (adds_onPages adds_allocate).bind fun _ => (adds_replace _).bind fun _ =>
      Adds.get.bind fun _ => .pure _

/-- A descriptor goes into its slot, on the page of slots that is there or a fresh one. -/
theorem adds_writeSlot (value : ValueId) (d : Descriptor) :
    Adds Over.pageCount 1 (writeSlot value d) :=
  Adds.get.bind (n := 1) fun _ => (adds_slotPage _).bind fun _ => adds_onPages (adds_write _ _)

/-- What it takes to write a list out, whichever it is. -/
theorem adds_writeOut (store : Store) (value : ValueId) (rest : IndexSet → IndexSet) :
    Adds Over.pageCount (40 * store.directory.size + 2) (do
      let d ← Over.onPages store.save
      writeSlot value d
      let set ← Over.current
      Over.replace (rest set)
      return true) :=
  ((adds_onPages (Store.adds_save store)).bind fun _ => (adds_writeSlot _ _).bind fun _ =>
    adds_current.bind fun _ => (adds_replace _).bind fun _ => .pure _).mono (by omega)

/-- A list that leaves memory may take pages. How many depends on its directory, that is, on the state. -/
theorem grows_discard (value : ValueId) : Grows Over.pageCount (discard value) := by
  refine adds_current.grows.bind fun set => ?_
  split
  · exact (adds_writeOut _ _ _).grows
  · exact .pure _

/-- An access takes no page. -/
theorem adds_makeResident (useThreshold : Nat) (value : ValueId) :
    Adds Over.pageCount 0 (makeResident useThreshold value) := by
  refine adds_current.bind (n := 0) fun set => ?_
  split
  · split
    · exact (adds_replace _).bind fun _ => .pure _
    · exact (adds_replace _).bind fun _ => .pure _
  · exact (adds_readSlot _).bind fun _ => (adds_onPages (Store.adds_load _ _)).bind fun _ =>
      (adds_replace _).bind fun _ => .pure _
  · exact (adds_replace _).bind fun _ => .pure _

/-- A tuple goes to a list in memory, and nothing happens where there is none. -/
theorem adds_appendTo (value : ValueId) (t : Tuple) : Adds Over.pageCount 1 (appendTo value t) := by
  refine adds_current.bind (n := 1) fun set => ?_
  split
  · exact (adds_onPages (Store.adds_append _ _)).bind fun _ => adds_replace _
  · exact (Adds.pure _).mono (Nat.zero_le _)

/-- Each entry of a batch may fill a page. -/
theorem adds_applyEntries (useThreshold : Nat) (entries : List (ValueId × Tuple)) :
    Adds Over.pageCount entries.length (applyEntries useThreshold entries) := by
  induction entries with
  | nil => exact .pure _
  | cons entry entries ih =>
    refine ((adds_makeResident _ _).bind fun _ => (adds_appendTo _ _).bind fun _ =>
      ih.bind fun _ => .pure _).mono ?_
    rw [List.length_cons]
    omega

theorem grows_applyEntries (useThreshold : Nat) (entries : List (ValueId × Tuple)) :
    Grows Over.pageCount (applyEntries useThreshold entries) := (adds_applyEntries _ _).grows

/-- A look-up is an access and a snapshot of what is in memory then. -/
theorem adds_lookUp (useThreshold : Nat) (value : ValueId) :
    Adds Over.pageCount 0 (lookUp useThreshold value) := by
  refine (adds_makeResident _ _).bind (n := 0) fun access => adds_current.bind (n := 0) fun set => ?_
  split
  · exact .pure _
  · exact .throw _

theorem grows_lookUp (useThreshold : Nat) (value : ValueId) :
    Grows Over.pageCount (lookUp useThreshold value) := (adds_lookUp _ _).grows

end IndexSet

end EventIndex
