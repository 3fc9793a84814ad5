import Mathlib
import EventIndex.Proofs.Index.PageBudget

/-! # Whose page is it

Sealed pages, slot pages, and the pages of lists that are written out all come from one free list.
`PagesOf` finds the pages of one list from the archive alone: from its directory while it is in
memory, and from its slot and the directory chain on disk while it is written out. The pages of all
owners and the free ones are the pages of the file, each of them once (`pages_partitioned`).

Main results:

* `Sound.pagesOf`: a list uses just the pages that are found from its entry, its slot and its directory.
* `Sound.pages_perm`: every page is free or in use, and that once.
-/

namespace EventIndex

namespace PageFile

/-- The page handed out next is not in use. -/
theorem not_mem_of_allocate {f f' : PageFile} {p : PageId} {used : List Nat}
    (hused : (f.free ++ used).Perm (List.range' 1 (f.pageCount - 1)))
    (h : allocate f = .ok p f') : p ∉ used := by
  intro hmem
  cases hfree : f.free with
  | nil =>
    simp only [allocate, hfree] at h
    cases h
    have hin := hused.subset (List.mem_append_right _ hmem)
    rw [List.mem_range'_1] at hin
    omega
  | cons q free =>
    simp only [allocate, hfree] at h
    cases h
    have hnodup := hused.nodup_iff.mpr (List.nodup_range' 1)
    rw [hfree] at hnodup
    exact (List.nodup_append.mp hnodup).2.2 p List.mem_cons_self p hmem rfl

end PageFile

namespace Archive

variable {a : Archive} {c : Contents} {key : OwnerKey}

/-- What a set knows of a list. -/
def entryOf (a : Archive) (key : OwnerKey) : Option Entry :=
  (a.set? key.set).bind fun set => set.entries[key.value]?

/-- The lists of one set that have an entry. -/
def keysOf (a : Archive) (id : SetId) : List OwnerKey :=
  match a.set? id with
  | none => []
  | some set => set.entries.toList.map fun e => ⟨id, e.1⟩

/-- The lists of all sets that have an entry. -/
def keys (a : Archive) : List OwnerKey := (List.range a.shelf.sets.size).flatMap a.keysOf

/-- The slot pages of one set. -/
def slotPagesOf (a : Archive) (id : SetId) : List Nat :=
  match a.set? id with
  | none => []
  | some set => set.slotPageList

/-- The slot pages of all sets. -/
def slotPages (a : Archive) : List Nat := (List.range a.shelf.sets.size).flatMap a.slotPagesOf

/-- The pages of a list that has an entry: those that its directory lists, and those that it needs
only while it is written out. -/
inductive PagesOf (a : Archive) (key : OwnerKey) : List Nat → List Nat → Prop
  | resident {store : Store} {uses : Nat} (h : a.entryOf key = some (.resident store uses)) :
      PagesOf a key (store.directory.toList.map PageRef.page) []
  /-- The slot of the value says where tail and directory are. -/
  | discarded {set : IndexSet} {x : Descriptor} {tail chain : List Nat} {ts : List Tuple}
      {refs : List PageRef} (h : a.entryOf key = some .discarded) (hset : a.set? key.set = some set)
      (hslot : set.HasSlot a.shelf.pages.disk key.value x)
      (htail : a.shelf.pages.disk.TailAt set.kind x.tailPage.toNat tail ts)
      (hchain : a.shelf.pages.disk.DirectoryAt x.directory.toNat chain refs) :
      PagesOf a key (refs.map PageRef.page) (tail ++ chain)

/-- The pages in use, when `sealed` and `transient` are the pages of each list. -/
def pagesInUse (a : Archive) (sealed transient : OwnerKey → List Nat) : List Nat :=
  a.slotPages ++ (a.stamps.sealedPages ++ (a.keys.flatMap sealed ++ a.keys.flatMap transient))

theorem exists_of_mem_keys (h : key ∈ a.keys) :
    ∃ set entry, a.set? key.set = some set ∧ set.entries[key.value]? = some entry := by
  obtain ⟨id, -, hmem⟩ := List.mem_flatMap.mp h
  unfold keysOf at hmem
  split at hmem
  · cases hmem
  · rename_i set hset
    obtain ⟨⟨v, entry⟩, he, rfl⟩ := List.mem_map.mp hmem
    exact ⟨set, entry, hset, Std.HashMap.mem_toList_iff_getElem?_eq_some.mp he⟩

/-- A list uses the pages that it holds. -/
theorem Sound.pagesOf (hs : a.Sound c) (hkey : key ∈ a.keys) :
    a.PagesOf key (c.lists key.set key.value).store.sealedPages
      (c.lists key.set key.value).scratch := by
  obtain ⟨set, entry, hset, hentry⟩ := exists_of_mem_keys hkey
  have hat := (hs.shelf.lies key.set set hset).holds key.value
  have hknown : a.entryOf key = some entry := by simp [entryOf, hset, hentry]
  cases entry with
  | resident store uses =>
    obtain ⟨hstore, hscratch⟩ := hat.resident store uses hentry
    rw [hstore, hscratch]
    exact .resident hknown
  | discarded =>
    obtain ⟨x, hslot, hsaved⟩ := hat.discarded hentry
    obtain ⟨tail, chain, hscratch, htail, hchain⟩ := hsaved.pages
    rw [hscratch]
    exact .discarded hknown hset hslot (hat.kind ▸ htail) hchain

/-- A list that is longer than a page and is not in memory has sealed pages, and takes pages for its
directory. -/
theorem Sound.pagesOf_writtenOut (hs : a.Sound c) (key : OwnerKey) {k : Kind}
    (hkind : (a.book c).kind? key.set = some k)
    (habsent : a.isResident key = false)
    (hlong : k.pageCapacity a.shelf.pages.payloadCapacity ≤ ((a.book c).lists key.set key.value).length) :
    a.entryOf key = some .discarded ∧
      ∃ sealed transient, a.PagesOf key sealed transient ∧ sealed ≠ [] ∧ transient ≠ [] := by
  obtain ⟨set, hset, rfl⟩ := Option.map_eq_some_iff.mp hkind
  have hat := (hs.shelf.lies key.set set hset).holds key.value
  -- the tail alone is shorter than a page
  have hrefs : (c.lists key.set key.value).store.directory.toList ≠ [] := by
    intro hnil
    have hchunks := hat.lies.view.sealedPages.length_eq
    rw [show (c.lists key.set key.value).store.snapshot.directory.toList = [] from hnil,
      List.length_nil, eq_comm, List.length_eq_zero_iff] at hchunks
    have htail := hat.lies.tail_lt
    rw [hs.shelf.file.perPage_eq, hat.kind] at htail
    have hlist : ((a.book c).lists key.set key.value).length =
        (c.lists key.set key.value).store.tail.size := by
      show ((c.lists key.set key.value).chunks.flatten ++ _).length = _
      rw [hchunks, List.flatten_nil, List.nil_append, Array.length_toList]
    exact absurd (hlist ▸ hlong) (Nat.not_le.mpr htail)
  have hentry : set.entries[key.value]? = some .discarded := by
    rcases hget : set.entries[key.value]? with _ | ⟨store, uses⟩ | _
    · rw [hat.unknown hget] at hrefs
      exact absurd rfl hrefs
    · rw [isResident, Shelf.isResident_of_some key hset, IndexSet.isResident_iff.mpr ⟨_, _, hget⟩]
        at habsent
      cases habsent
    · rfl
  have hknown : a.entryOf key = some .discarded := by
    rw [entryOf, hset]
    exact hentry
  obtain ⟨x, hslot, hsaved⟩ := hat.discarded hentry
  obtain ⟨tail, chain, -, htail, hchain⟩ := hsaved.pages
  refine ⟨hknown, _, _, .discarded hknown hset hslot (hat.kind ▸ htail) hchain, ?_, ?_⟩
  · rwa [Ne, List.map_eq_nil_iff]
  · exact List.append_ne_nil_of_right_ne_nil _ (hchain.pages_ne_nil hrefs)

theorem pagesAt_perm (a : Archive) (held : SetId → ValueId → Holding) (id : SetId) :
    (a.shelf.pagesAt held id).Perm (a.slotPagesOf id ++
      ((a.keysOf id).flatMap (fun k => (held k.set k.value).store.sealedPages) ++
        (a.keysOf id).flatMap fun k => (held k.set k.value).scratch)) := by
  unfold Shelf.pagesAt slotPagesOf keysOf
  rw [show a.shelf.sets[id]? = a.set? id from rfl]
  cases a.set? id with
  | none => exact .refl _
  | some set =>
    refine List.Perm.append_left _ ?_
    rw [List.flatMap_map, List.flatMap_map]
    exact (List.flatMap_append_perm _ _ _).symm

/-- The pages that the sets use, sorted by what they are used for. -/
theorem shelf_pagesInUse_perm (a : Archive) (held : SetId → ValueId → Holding) :
    (a.shelf.pagesInUse held).Perm (a.slotPages ++
      (a.keys.flatMap (fun k => (held k.set k.value).store.sealedPages) ++
        a.keys.flatMap fun k => (held k.set k.value).scratch)) := by
  rw [slotPages, keys, List.flatMap_assoc, List.flatMap_assoc]
  refine (List.Perm.flatMap_left _ fun id _ => pagesAt_perm a held id).trans ?_
  refine (List.flatMap_append_perm _ _ _).symm.trans (List.Perm.append_left _ ?_)
  exact (List.flatMap_append_perm _ _ _).symm

/-- Every page of the file is free or in use, and that once. -/
theorem Sound.pages_perm (hs : a.Sound c) :
    (a.shelf.pages.free ++ a.pagesInUse (fun k => (c.lists k.set k.value).store.sealedPages)
      fun k => (c.lists k.set k.value).scratch).Perm
        (List.range' 1 (a.shelf.pages.pageCount - 1)) := by
  have hperm : (a.shelf.pagesInUse c.lists ++ a.stamps.sealedPages).Perm
      (a.pagesInUse (fun k => (c.lists k.set k.value).store.sealedPages)
        fun k => (c.lists k.set k.value).scratch) := by
    refine ((shelf_pagesInUse_perm a c.lists).append_right _).trans ?_
    rw [List.append_assoc]
    exact List.Perm.append_left _ List.perm_append_comm
  have howned := hs.shelf.owned.perm hperm
  refine List.perm_iff_count.mpr fun (p : Nat) => ?_
  rw [List.count_append, (List.nodup_range' 1).count]
  refine (howned p).trans (if_congr ?_ rfl rfl)
  have hpos := hs.shelf.file.pageCount_pos
  rw [List.mem_range'_1]
  show 0 < p ∧ p < a.shelf.pages.pageCount ↔ _
  omega

/-- Each page of the file is free, a slot page, a sealed page of the timestamps or of one list, or a
tail or directory page of one list that is written out, and only once one of these. So the page
handed out next is none in use. -/
def PagesPartitioned (a : Archive) : Prop :=
  ∃ sealed transient : OwnerKey → List Nat,
    (∀ key ∈ a.keys, a.PagesOf key (sealed key) (transient key)) ∧
    (a.shelf.pages.free ++ a.pagesInUse sealed transient).Perm
      (List.range' 1 (a.shelf.pages.pageCount - 1)) ∧
    ∀ p f', PageFile.allocate a.shelf.pages = .ok p f' → p ∉ a.pagesInUse sealed transient

theorem Sound.pagesPartitioned (hs : a.Sound c) : a.PagesPartitioned :=
  ⟨_, _, fun _ hkey => hs.pagesOf hkey, hs.pages_perm,
    fun _ _ => PageFile.not_mem_of_allocate hs.pages_perm⟩

end Archive

namespace Setup

variable {u : Setup} {r : Recorder}

/-- Whatever happened to an index, no page is lost and none has two owners.

The pages of a list are found from its entry, its slot and the chain on disk, without any record of what
has happened; the invariant, which has such a record, gives the same pages (`Sound.pagesOf`). -/
theorem pages_partitioned (h : u.start = .ok r) (calls : List (Call u.shapes.length))
    (hroom : (r.run calls).pageCount ≤ maxPages) : (r.run calls).archive.PagesPartitioned := by
  obtain ⟨hs, -, -⟩ := start_spec h
  obtain ⟨c, hstep, -⟩ := Recorder.run_spec hs calls hroom
  exact hstep.sound.archive.pagesPartitioned

/-- A list is sealed, driven out, taken back for another one that leaves in turn, and written out again. -/
def cycle : List (Call small.shapes.length) :=
  fill ++ crowd ++ [.lookUp plainSet 1, .register 7, .flushStamps, .work 0]

/-- The list has sealed pages and directory pages in the end, and slots were written for both lists. -/
theorem pages_partitioned_small :
    ∃ r, small.start = .ok r ∧ (r.run (cycle ++ [.discard plainSet 1])).archive.PagesPartitioned ∧
      (r.run (cycle ++ [.discard plainSet 1])).archive.entryOf ⟨plainSet, 1⟩ = some .discarded ∧
      ∃ sealed transient,
        (r.run (cycle ++ [.discard plainSet 1])).archive.PagesOf ⟨plainSet, 1⟩ sealed transient ∧
          sealed ≠ [] ∧ transient ≠ [] := by
  obtain ⟨r, hr⟩ : ∃ r, small.start = .ok r := ⟨_, rfl⟩
  have hroom : (r.run (cycle ++ [.discard plainSet 1])).pageCount ≤ maxPages :=
    room_of_length hr (by decide)
  obtain ⟨hs, hledger, -⟩ := start_spec hr
  obtain ⟨c, hstep, hledger'⟩ := Recorder.run_spec hs _ hroom
  rw [hledger] at hledger'
  -- what the list holds is computed in the ledger, which has no pages
  have hbook : (r.run (cycle ++ [.discard plainSet 1])).archive.book c =
      (small.ledger.run (cycle ++ [.discard plainSet 1])).book := by
    rw [← hledger']
    rfl
  have hkind : ((r.run (cycle ++ [.discard plainSet 1])).archive.book c).kind? plainSet = some .plain := by
    rw [hbook]
    cbv
  have hlength : (((r.run (cycle ++ [.discard plainSet 1])).archive.book c).lists plainSet 1).length =
      28 := by
    rw [hbook]
    cbv
  have hcapacity : r.archive.shelf.pages.payloadCapacity = 248 := by
    cases hr
    rfl
  refine ⟨r, hr, pages_partitioned hr _ hroom, ?_⟩
  -- it is longer than a page, so some of it was sealed and needs a directory
  refine hstep.sound.archive.pagesOf_writtenOut ⟨plainSet, 1⟩ hkind
    (isResident_discarded hr hroom) ?_
  rw [hstep.pageCapacity_eq, hcapacity, hlength]
  decide

end Setup

end EventIndex
