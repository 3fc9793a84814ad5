import EventIndex.Proofs.Index.Simulation

/-! # A fresh index

Before anything happens, no page is handed out but the header, no list is in memory, and the ledger
is empty. With `run_spec` this is the start of every run.

Main results:

* `Archive.Fresh.sound`, `Archive.Fresh.tidy`: a fresh archive is sound and tidy.
* `Setup.start_spec`: an index that has been started is sound, and its ledger is the one of its setup.
-/

namespace EventIndex

namespace Archive

variable {a : Archive} {pages : PageFile} {capacity useThreshold : Nat}
  {shapes more : List (String × Kind × Nat)}

/-- An archive to which nothing was done but that its sets were added. -/
structure Fresh (a : Archive) (pages : PageFile) (capacity : Nat)
    (shapes : List (String × Kind × Nat)) : Prop where
  pages_eq : a.shelf.pages = pages
  stamps_eq : a.stamps = .empty .stamp
  capacity_eq : a.residency.capacity = max capacity 1
  tracked_eq : a.residency.tracked = []
  isOpen : a.residency.isDisposed = false
  size_eq : a.shelf.sets.size = shapes.length
  nextSet_eq : a.residency.nextSet = shapes.length
  owns : ∀ id : Nat, id < shapes.length → a.residency.owners.contains id = true
  set?_eq : ∀ id : Nat, a.set? id = shapes[id]?.map fun s => .create id s.1 s.2.1 s.2.2

theorem fresh_create :
    Fresh (create pages (Residency.create capacity useThreshold)) pages capacity [] :=
  ⟨rfl, rfl, rfl, rfl, rfl, rfl, rfl, fun _ h => absurd h (Nat.not_lt_zero _), fun _ => rfl⟩

theorem Fresh.addSet (h : a.Fresh pages capacity shapes) (shape : String × Kind × Nat) :
    (a.addSet shape.1 shape.2.1 shape.2.2).Fresh pages capacity (shapes ++ [shape]) where
  pages_eq := h.pages_eq
  stamps_eq := h.stamps_eq
  capacity_eq := h.capacity_eq
  tracked_eq := h.tracked_eq
  isOpen := h.isOpen
  size_eq := by
    simp [Archive.addSet, h.size_eq]
  nextSet_eq := by
    simp [Archive.addSet, Residency.register, h.nextSet_eq]
  owns id hid := by
    rw [List.length_append, List.length_singleton] at hid
    simp only [Archive.addSet, Residency.register, List.contains_cons, Bool.or_eq_true, beq_iff_eq,
      h.nextSet_eq]
    -- the new set has the next number, which is the one it is registered under
    by_cases hlast : id = shapes.length
    · exact .inl hlast
    · exact .inr (h.owns id (by omega))
  set?_eq id := by
    have hset := h.set?_eq id
    simp only [set?] at hset
    simp only [set?, Archive.addSet, Residency.register, Array.getElem?_push, h.size_eq,
      h.nextSet_eq, hset]
    by_cases hlast : id = shapes.length
    · rw [if_pos hlast, hlast, List.getElem?_concat_length]
      rfl
    · rw [if_neg hlast, List.getElem?_append]
      split
      · rfl
      · have hnone : shapes[id]? = none := List.getElem?_eq_none (by omega)
        have hnone' : [shape][id - shapes.length]? = none := List.getElem?_eq_none (by simp; omega)
        rw [hnone, hnone']

/-- Any number of sets may be added. -/
theorem Fresh.addSets (h : a.Fresh pages capacity shapes) (more : List (String × Kind × Nat)) :
    (more.foldl (fun a s => a.addSet s.1 s.2.1 s.2.2) a).Fresh pages capacity (shapes ++ more) := by
  induction more generalizing a shapes with
  | nil => simpa using h
  | cons shape more ih =>
    have hnext := ih (h.addSet shape)
    rwa [List.append_assoc] at hnext

/-- What a fresh archive holds. -/
def freshContents (shapes : List (String × Kind × Nat)) : Contents where
  lists id _ := .empty ((shapes[id]?.map (·.2.1)).getD .plain)
  stamps := []

/-- Sets without lists use no pages. -/
theorem Fresh.pagesInUse_eq (h : a.Fresh pages capacity shapes) :
    a.shelf.pagesInUse (freshContents shapes).lists = [] := by
  refine List.flatMap_eq_nil_iff.mpr fun id _ => ?_
  have hset : a.shelf.sets[id]? = _ := h.set?_eq id
  rw [Shelf.pagesAt, hset]
  cases shapes[id]? with
  | none => rfl
  | some shape => simp [IndexSet.pages, IndexSet.create, IndexSet.slotPageList]

/-- A set without lists lies on any disk. -/
theorem liesOn_create (id : SetId) (shape : String × Kind × Nat) (d : Disk) :
    (IndexSet.create id shape.1 shape.2.1 shape.2.2).LiesOn d fun _ => .empty shape.2.1 where
  slots number page h := by simp [IndexSet.create] at h
  holds value := by
    refine ⟨rfl, Store.liesOn_empty d _, fun _ => rfl, fun store uses h => ?_, fun h => ?_⟩
    · simp [IndexSet.create] at h
    · simp [IndexSet.create] at h

/-- A fresh archive over a new file is sound. -/
theorem Fresh.sound (h : a.Fresh pages capacity shapes) (hf : pages.Sound)
    (hcount : pages.disk.pageCount = 1) (hfree : pages.disk.free = []) :
    a.Sound (freshContents shapes) where
  shelf := by
    refine ⟨h.pages_eq ▸ hf, fun id set hset => ?_, ?_⟩
    · rw [show a.shelf.sets[id]? = _ from h.set?_eq id] at hset
      obtain ⟨shape, hshape, rfl⟩ := Option.map_eq_some_iff.mp hset
      have hheld : (freshContents shapes).lists id = fun _ => .empty shape.2.1 := by
        simp [freshContents, hshape]
      rw [hheld]
      exact liesOn_create id shape _
    · -- nobody uses a page, and none but the header has been handed out
      rw [h.pagesInUse_eq, h.stamps_eq, h.pages_eq]
      exact Disk.owned_nil hcount hfree
  stamps := by
    rw [h.stamps_eq]
    exact Store.liesOn_empty _ _
  stampKind := by rw [h.stamps_eq]; rfl
  live o ho := by
    obtain ⟨set, hmem, rfl⟩ := List.mem_map.mp ho
    obtain ⟨id, hset⟩ := List.mem_iff_getElem?.mp hmem
    rw [Array.getElem?_toList, show a.shelf.sets[id]? = _ from h.set?_eq id] at hset
    obtain ⟨shape, -, rfl⟩ := Option.map_eq_some_iff.mp hset
    rfl
  owns id hid := h.owns id (h.size_eq ▸ hid)
  isOpen := h.isOpen

/-- In a fresh archive nothing is in memory. -/
theorem Fresh.tidy (h : a.Fresh pages capacity shapes) : a.Tidy [] where
  capacity_pos := by
    rw [h.capacity_eq]
    exact Nat.lt_of_lt_of_le Nat.one_pos (Nat.le_max_right _ _)
  nodup := by simp [h.tracked_eq]
  bounded := by simp [h.tracked_eq]
  resident_iff k := by
    rw [h.tracked_eq, isResident, Shelf.isResident, show a.shelf.sets[k.set]? = _ from
      h.set?_eq k.set]
    cases shapes[k.set]? with
    | none => simp
    | some shape => simp [IndexSet.isResident, IndexSet.create]

end Archive

/-- The ledger of a fresh index holds nothing. -/
theorem Archive.Fresh.ledger_eq {a : Archive} {pages : PageFile} (u : Setup)
    (h : a.Fresh pages u.capacity u.shapes) :
    Recorder.ledger ⟨Intake.create a u.workers, Timeline.create u.stampTaskSize⟩
      (freshContents u.shapes) = u.ledger := by
  have hbook : a.book (freshContents u.shapes) =
      { kind? := fun id => u.shapes[id]?.map (·.2.1), lists := fun _ _ => [], stamps := [] } := by
    have hkind : (fun id => (a.set? id).map (·.kind)) = fun id => u.shapes[id]?.map (·.2.1) := by
      funext id
      rw [h.set?_eq id, Option.map_map]
      rfl
    rw [book, hkind, h.stamps_eq]
    rfl
  have hpending : (fun id => ((a.set? id).map (·.pending)).getD (.empty 1)) =
      fun id => Batch.empty ((u.shapes[id]?.map (·.2.2)).getD 1) := by
    funext id
    rw [h.set?_eq id]
    cases u.shapes[id]? <;> rfl
  show Ledger.mk ⟨.start u.workers, a.book (freshContents u.shapes)⟩
    (fun id => ((a.set? id).map (·.pending)).getD (.empty 1)) (.create u.stampTaskSize) = u.ledger
  rw [hbook, hpending]
  rfl

theorem Setup.fresh_archive (u : Setup) (pages : PageFile) :
    (u.archive pages).Fresh pages u.capacity u.shapes := Archive.fresh_create.addSets u.shapes

/-- An index begins with a fresh archive on a new page file. -/
theorem Setup.start_eq_ok {u : Setup} {r : Recorder} (h : u.start = .ok r) :
    ∃ pages, PageFile.create u.pageSize u.cachePages = .ok pages ∧
      r = ⟨Intake.create (u.archive pages) u.workers, Timeline.create u.stampTaskSize⟩ := by
  unfold start at h
  cases hpages : PageFile.create u.pageSize u.cachePages with
  | error e =>
    rw [hpages] at h
    cases h
  | ok pages =>
    rw [hpages] at h
    cases h
    exact ⟨pages, rfl, rfl⟩

/-- Where every run begins. -/
theorem Setup.start_spec {u : Setup} {r : Recorder} (h : u.start = .ok r) :
    r.Sound u.shapes.length (Archive.freshContents u.shapes) [] ∧
      r.ledger (Archive.freshContents u.shapes) = u.ledger ∧
      r.archive.residency.capacity = max u.capacity 1 := by
  obtain ⟨pages, hpages, rfl⟩ := start_eq_ok h
  obtain ⟨hf, hcount, hfree⟩ := PageFile.create_spec hpages
  have hfresh := u.fresh_archive pages
  refine ⟨⟨hfresh.sound hf hcount hfree, hfresh.tidy, hfresh.size_eq, ?_, ?_, ?_, rfl, ?_⟩, ?_,
    hfresh.capacity_eq⟩
  · -- nothing is pending, nothing waits, and no event has been registered
    intro id set hset e he
    have hset' : (u.archive pages).set? id = some set := hset
    rw [hfresh.set?_eq id] at hset'
    obtain ⟨shape, -, rfl⟩ := Option.map_eq_some_iff.mp hset'
    simp [IndexSet.create, Batch.empty] at he
  · intro queue hqueue t ht
    simp only [Intake.create, Pool.start] at hqueue
    rw [List.eq_of_mem_replicate hqueue] at ht
    cases ht
  · simp [Intake.create, Pool.start, Pool.isOpen]
  · intro t ht
    simp [Timeline.create] at ht
  · exact hfresh.ledger_eq u

/-- A list that was written out by the last call is not in memory. -/
theorem Setup.isResident_discarded {u : Setup} {r : Recorder} (h : u.start = .ok r)
    {calls : List (Call u.shapes.length)} {set : Fin u.shapes.length} {value : ValueId}
    (hroom : (r.run (calls ++ [.discard set value])).pageCount ≤ maxPages) :
    (r.run (calls ++ [.discard set value])).archive.isResident ⟨set, value⟩ = false := by
  obtain ⟨hs, -, -⟩ := start_spec h
  rw [Recorder.run_append] at hroom ⊢
  obtain ⟨c, hstep, -⟩ := Recorder.run_spec hs calls
    (Nat.le_trans (Recorder.pageCount_le_next _ _) hroom)
  exact Recorder.isResident_discard hstep.sound set value hroom

/-- A small index: batches of two go to two sets, and one list stays in memory. -/
def Setup.small : Setup where
  pageSize := 256
  cachePages := 1
  capacity := 1
  useThreshold := 1
  workers := 1
  stampTaskSize := 2
  shapes := [("plain", .plain, 2), ("tagged", .role, 2)]

/-- The first set of the small index. -/
def Setup.plainSet : Fin small.shapes.length := ⟨0, by decide⟩

/-- The second set of the small index. -/
def Setup.taggedSet : Fin small.shapes.length := ⟨1, by decide⟩

/-- Twenty-eight events for one value, two to a batch. A page has room for twenty-seven of them, so that
one page is sealed. -/
def Setup.fill : List (Call small.shapes.length) :=
  (List.range 14).flatMap fun i =>
    [.push plainSet 1 (.ofNat (2 * i)) none, .push plainSet 1 (.ofNat (2 * i + 1)) none, .work 0]

/-- A list of the other set comes to memory, and the one that is there has to leave. -/
def Setup.crowd : List (Call small.shapes.length) :=
  [.push taggedSet 2 5 none, .push taggedSet 2 6 none, .work 0]

end EventIndex
