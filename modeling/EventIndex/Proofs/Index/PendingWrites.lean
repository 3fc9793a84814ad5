import EventIndex.Proofs.Index.ArchiveCalls

/-! # Pending writes

The writes to a set that were not yet submitted are kept with the set, and are nothing to its lists:
an archive stays sound and tidy whatever they are.
-/

namespace EventIndex

namespace Archive

variable {a : Archive} {c : Contents} {id : SetId} {batch : Batch} {extra : List OwnerKey}

/-- The archive with other pending writes of a set. -/
def withPending (a : Archive) (id : SetId) (batch : Batch) : Archive :=
  match a.set? id with
  | none => a
  | some set =>
    { a with
      shelf := { a.shelf with
        sets := a.shelf.sets.setIfInBounds id { set with pending := batch } } }

/-- Pending writes are on no page. -/
theorem pages_withPending : (a.withPending id batch).shelf.pages = a.shelf.pages := by
  unfold withPending
  split <;> rfl

theorem stamps_withPending : (a.withPending id batch).stamps = a.stamps := by
  unfold withPending
  split <;> rfl

theorem residency_withPending : (a.withPending id batch).residency = a.residency := by
  unfold withPending
  split <;> rfl

/-- The set has the other pending writes, and is else as it was. -/
theorem set?_withPending_self {set : IndexSet} (hset : a.set? id = some set) :
    (a.withPending id batch).set? id = some { set with pending := batch } := by
  unfold withPending
  rw [hset]
  exact Array.getElem?_setIfInBounds_self_of_lt (Shelf.lt_size hset)

/-- The other sets are as they were. -/
theorem set?_withPending_of_ne {other : SetId} (h : other ≠ id) :
    (a.withPending id batch).set? other = a.set? other := by
  unfold withPending
  split
  · rfl
  · simp [set?, Ne.symm h]

theorem size_withPending : (a.withPending id batch).shelf.sets.size = a.shelf.sets.size := by
  unfold withPending
  split
  · rfl
  · simp

/-- A set is the same but for its pending writes. -/
theorem exists_set?_of_withPending {other : SetId} {set' : IndexSet}
    (h : (a.withPending id batch).set? other = some set') :
    ∃ set b, a.set? other = some set ∧ set' = { set with pending := b } := by
  by_cases hother : other = id
  · subst hother
    cases hset : a.set? other with
    | none =>
      rw [withPending, hset] at h
      rw [hset] at h
      cases h
    | some set =>
      rw [set?_withPending_self hset, Option.some.injEq] at h
      exact ⟨set, batch, rfl, h.symm⟩
  · rw [set?_withPending_of_ne hother] at h
    exact ⟨set', set'.pending, h, rfl⟩

/-- No set changes its kind. -/
theorem kind?_withPending (other : SetId) :
    ((a.withPending id batch).set? other).map (·.kind) = (a.set? other).map (·.kind) := by
  by_cases hother : other = id
  · subst hother
    cases hset : a.set? other with
    | none => rw [withPending, hset]; rw [hset]
    | some set => rw [set?_withPending_self hset]; rfl
  · rw [set?_withPending_of_ne hother]

/-- The pages in use are those of the lists. -/
theorem pagesInUse_withPending (held : SetId → ValueId → Holding) :
    (a.withPending id batch).shelf.pagesInUse held = a.shelf.pagesInUse held := by
  rw [Shelf.pagesInUse, Shelf.pagesInUse, size_withPending]
  refine List.flatMap_congr fun other _ => ?_
  simp only [Shelf.pagesAt]
  by_cases hother : other = id
  · subst hother
    cases hset : a.set? other with
    | none => rw [withPending, hset]
    | some set =>
      rw [show (a.withPending other batch).shelf.sets[other]? = _ from
        set?_withPending_self hset, show a.shelf.sets[other]? = _ from hset]
      rfl
  · rw [show (a.withPending id batch).shelf.sets[other]? = _ from set?_withPending_of_ne hother]
    rfl

/-- The book has only what was applied. -/
theorem book_withPending : (a.withPending id batch).book c = a.book c := by
  simp only [book, kind?_withPending, stamps_withPending]

/-- What waits to be applied is nothing to the lists. -/
theorem Sound.withPending (hs : a.Sound c) (id : SetId) (batch : Batch) :
    (a.withPending id batch).Sound c := by
  have hpages : (a.withPending id batch).shelf.pages = a.shelf.pages := pages_withPending
  refine ⟨⟨hpages ▸ hs.shelf.file, fun other set' hset' => ?_, ?_⟩, ?_, ?_, fun o ho => ?_, ?_, ?_⟩
  · obtain ⟨set, b, hset, rfl⟩ := exists_set?_of_withPending hset'
    have hlies := hs.shelf.lies other set hset
    rw [hpages]
    exact ⟨hlies.slots, fun v => ⟨(hlies.holds v).kind, (hlies.holds v).lies,
      (hlies.holds v).unknown, (hlies.holds v).resident, (hlies.holds v).discarded⟩⟩
  · rw [hpages, stamps_withPending, pagesInUse_withPending]
    exact hs.shelf.owned
  · rw [hpages, stamps_withPending]
    exact hs.stamps
  · rw [stamps_withPending]
    exact hs.stampKind
  · obtain ⟨set', hmem, rfl⟩ := List.mem_map.mp ho
    obtain ⟨other, hset'⟩ := List.mem_iff_getElem?.mp hmem
    rw [Array.getElem?_toList] at hset'
    obtain ⟨set, b, hset, rfl⟩ := exists_set?_of_withPending hset'
    exact hs.isDisposed_eq hset
  · intro other hother
    rw [size_withPending] at hother
    rw [residency_withPending]
    exact hs.owns other hother
  · rw [residency_withPending]
    exact hs.isOpen

/-- Pending writes bring no list into memory. -/
theorem Tidy.withPending (ht : a.Tidy extra) (id : SetId) (batch : Batch) :
    (a.withPending id batch).Tidy extra := by
  refine ⟨?_, ?_, ?_, fun k => ?_⟩
  · rw [residency_withPending]
    exact ht.capacity_pos
  · rw [residency_withPending]
    exact ht.nodup
  · rw [residency_withPending]
    exact ht.bounded
  · rw [residency_withPending, ← ht.resident_iff k, isResident, isResident, Shelf.isResident, Shelf.isResident]
    -- the set has another batch, but the same lists in memory
    by_cases hset' : k.set = id
    · rw [hset']
      cases hset : a.set? id with
      | none => rw [Archive.withPending, hset]
      | some set =>
        rw [show (a.withPending id batch).shelf.sets[id]? = _ from set?_withPending_self hset,
          show a.shelf.sets[id]? = _ from hset]
        rfl
    · rw [show (a.withPending id batch).shelf.sets[k.set]? = _ from set?_withPending_of_ne hset']
      rfl

end Archive

end EventIndex
