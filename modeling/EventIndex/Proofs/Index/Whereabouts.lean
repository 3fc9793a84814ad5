import EventIndex.Proofs.Index.Readings
import EventIndex.Proofs.Index.Tallies

/-! # Whereabouts — two views of the lists in memory

The bookkeeping tracks the lists in memory, and each set knows by itself which of its lists are there.
The two change at different times: a list is tracked only when the batch that brought it in is through,
and one that has to make room for it stops being tracked before its set writes it out. Between two calls
they agree as `Recorder.Accounted` says, and the counts of the sets with them.

A list that is written out is found again from its slot alone. Slots share pages, so the slot has to
stand whatever is written to the slots beside it (`IndexSet.Stands`).

Main results:

* `IndexSet.Sound.stands`, `IndexSet.Stands.writeSlots`: a slot stands, whatever is written to others.
* `Archive.discard_present`, `Archive.discard_absent`: writing a list out at once.
* `Recorder.Sound.accounted`: what an index at work knows of its lists fits together.
-/

namespace EventIndex

/-! ## Slots of lists that are written out -/

namespace IndexSet

variable {s s' : Over IndexSet} {held : ValueId → Holding} {rest : List Nat} {value w : ValueId}
  {x y : Descriptor} {h : Holding} {ts : List Tuple}

/-- The slot of a value holds a descriptor that passes its check and says of a list how long it is, what
its last key is, and where to find it. -/
structure Describes (s : Over IndexSet) (value : ValueId) (x : Descriptor) (ts : List Tuple) : Prop where
  found : ∃ f, readSlot value s = .ok x ⟨s.item, f⟩
  length_eq : x.length.toNat = ts.length
  lastKey_eq : x.lastKey = ts.getLast?.map Tuple.key
  loaded : ∃ store f, Store.load s.item.kind x s.pages = .ok store f ∧
    Act.outcome store.snapshot.toList f = .ok ts

/-- Writes descriptors to slots, one after another. -/
def writeSlots : List (ValueId × Descriptor) → Act (Over IndexSet) Unit
  | [] => return ()
  | (w, y) :: writes => do
    writeSlot w y
    writeSlots writes

/-- What the slot of one value needs to be found and read, whatever the slots of the others hold. -/
structure Stands (s : Over IndexSet) (value : ValueId) (x : Descriptor) (h : Holding) (rest : List Nat) :
    Prop where
  file : s.pages.Sound
  owned : s.pages.disk.Owned (s.item.slotPageList ++ (h.pages ++ rest))
  slots : s.item.SlotsLieOn s.pages.disk
  slot : s.item.HasSlot s.pages.disk value x
  kind : h.store.kind = s.item.kind
  lies : h.store.LiesOn s.pages.disk h.chunks
  saved : h.store.SavedAs s.pages.disk x h.scratch

/-- The slot of a list that is written out stands. -/
theorem Sound.stands (hs : Sound s held rest) (hget : s.item.entries[value]? = some .discarded) :
    ∃ x, Stands s value x (held value) (s.item.pagesOfOthers held value ++ rest) := by
  have hat := hs.lies.holds value
  obtain ⟨x, hslot, hsaved⟩ := hat.discarded hget
  refine ⟨x, hs.file, (hs.owned_value value).perm ?_, hs.lies.slots, hslot, hat.kind, hat.lies, hsaved⟩
  rw [List.append_assoc]
  exact List.perm_append_comm_assoc _ _ _

/-- A slot stands when another one is written. -/
theorem Stands.writeSlot (hs : Stands s value x h rest) (hw : w ≠ value) (y : Descriptor) :
    ∃ s', IndexSet.writeSlot w y s = .ok () s' ∧ Stands s' value x h rest := by
  obtain ⟨m, f, hrun, hf, hx, hslots, -, hothers⟩ := writeSlot_spec w y hs.file hs.owned hs.slots
  have hkeep : s.pages.disk.Keeps f.disk (h.pages ++ rest) := hx.kept _ hs.owned
  refine ⟨⟨s.item.withSlotPages m, f⟩, hrun, hf, hx.owned _ hs.owned, hslots,
    hothers value x (Ne.symm hw) hs.slot, hs.kind, hs.lies.keep hx.capacity_eq (hkeep.mono ?_),
    hs.saved.keep (hkeep.mono ?_)⟩
  · exact fun p hp => List.mem_append_left _ (List.mem_append_left _ hp)
  · exact fun p hp => List.mem_append_left _ (List.mem_append_right _ hp)

theorem Stands.writeSlots {writes : List (ValueId × Descriptor)} (hs : Stands s value x h rest)
    (hwrites : ∀ e ∈ writes, e.1 ≠ value) :
    ∃ s', IndexSet.writeSlots writes s = .ok () s' ∧ Stands s' value x h rest := by
  induction writes generalizing s with
  | nil => exact ⟨s, rfl, hs⟩
  | cons e writes ih =>
    obtain ⟨w, y⟩ := e
    obtain ⟨s₁, hrun₁, hs₁⟩ := hs.writeSlot (hwrites (w, y) List.mem_cons_self) y
    obtain ⟨s₂, hrun₂, hs₂⟩ := ih hs₁ fun e he => hwrites e (List.mem_cons_of_mem _ he)
    exact ⟨s₂, (Act.bind_ok hrun₁).trans hrun₂, hs₂⟩

/-- A slot that stands describes the list. -/
theorem Stands.describes (hs : Stands s value x h rest) : Describes s value x h.tuples := by
  have hscratch : h.scratch.Nodup := by
    have hnodup := hs.owned.nodup.sublist (List.sublist_append_right _ _)
    have hpages : (h.store.sealedPages ++ h.scratch).Nodup :=
      hnodup.sublist (List.sublist_append_left _ _)
    exact (List.nodup_append.mp hpages).2.1
  obtain ⟨f, hread, -, -⟩ := readSlot_spec hs.file hs.slots hs.slot
  obtain ⟨f', released, hload, hf', -, hdisk⟩ := Store.load_exact hs.file hscratch hs.lies hs.saved
  rw [hs.kind] at hload
  have hlies : h.store.LiesOn f'.disk h.chunks := by
    refine hs.lies.keep ?_ fun p _ payload hp => ?_
    · rw [hdisk]
    · rwa [hdisk]
  obtain ⟨f'', htuples, -, -⟩ := Snapshot.reads_toList hlies.view.onAll f' hf' rfl
  exact
    { found := ⟨f, hread⟩
      length_eq := hs.saved.length.trans hs.lies.length_eq
      lastKey_eq := hs.saved.lastKey.trans hs.lies.lastKey
      loaded := ⟨h.store, f', hload, Act.outcome_ok htuples⟩ }

end IndexSet

/-! ## Writing out at once -/

namespace Archive

variable {a : Archive} {c : Contents} {id : SetId} {set : IndexSet} {value : ValueId}

/-- A set that is put back as it was changes nothing. -/
theorem withSet_same (hset : a.set? id = some set) :
    { a with shelf := a.shelf.withSet id set a.shelf.pages } = a := by
  have hsets : a.shelf.sets.setIfInBounds id set = a.shelf.sets := by
    refine Array.ext_getElem? fun i => ?_
    by_cases hi : id = i
    · subst hi
      rw [Array.getElem?_setIfInBounds_self_of_lt (Shelf.lt_size hset)]
      exact hset.symm
    · rw [Array.getElem?_setIfInBounds_ne hi]
  rw [Shelf.withSet, hsets]

/-- A list in memory is written out and tracked no more. -/
theorem discard_present (hs : a.Sound c) (hset : a.set? id = some set)
    (hres : set.isResident value = true) :
    ∃ a' set', discard id value a = .ok () a' ∧ a'.set? id = some set' ∧
      set'.entries[value]? = some .discarded ∧ a'.residency.tracks ⟨id, value⟩ = false := by
  obtain ⟨store, uses, hget⟩ := IndexSet.isResident_iff.mp hres
  obtain ⟨x, scratch, m, f, hrun, -⟩ := IndexSet.discard_present (hs.shelf.atSet hset) hget
  refine ⟨⟨a.residency.forget ⟨id, value⟩, a.shelf.withSet id (set.withoutList value m) f, a.stamps⟩,
    set.withoutList value m, ?_, Shelf.withSet_self hset _ f, Std.HashMap.getElem?_insert_self,
    Residency.tracks_forget _ _⟩
  unfold discard
  rw [Act.bind_ok (hs.checkLive_ok id), Act.bind_ok (onSet?_ok hset hrun)]
  rfl

/-- A list that is not in memory is refused, and nothing changes. -/
theorem discard_absent (hs : a.Sound c) (hset : a.set? id = some set)
    (hres : set.isResident value = false) :
    discard id value a = .error (.notResident set.name value) a := by
  have hrun := onSet?_ok hset (IndexSet.discard_absent (s := ⟨set, a.shelf.pages⟩) hres)
  rw [withSet_same hset] at hrun
  have hget : (get : Act Archive Archive) a = .ok a a := rfl
  unfold discard
  rw [Act.bind_ok (hs.checkLive_ok id), Act.bind_ok hrun]
  dsimp only
  rw [Act.bind_ok hget, hset]
  rfl

end Archive

/-! ## The accounts -/

namespace Recorder

/-- What the bookkeeping and the sets of an index know of its lists fits together, when `l` is what the
index would be without pages. -/
structure Accounted (r : Recorder) (l : Ledger) : Prop where
  /-- A list that is tracked is in memory. -/
  tracked : ∀ key, r.archive.residency.tracks key = true → r.archive.isResident key = true
  /-- What was created or taken back was written out or is in memory, and what is known was created. -/
  counted : ∀ id set, r.archive.set? id = some set →
    set.created + set.reloaded = set.discarded + set.residentCount ∧ set.created = set.valueCount
  /-- A list that is written out is described by its slot, whatever is written to other slots. -/
  described : ∀ id set value, r.archive.set? id = some set → set.entries[value]? = some .discarded →
    ∃ x, ∀ writes : List (ValueId × Descriptor), (∀ e ∈ writes, e.1 ≠ value) →
      ∃ s, IndexSet.writeSlots writes ⟨set, r.archive.shelf.pages⟩ = .ok () s ∧
        IndexSet.Describes s value x (l.book.lists id value)
  /-- A list in memory can be written out, and is not tracked any more. -/
  present : ∀ id set value, r.archive.set? id = some set → set.isResident value = true →
    ∃ r' set', onArchive (Archive.discard id value) r = .ok () r' ∧ r'.archive.set? id = some set' ∧
      set'.entries[value]? = some .discarded ∧ r'.archive.residency.tracks ⟨id, value⟩ = false
  /-- Any other list is refused, and nothing changes. -/
  absent : ∀ id set value, r.archive.set? id = some set → set.isResident value = false →
    onArchive (Archive.discard id value) r = .error (.notResident set.name value) r

/-- The accounts of an index at work are in order. -/
theorem Sound.accounted {n : Nat} {r : Recorder} {c : Contents} {extra : List OwnerKey}
    (hs : r.Sound n c extra)
    (hbalanced : ∀ id set, r.archive.set? id = some set → set.tally.Balanced) :
    r.Accounted (r.ledger c) where
  tracked key htracks := (hs.tidy.resident_iff key).mpr (.inl (Residency.tracks_iff.mp htracks))
  counted id set hset := ⟨(hbalanced id set hset).in_out, (hbalanced id set hset).created_eq⟩
  described id set value hset hget := by
    obtain ⟨x, hstands⟩ := (hs.archive.shelf.atSet hset).stands hget
    refine ⟨x, fun writes hwrites => ?_⟩
    obtain ⟨s, hrun, hs'⟩ := hstands.writeSlots hwrites
    exact ⟨s, hrun, hs'.describes⟩
  present id set value hset hres := by
    obtain ⟨a', set', hrun, hset', hget, htracks⟩ := Archive.discard_present hs.archive hset hres
    refine ⟨r.withArchive a', set', ?_, hset', hget, htracks⟩
    rw [onArchive_eq, hrun]
  absent id set value hset hres := by
    rw [onArchive_eq, Archive.discard_absent hs.archive hset hres]
    rfl

end Recorder

namespace Setup

variable {u : Setup} {r : Recorder}

/-- The accounts of an index are in order after any calls, whatever came of them.

The statement is about the states between two calls. In such a state a list may be in memory without
being tracked, if a batch failed after it had come in; the other way round is excluded. -/
theorem residency_accounted (h : u.start = .ok r) (calls : List (Call u.shapes.length))
    (hroom : (r.run calls).pageCount ≤ maxPages) :
    (r.run calls).Accounted (u.ledger.run calls) := by
  obtain ⟨hs, hledger, -⟩ := start_spec h
  obtain ⟨c, hstep, hledger'⟩ := Recorder.run_spec hs calls hroom
  rw [hledger] at hledger'
  rw [← hledger']
  exact hstep.sound.accounted fun _ _ hset => tally_balanced h calls hset

set_option maxRecDepth 4000 in
/-- A batch is applied to one set, and another set is refused a batch. The first set has created one list,
which is in memory and can be written out. It has no other. -/
theorem residency_accounted_small :
    ∃ r, small.start = .ok r ∧ ∃ calls : List (Call 2),
      calls = [.push 0 1 5 none, .push 0 1 6 none, .work 0, .push 1 2 6 none, .push 1 2 5 none, .work 0] ∧
      (r.run calls).Accounted (small.ledger.run calls) ∧
      (∃ set, (r.run calls).archive.set? 0 = some set ∧ set.created = 1 ∧ set.residentCount = 1) ∧
      (∃ r', Recorder.onArchive (Archive.discard 0 1) (r.run calls) = .ok () r' ∧
        r'.archive.residency.tracks ⟨0, 1⟩ = false) ∧
      Recorder.onArchive (Archive.discard 0 2) (r.run calls) =
        .error (.notResident "plain" 2) (r.run calls) := by
  obtain ⟨r, hr⟩ : ∃ r, small.start = .ok r := ⟨_, rfl⟩
  let calls : List (Call 2) :=
    [.push 0 1 5 none, .push 0 1 6 none, .work 0, .push 1 2 6 none, .push 1 2 5 none, .work 0]
  have hroom : (r.run calls).pageCount ≤ maxPages := by
    cases hr
    cbv
  have haccounted := residency_accounted hr calls hroom
  -- what the set counts and where its lists are is computed; that the rest fits is the theorem
  have hset : ((r.run calls).archive.set? 0).map (fun set => (set.name, set.created,
      set.discarded, set.reloaded, set.isResident 1, set.isResident 2)) =
        some ("plain", 1, 0, 0, true, false) := by
    cases hr
    cbv
  obtain ⟨set, hget, hfacts⟩ := Option.map_eq_some_iff.mp hset
  simp only [Prod.mk.injEq] at hfacts
  obtain ⟨hname, hcreated, hdiscarded, hreloaded, hpresent, habsent⟩ := hfacts
  refine ⟨r, hr, calls, rfl, haccounted, ⟨set, hget, hcreated, ?_⟩, ?_, ?_⟩
  · have hcounted := (haccounted.counted 0 set hget).1
    omega
  · obtain ⟨r', -, hrun, -, -, htracks⟩ := haccounted.present 0 set 1 hget hpresent
    exact ⟨r', hrun, htracks⟩
  · rw [← hname]
    exact haccounted.absent 0 set 2 hget habsent

end Setup

end EventIndex
