import EventIndex.Proofs.Index.SetSteps
import EventIndex.Proofs.Index.Tracking
import EventIndex.Proofs.Index.Trend

/-! # Operations on several sets

All sets of a shelf share one page file. The pages of one set are bystanders of what is done to
another, so a step of one set is a step of the shelf (`Step.of_set`), and having lists written out
for the bookkeeping is a sequence of such steps (`evictEach_spec`).

Main results:

* `Shelf.Step.of_set`: a step of one set is a step of the shelf, since the pages of the others are
  bystanders.
* `Shelf.discard_spec`: a list that is written out is in memory no more, and all lists have the tuples
  they had.
* `Residency.evictEach_spec`: so it is for any number of lists that have to make room.
-/

namespace EventIndex

namespace Shelf

variable {s s' s'' : Shelf} {held held' held'' : SetId → ValueId → Holding} {rest : List Nat}
  {id : SetId} {set : IndexSet} {key : OwnerKey} {α : Type}

/-! ## Pages -/

/-- The pages of the set with a number. -/
def pagesAt (s : Shelf) (held : SetId → ValueId → Holding) (id : SetId) : List Nat :=
  match s.sets[id]? with
  | none => []
  | some set => set.pages (held id)

/-- The pages that the sets of a shelf use. -/
def pagesInUse (s : Shelf) (held : SetId → ValueId → Holding) : List Nat :=
  (List.range s.sets.size).flatMap (s.pagesAt held)

/-- The pages of all sets but one. -/
def pagesOfOthers (s : Shelf) (held : SetId → ValueId → Holding) (id : SetId) : List Nat :=
  ((List.range s.sets.size).erase id).flatMap (s.pagesAt held)

theorem lt_size (hset : s.sets[id]? = some set) : id < s.sets.size :=
  (Array.getElem?_eq_some_iff.mp hset).1

/-- The pages in use are those of one set and those of all others. -/
theorem pagesInUse_perm (held : SetId → ValueId → Holding) (hset : s.sets[id]? = some set) :
    (s.pagesInUse held).Perm (set.pages (held id) ++ s.pagesOfOthers held id) := by
  have hperm := (List.perm_cons_erase (List.mem_range.mpr (lt_size hset))).flatMap_right
    (s.pagesAt held)
  have hat : s.pagesAt held id = set.pages (held id) := by simp only [pagesAt, hset]
  rw [List.flatMap_cons, hat] at hperm
  exact hperm

/-- The shelf with another set in the place of one. -/
def withSet (s : Shelf) (id : SetId) (set : IndexSet) (pages : PageFile) : Shelf :=
  ⟨pages, s.sets.setIfInBounds id set⟩

theorem withSet_self (hset : s.sets[id]? = some set) (set' : IndexSet) (pages : PageFile) :
    (s.withSet id set' pages).sets[id]? = some set' := by
  simp [withSet, lt_size hset]

theorem withSet_of_ne {other : SetId} (h : other ≠ id) (set' : IndexSet) (pages : PageFile) :
    (s.withSet id set' pages).sets[other]? = s.sets[other]? := by
  simp [withSet, Ne.symm h]

/-- Another state of one set leaves the pages of the others as they are. -/
theorem pagesOfOthers_withSet (set' : IndexSet) (pages : PageFile) (h : ValueId → Holding) :
    (s.withSet id set' pages).pagesOfOthers (Function.update held id h) id =
      s.pagesOfOthers held id := by
  have hsize : (s.withSet id set' pages).sets.size = s.sets.size := by simp [withSet]
  rw [pagesOfOthers, pagesOfOthers, hsize]
  refine List.flatMap_congr fun other hother => ?_
  have hne : other ≠ id := ((List.nodup_range).mem_erase_iff.mp hother).1
  rw [pagesAt, pagesAt, withSet_of_ne hne, Function.update_of_ne hne]

/-! ## Steps -/

/-- All sets of a shelf lie on the disk of their page file, beside the pages of others. -/
structure Sound (s : Shelf) (held : SetId → ValueId → Holding) (rest : List Nat) : Prop where
  file : s.pages.Sound
  lies : ∀ (id : SetId) (set : IndexSet), s.sets[id]? = some set → set.LiesOn s.pages.disk (held id)
  owned : s.pages.disk.Owned (s.pagesInUse held ++ rest)

/-- What no operation on the lists of a shelf changes. -/
def outline (s : Shelf) : List IndexSet.Outline := s.sets.toList.map IndexSet.outline

/-- From one state of a shelf to the next. -/
structure Step (s s' : Shelf) (held held' : SetId → ValueId → Holding) : Prop where
  file : s'.pages.Sound
  lies : ∀ (id : SetId) (set : IndexSet), s'.sets[id]? = some set → set.LiesOn s'.pages.disk (held' id)
  exchange : s.pages.disk.Exchange s'.pages.disk (s.pagesInUse held) (s'.pagesInUse held')
  extends_ : ∀ id v, (held id v).Extends (held' id v)
  outline_eq : s'.outline = s.outline

/-- Two steps are one. -/
theorem Step.trans (h : Step s s' held held') (h' : Step s' s'' held' held'') :
    Step s s'' held held'' where
  file := h'.file
  lies := h'.lies
  exchange := h.exchange.trans h'.exchange
  extends_ id v := (h.extends_ id v).trans (h'.extends_ id v)
  outline_eq := h'.outline_eq.trans h.outline_eq

/-- A step leads from a sound shelf to a sound one. -/
theorem Step.sound (h : Step s s' held held') (hs : Sound s held rest) : Sound s' held' rest :=
  ⟨h.file, h.lies, h.exchange.owned rest hs.owned⟩

theorem Sound.step_refl (hs : Sound s held rest) : Step s s held held :=
  ⟨hs.file, hs.lies, .refl _ _, fun id v => .refl (held id v), rfl⟩

/-- No set comes or goes. -/
theorem Step.size_eq (h : Step s s' held held') : s'.sets.size = s.sets.size := by
  have hlen := congrArg List.length h.outline_eq
  simpa [outline] using hlen

/-- One set of a shelf, with the pages of the other sets among the bystanders. -/
theorem Sound.atSet (hs : Sound s held rest) (hset : s.sets[id]? = some set) :
    IndexSet.Sound ⟨set, s.pages⟩ (held id) (s.pagesOfOthers held id ++ rest) where
  file := hs.file
  lies := hs.lies id set hset
  owned := by
    rw [← List.append_assoc]
    exact hs.owned.perm ((pagesInUse_perm held hset).append_right rest)

/-- A step of one set is a step of the shelf. -/
theorem Step.of_set {t : Over IndexSet} {h : ValueId → Holding} (hs : Sound s held rest)
    (hset : s.sets[id]? = some set) (hstep : IndexSet.Step ⟨set, s.pages⟩ t (held id) h) :
    Step s (s.withSet id t.item t.pages) held (Function.update held id h) := by
  have hself := withSet_self hset t.item t.pages
  have hperm := pagesInUse_perm held hset
  have hperm' := pagesInUse_perm (Function.update held id h) hself
  rw [Function.update_self, pagesOfOthers_withSet] at hperm'
  have hkeep := hstep.exchange.kept _ (hs.atSet hset).owned
  refine ⟨hstep.file, fun other set' hother => ?_, ?_, fun other v => ?_, ?_⟩
  · by_cases hne : other = id
    · subst hne
      rw [hself, Option.some.injEq] at hother
      rw [← hother, Function.update_self]
      exact hstep.lies
    · rw [withSet_of_ne hne] at hother
      rw [Function.update_of_ne hne]
      -- the pages of another set are a frame
      refine (hs.lies other set' hother).keep hstep.exchange.capacity_eq (hkeep.mono fun p hp => ?_)
      refine List.mem_append_left _ (List.mem_flatMap.mpr ⟨other, ?_, ?_⟩)
      · exact (List.nodup_range).mem_erase_iff.mpr ⟨hne, List.mem_range.mpr (lt_size hother)⟩
      · simp only [pagesAt, hother]
        exact hp
  · exact (hstep.exchange.frame _).perm hperm.symm hperm'.symm
  · by_cases hne : other = id
    · subst hne
      rw [Function.update_self]
      exact hstep.extends_ v
    · rw [Function.update_of_ne hne]
      exact .refl _
  · refine List.ext_getElem? fun i => ?_
    simp only [outline, withSet, List.getElem?_map, Array.getElem?_toList]
    by_cases hi : i = id
    · subst hi
      rw [Array.getElem?_setIfInBounds_self_of_lt (lt_size hset), hset]
      exact congrArg some hstep.outline_eq
    · rw [Array.getElem?_setIfInBounds_ne (Ne.symm hi)]

/-! ## Residency -/

/-- Whether a list is in memory. -/
def isResident (s : Shelf) (key : OwnerKey) : Bool :=
  s.sets[key.set]?.any (·.isResident key.value)

theorem isResident_of_some (key : OwnerKey) (hset : s.sets[key.set]? = some set) :
    s.isResident key = set.isResident key.value := by
  simp [isResident, hset]

theorem isResident_withSet_self (hset : s.sets[id]? = some set) (set' : IndexSet) (pages : PageFile)
    (v : ValueId) : (s.withSet id set' pages).isResident ⟨id, v⟩ = set'.isResident v :=
  isResident_of_some ⟨id, v⟩ (withSet_self hset set' pages)

theorem isResident_withSet_of_ne (key : OwnerKey) {set' : IndexSet} {pages : PageFile}
    (h : key.set ≠ id) :
    (s.withSet id set' pages).isResident key = s.isResident key := by
  rw [isResident, isResident, withSet_of_ne h]

/-! ## Running an action on one set -/

theorem onSet?_none {act : Act (Over IndexSet) α} (h : s.sets[id]? = none) :
    onSet? id act s = .ok none s := by
  rcases s with ⟨pages, sets⟩
  simp only [onSet?, h]

/-- An act on one set that succeeds puts the set and the file back. -/
theorem onSet?_ok {act : Act (Over IndexSet) α} {a : α} {t : Over IndexSet}
    (hset : s.sets[id]? = some set) (h : act ⟨set, s.pages⟩ = .ok a t) :
    onSet? id act s = .ok (some a) (s.withSet id t.item t.pages) := by
  rcases s with ⟨pages, sets⟩
  simp only [onSet?, hset, h]
  rfl

/-- An act on one set that fails puts them back too, as they are by then. -/
theorem onSet?_error {act : Act (Over IndexSet) α} {e : StorageError} {t : Over IndexSet}
    (hset : s.sets[id]? = some set) (h : act ⟨set, s.pages⟩ = .error e t) :
    onSet? id act s = .error e (s.withSet id t.item t.pages) := by
  rcases s with ⟨pages, sets⟩
  simp only [onSet?, hset, h]
  rfl

/-! ## Writing out -/

/-- A list that is written out leaves memory, and nothing else changes. -/
theorem discard_spec (hs : Sound s held rest)
    (hroom : (Act.after (discard key) s).pages.disk.pageCount ≤ maxPages) :
    ∃ s' held', discard key s = .ok (s.sets[key.set]?.map (·.isResident key.value)) s' ∧
      Step s s' held held' ∧ (∀ id v, (held' id v).tuples = (held id v).tuples) ∧
      ∀ k, s'.isResident k = (s.isResident k && k != key) := by
  cases hset : s.sets[key.set]? with
  | none =>
    refine ⟨s, held, onSet?_none hset, hs.step_refl, fun _ _ => rfl, fun k => ?_⟩
    by_cases hk : k = key
    · subst hk
      simp [isResident, hset]
    · rw [show (k != key) = true by simpa using hk, Bool.and_true]
  | some set =>
    have hset' := hs.atSet hset
    have hroom' : (Act.after (IndexSet.discard key.value) ⟨set, s.pages⟩).pages.disk.pageCount ≤
        maxPages := by
      cases hrun : IndexSet.discard key.value ⟨set, s.pages⟩ with
      | ok b t =>
        rw [discard, Act.after_ok (onSet?_ok hset hrun)] at hroom
        rw [Act.after_ok hrun]
        exact hroom
      | error e t =>
        rw [discard, Act.after_error (onSet?_error hset hrun)] at hroom
        rw [Act.after_error hrun]
        exact hroom
    obtain ⟨t, h, hrun, hstep, htuples, hresident⟩ := IndexSet.discard_spec hset' hroom'
    refine ⟨_, _, onSet?_ok hset hrun, .of_set hs hset hstep, fun id v => ?_, fun k => ?_⟩
    · by_cases hid : id = key.set
      · rw [hid, Function.update_self]
        exact htuples v
      · rw [Function.update_of_ne hid]
    · rcases k with ⟨other, w⟩
      rcases key with ⟨id, value⟩
      by_cases hid : other = id
      · subst hid
        -- within the set it is the entry of the key that leaves
        have hself := withSet_self hset t.item t.pages
        rw [isResident_of_some ⟨other, w⟩ hself, isResident_of_some ⟨other, w⟩ hset,
          hresident w]
        by_cases hw : w = value
        · simp [hw]
        · have hkey : (⟨other, w⟩ : OwnerKey) ≠ ⟨other, value⟩ := fun h => hw (congrArg (·.value) h)
          simp [bne_iff_ne.mpr hw, bne_iff_ne.mpr hkey]
      · rw [isResident_withSet_of_ne ⟨other, w⟩ hid]
        simp [hid]

end Shelf

/-! ## Evictions -/

namespace Residency

variable {r : Residency} {s : Shelf} {held : SetId → ValueId → Holding} {rest : List Nat}

/-- Every set of a shelf is registered. -/
def Owns (r : Residency) (s : Shelf) : Prop := ∀ id, id < s.sets.size → r.owners.contains id = true

/-- The owner of a list writes it out when it is asked to, and every list has the tuples it had. -/
theorem evict_spec {key : OwnerKey} (hs : s.Sound held rest) (howns : r.Owns s)
    (hroom : (Act.after (evict Shelf.discard key) (r, s)).2.pages.disk.pageCount ≤ maxPages) :
    ∃ r' s' held', evict Shelf.discard key (r, s) = .ok () (r', s') ∧
      r.SameTracking r' ∧ s.Step s' held held' ∧
      (∀ id v, (held' id v).tuples = (held id v).tuples) ∧
      ∀ k, s'.isResident k = (s.isResident k && k != key) := by
  cases howner : r.owners.contains key.set with
  | false =>
    -- nobody is asked, and there is nobody to ask
    have hnone : s.sets[key.set]? = none := by
      by_contra hsome
      obtain ⟨set, hset⟩ := Option.ne_none_iff_exists'.mp hsome
      rw [howns key.set (Shelf.lt_size hset)] at howner
      cases howner
    refine ⟨{ r with staleSkips := r.staleSkips + 1 }, s, held, ?_, ⟨.refl _, rfl, rfl, rfl⟩,
      hs.step_refl, fun _ _ => rfl, fun k => ?_⟩
    · simp only [evict, howner, Bool.false_eq_true, if_false]
    · by_cases hk : k = key
      · rw [hk, Shelf.isResident, hnone]
        rfl
      · rw [show (k != key) = true by simpa using hk, Bool.and_true]
  | true =>
    have hroom' : (Act.after (Shelf.discard key) s).pages.disk.pageCount ≤ maxPages := by
      cases hrun : Shelf.discard key s with
      | ok b s' =>
        rw [Act.after_ok hrun]
        simp only [Act.after, evict, howner, if_true, hrun] at hroom
        rcases b with _ | _ | _ <;> exact hroom
      | error e s' =>
        rw [Act.after_error hrun]
        simp only [Act.after, evict, howner, if_true, hrun] at hroom
        exact hroom
    obtain ⟨s', held', hrun, hstep, htuples, hresident⟩ := Shelf.discard_spec hs hroom'
    rcases hask : s.sets[key.set]?.map (·.isResident key.value) with _ | _ | _
    all_goals
      rw [hask] at hrun
    · refine ⟨{ r with staleSkips := r.staleSkips + 1 }, s', held', ?_, ⟨.refl _, rfl, rfl, rfl⟩,
        hstep, htuples, hresident⟩
      simp only [evict, howner, if_true, hrun]
    · refine ⟨{ r with staleSkips := r.staleSkips + 1 }, s', held', ?_, ⟨.refl _, rfl, rfl, rfl⟩,
        hstep, htuples, hresident⟩
      simp only [evict, howner, if_true, hrun]
    · refine ⟨{ r with evictions := r.evictions + 1 }, s', held', ?_, ⟨.refl _, rfl, rfl, rfl⟩,
        hstep, htuples, hresident⟩
      simp only [evict, howner, if_true, hrun]

/-- The lists asked for are written out one after another. -/
theorem evictEach_spec {keys : List OwnerKey} (hs : s.Sound held rest) (howns : r.Owns s)
    (hroom : (Act.after (evictEach Shelf.discard keys) (r, s)).2.pages.disk.pageCount ≤ maxPages) :
    ∃ r' s' held', evictEach Shelf.discard keys (r, s) = .ok () (r', s') ∧
      r.SameTracking r' ∧ s.Step s' held held' ∧
      (∀ id v, (held' id v).tuples = (held id v).tuples) ∧
      ∀ k, s'.isResident k = (s.isResident k && !keys.contains k) := by
  induction keys generalizing r s held with
  | nil => exact ⟨r, s, held, rfl, .refl r, hs.step_refl, fun _ _ => rfl, by simp⟩
  | cons key keys ih =>
    have hgrows : ∀ keys, Act.Grows (fun t : Residency × Shelf => t.2.pageCount)
        (evictEach Shelf.discard keys) :=
      grows_evictEach fun key => Shelf.grows_onSet? key.set (IndexSet.grows_discard key.value)
    -- no list takes pages back, so there is room after the first one if there is at the end
    have hroom₁ : (Act.after (evict Shelf.discard key) (r, s)).2.pages.disk.pageCount ≤ maxPages :=
      Nat.le_trans (Act.Grows.after_le_bind (fun _ => hgrows keys) (r, s)) hroom
    obtain ⟨r₁, s₁, held₁, hrun₁, hr₁, hstep₁, htuples₁, hresident₁⟩ := evict_spec hs howns hroom₁
    -- asking an owner registers nobody
    have howns₁ : r₁.Owns s₁ := by
      intro id hid
      have hsize : s₁.sets.size = s.sets.size := hstep₁.size_eq
      rw [hr₁.owners_eq]
      exact howns id (hsize ▸ hid)
    have hroom₂ : (Act.after (evictEach Shelf.discard keys) (r₁, s₁)).2.pages.disk.pageCount ≤
        maxPages := by
      rw [evictEach, Act.after_bind_ok hrun₁] at hroom
      exact hroom
    obtain ⟨r₂, s₂, held₂, hrun₂, hr₂, hstep₂, htuples₂, hresident₂⟩ :=
      ih (hstep₁.sound hs) howns₁ hroom₂
    refine ⟨r₂, s₂, held₂, ?_, hr₁.trans hr₂, hstep₁.trans hstep₂, fun id v => ?_, fun k => ?_⟩
    · rw [evictEach, Act.bind_ok hrun₁]
      exact hrun₂
    · rw [htuples₂, htuples₁]
    · rw [hresident₂ k, hresident₁ k, List.contains_cons, Bool.not_or, Bool.and_assoc]
      rfl

end Residency

end EventIndex
