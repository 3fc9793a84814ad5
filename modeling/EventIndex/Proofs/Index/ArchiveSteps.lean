import EventIndex.Proofs.Index.ShelfSteps
import Mathlib.Data.List.Dedup

/-! # Operations on an archive

An archive is `Sound` when its shelf is, the list of timestamps lies on the same disk, and the
bookkeeping knows every set. `book` is what a sound archive holds when all is said that pages are
for; tasks do to the archive what they do to the book (`perform_spec`), and reading and writing out
do nothing to it.

`Tidy a extra` says which lists are in memory: those that are tracked, and `extra`. While a batch is
being reported, the lists that came in with it are extra until they are tracked. A batch that fails
is not reported, and leaves them so.

Main results:

* `Step.of_shelf`, `Step.of_set`, `Step.of_tracking`: what is done to a part of an archive is a step of
  it.
* `track_spec`, `trackEach_spec`: tracking a list, with those that have to leave for it.
* `appended_spec`: the first half of a batch, which fills the lists.
* `report_spec`: the second half, which tracks what came in.
* `applyBatch_spec`: the whole of it.
-/

namespace EventIndex

/-- What there is in an archive: the lists of all sets, and the timestamps on sealed pages. -/
structure Contents where
  lists : SetId → ValueId → Holding
  stamps : List (List Tuple)

namespace Archive

variable {a a' a'' : Archive} {c c' c'' : Contents} {id : SetId} {set : IndexSet}
  {value : ValueId} {key : OwnerKey} {extra : List OwnerKey}

/-- An archive lies on the disk of its page file. -/
structure Sound (a : Archive) (c : Contents) : Prop where
  shelf : a.shelf.Sound c.lists a.stamps.sealedPages
  stamps : a.stamps.LiesOn a.shelf.pages.disk c.stamps
  stampKind : a.stamps.kind = .stamp
  live : ∀ o ∈ a.shelf.outline, o.isDisposed = false
  owns : a.residency.Owns a.shelf
  isOpen : a.residency.isDisposed = false

/-- From one state of an archive to the next. -/
structure Step (a a' : Archive) (c c' : Contents) : Prop where
  sound : a'.Sound c'
  extends_ : ∀ id v, (c.lists id v).Extends (c'.lists id v)
  stampsExtend : a.stamps.directory.toList <+: a'.stamps.directory.toList ∧ c.stamps <+: c'.stamps
  outline_eq : a'.shelf.outline = a.shelf.outline
  capacity_eq : a'.residency.capacity = a.residency.capacity
  pageCapacity_eq : a'.shelf.pages.payloadCapacity = a.shelf.pages.payloadCapacity

/-- Two steps are one. -/
theorem Step.trans (h : Step a a' c c') (h' : Step a' a'' c' c'') : Step a a'' c c'' where
  sound := h'.sound
  extends_ id v := (h.extends_ id v).trans (h'.extends_ id v)
  stampsExtend :=
    ⟨h.stampsExtend.1.trans h'.stampsExtend.1, h.stampsExtend.2.trans h'.stampsExtend.2⟩
  outline_eq := h'.outline_eq.trans h.outline_eq
  capacity_eq := h'.capacity_eq.trans h.capacity_eq
  pageCapacity_eq := h'.pageCapacity_eq.trans h.pageCapacity_eq

/-- A sound archive steps to itself. -/
theorem Sound.step_refl (hs : a.Sound c) : Step a a c c :=
  ⟨hs, fun id v => .refl (c.lists id v), ⟨List.prefix_refl _, List.prefix_refl _⟩, rfl, rfl, rfl⟩

/-- What an archive holds. -/
def book (a : Archive) (c : Contents) : Book where
  kind? id := (a.set? id).map (·.kind)
  lists id v := (c.lists id v).tuples
  stamps := a.stamps.tuples c.stamps

/-- Whether a list is in memory. -/
def isResident (a : Archive) (key : OwnerKey) : Bool := a.shelf.isResident key

/-- The lists in memory are the tracked ones and some more. -/
structure Tidy (a : Archive) (extra : List OwnerKey) : Prop where
  capacity_pos : 0 < a.residency.capacity
  nodup : (a.residency.tracked ++ extra).Nodup
  bounded : a.residency.tracked.length ≤ a.residency.capacity
  resident_iff : ∀ key, a.isResident key = true ↔ key ∈ a.residency.tracked ∨ key ∈ extra

/-! ## Outlines -/

/-- Archives of the same outline have sets of the same kinds. -/
theorem kind?_of_outline (h : a'.shelf.outline = a.shelf.outline) (id : SetId) :
    (a'.set? id).map (·.kind) = (a.set? id).map (·.kind) := by
  have hget := congrArg (fun os : List IndexSet.Outline => (os[id]?).map (·.kind)) h
  simpa [Shelf.outline, set?, Function.comp_def, IndexSet.outline] using hget

/-- No set of a sound archive has been disposed of. -/
theorem Sound.isDisposed_eq (hs : a.Sound c) (hset : a.set? id = some set) :
    set.isDisposed = false := by
  have hmem : set ∈ a.shelf.sets.toList := by
    have hget : a.shelf.sets[id]? = some set := hset
    rw [← Array.getElem?_toList] at hget
    exact List.mem_of_getElem? hget
  exact hs.live set.outline (List.mem_map_of_mem (f := IndexSet.outline) hmem)

/-- The check for sets that were disposed of passes. -/
theorem Sound.checkLive_ok (hs : a.Sound c) (id : SetId) : checkLive id a = .ok () a := by
  have hget : (get : Act Archive Archive) a = .ok a a := rfl
  unfold checkLive
  rw [Act.bind_ok hget]
  cases hset : a.set? id with
  | none => rfl
  | some set =>
    have hlive := hs.isDisposed_eq hset
    simp only [IndexSet.checkLive, hlive, Bool.false_eq_true, if_false]
    rfl

/-! ## Steps of the shelf and of the bookkeeping -/

/-- What the shelf does to its pages the list of timestamps does not notice. -/
theorem Step.of_shelf {shelf : Shelf} {residency : Residency}
    {held : SetId → ValueId → Holding} (hs : a.Sound c)
    (hstep : a.shelf.Step shelf c.lists held) (howners : residency.owners = a.residency.owners)
    (hcapacity : residency.capacity = a.residency.capacity)
    (hopen : residency.isDisposed = a.residency.isDisposed) :
    Step a ⟨residency, shelf, a.stamps⟩ c ⟨held, c.stamps⟩ where
  sound :=
    { shelf := hstep.sound hs.shelf
      stamps := hs.stamps.keep hstep.exchange.capacity_eq (hstep.exchange.kept _ hs.shelf.owned)
      stampKind := hs.stampKind
      live := hstep.outline_eq ▸ hs.live
      owns := fun id hid => howners ▸ hs.owns id (hstep.size_eq ▸ hid)
      isOpen := hopen.trans hs.isOpen }
  extends_ := hstep.extends_
  stampsExtend := ⟨List.prefix_refl _, List.prefix_refl _⟩
  outline_eq := hstep.outline_eq
  capacity_eq := hcapacity
  pageCapacity_eq := hstep.exchange.capacity_eq

/-- A step of the shelf in which each list keeps its tuples is not seen in the book. -/
theorem book_of_shelf {shelf : Shelf} {residency : Residency}
    {held : SetId → ValueId → Holding} (hstep : a.shelf.Step shelf c.lists held)
    (htuples : ∀ id v, (held id v).tuples = (c.lists id v).tuples) :
    book ⟨residency, shelf, a.stamps⟩ ⟨held, c.stamps⟩ = a.book c := by
  have hkinds : ∀ id, (set? ⟨residency, shelf, a.stamps⟩ id).map (·.kind) =
      (a.set? id).map (·.kind) := kind?_of_outline hstep.outline_eq
  simp only [book, hkinds, htuples]

/-- Uses may be reported at any time. -/
theorem Step.of_tracking {residency : Residency} (hs : a.Sound c)
    (h : a.residency.SameTracking residency) : Step a { a with residency } c c :=
  Step.of_shelf hs hs.shelf.step_refl h.owners_eq h.capacity_eq h.isDisposed_eq

/-- What is in memory stays tracked by a manager that tracks the same lists. -/
theorem Tidy.of_tracking {residency : Residency} (ht : a.Tidy extra)
    (h : a.residency.SameTracking residency) : Tidy { a with residency } extra where
  capacity_pos := h.capacity_eq ▸ ht.capacity_pos
  nodup := (h.tracked_perm.append_right extra).nodup_iff.mpr ht.nodup
  bounded := by
    show residency.tracked.length ≤ residency.capacity
    rw [h.tracked_perm.length_eq, h.capacity_eq]
    exact ht.bounded
  resident_iff k := by
    show a.isResident k = true ↔ k ∈ residency.tracked ∨ k ∈ extra
    rw [ht.resident_iff k, h.tracked_perm.mem_iff]

/-- Lists that come into memory are extra until they are tracked. -/
theorem Tidy.of_entered {shelf : Shelf} (entered : List OwnerKey) (ht : a.Tidy extra)
    (hnodup : entered.Nodup) (hfresh : ∀ k ∈ entered, a.isResident k = false)
    (hresident : ∀ k, shelf.isResident k = (a.isResident k || entered.contains k)) :
    Tidy { a with shelf } (entered ++ extra) where
  capacity_pos := ht.capacity_pos
  bounded := ht.bounded
  nodup := by
    have hapart : ∀ k ∈ a.residency.tracked ++ extra, k ∉ entered := by
      intro k hk hmem
      have hres := (ht.resident_iff k).mpr (List.mem_append.mp hk)
      rw [hfresh k hmem] at hres
      cases hres
    refine (List.perm_append_comm_assoc entered a.residency.tracked extra).nodup_iff.mp ?_
    exact List.nodup_append.mpr ⟨hnodup, ht.nodup, fun k hk l hl h => hapart l hl (h ▸ hk)⟩
  resident_iff k := by
    show shelf.isResident k = true ↔ k ∈ a.residency.tracked ∨ k ∈ entered ++ extra
    rw [hresident k, Bool.or_eq_true, ht.resident_iff k, List.contains_iff_mem, List.mem_append]
    exact or_assoc.trans (or_congr_right or_comm)

/-! ## Tracking -/

/-- The lists tracked before and a new one are either kept or victims. -/
theorem place_split {victims : List OwnerKey} {residency : Residency}
    (hnew : key ∉ a.residency.tracked) (hplace : a.residency.place key = (victims, residency)) :
    key :: a.residency.tracked = residency.tracked ++ victims.reverse ∧
      residency.tracked.length ≤ residency.capacity := by
  obtain ⟨hvictims, hkept⟩ := a.residency.place_spec key
  have hfilter : a.residency.tracked.filter (· ≠ key) = a.residency.tracked :=
    List.filter_eq_self.mpr fun k hk => by
      simpa using fun h : k = key => hnew (h ▸ hk)
  have hcapacity : residency.capacity = a.residency.capacity := by
    rw [← show (a.residency.place key).2 = residency by rw [hplace]]
    rfl
  rw [hfilter, hplace] at hvictims hkept
  constructor
  · rw [hkept, hvictims, List.take_append_drop]
  · rw [hcapacity, hkept]
    exact List.length_take_le _ _

/-- When the victims of a new list are written out, it is tracked like all that were kept. -/
theorem Tidy.of_place {victims : List OwnerKey} {residency : Residency} {shelf : Shelf}
    (ht : a.Tidy (key :: extra)) (hplace : a.residency.place key = (victims, residency))
    (hresident : ∀ k, shelf.isResident k = (a.isResident k && !victims.contains k)) :
    Tidy ⟨residency, shelf, a.stamps⟩ extra := by
  have hnew : key ∉ a.residency.tracked := fun hmem =>
    (List.nodup_append.mp ht.nodup).2.2 key hmem key List.mem_cons_self rfl
  obtain ⟨hall, hbounded⟩ := place_split hnew hplace
  have hnodup : (key :: a.residency.tracked ++ extra).Nodup :=
    List.perm_middle.nodup_iff.mp ht.nodup
  rw [hall] at hnodup
  refine ⟨?_, hnodup.sublist ((List.sublist_append_left _ _).append_right extra), hbounded, fun k => ?_⟩
  · show 0 < residency.capacity
    rw [← show (a.residency.place key).2 = residency by rw [hplace]]
    exact ht.capacity_pos
  · show shelf.isResident k = true ↔ k ∈ residency.tracked ∨ k ∈ extra
    have hsplit : k ∈ key :: a.residency.tracked ↔ k ∈ residency.tracked ∨ k ∈ victims := by
      rw [hall, List.mem_append, List.mem_reverse]
    rw [hresident k, Bool.and_eq_true, ht.resident_iff k, Bool.not_eq_true', ← Bool.not_eq_true,
      List.contains_iff_mem]
    by_cases hk : k ∈ victims
    · -- a victim is neither kept nor extra
      obtain ⟨htracked, -, hextra⟩ := List.nodup_append.mp hnodup
      have hgone := List.mem_reverse.mpr hk
      refine iff_of_false (fun h => h.2 hk) ?_
      rintro (hmem | hmem)
      · exact (List.nodup_append.mp htracked).2.2 k hmem k hgone rfl
      · exact hextra k (List.mem_append_right _ hgone) k hmem rfl
    · have hkept : k ∈ residency.tracked ↔ k = key ∨ k ∈ a.residency.tracked := by
        rw [← List.mem_cons, hsplit, or_iff_left hk]
      rw [hkept, and_iff_left hk, List.mem_cons, ← or_assoc, or_comm (a := _ ∈ _)]

/-- Tracking a list is asking for its victims to be written out. -/
theorem track_eq {victims : List OwnerKey} {residency : Residency}
    (hopen : a.residency.isDisposed = false) (hplace : a.residency.place key = (victims, residency)) :
    Residency.track Shelf.discard key (a.residency, a.shelf) =
      Residency.evictEach Shelf.discard victims (residency, a.shelf) := by
  simp only [Residency.track, hopen, Bool.false_eq_true, if_false, hplace]

/-- Tracking a list changes the shelf by the lists that are pushed out, and by nothing else. -/
theorem shelf_track (key : OwnerKey) (a : Archive) :
    (Act.after (track key) a).shelf =
      (Act.after (Residency.track Shelf.discard key) (a.residency, a.shelf)).2 := by
  simp only [Act.after, track]
  cases Residency.track Shelf.discard key (a.residency, a.shelf) <;> rfl

/-- A list that came into memory is tracked. Those that have to leave for it are tracked as well, so
that no list is in memory beyond the extra ones and as many as the capacity allows. -/
theorem track_spec (hs : a.Sound c) (ht : a.Tidy (key :: extra))
    (hroom : (Act.after (track key) a).pageCount ≤ maxPages) :
    ∃ a' c', track key a = .ok () a' ∧ Step a a' c c' ∧ a'.book c' = a.book c ∧ a'.Tidy extra := by
  rcases hplace : a.residency.place key with ⟨victims, residency⟩
  obtain ⟨howners, hcapacity, hopen⟩ : residency.owners = a.residency.owners ∧
      residency.capacity = a.residency.capacity ∧ residency.isDisposed = a.residency.isDisposed := by
    rw [← show (a.residency.place key).2 = residency by rw [hplace]]
    exact ⟨rfl, rfl, rfl⟩
  have hrunEq := track_eq hs.isOpen hplace
  rw [pageCount, shelf_track, Act.after_congr hrunEq] at hroom
  -- the victims are written out, one after another
  obtain ⟨residency', shelf, held, hrun, hsame, hstep, htuples, hresident⟩ :=
    Residency.evictEach_spec hs.shelf (fun id hid => howners ▸ hs.owns id hid) hroom
  refine ⟨⟨residency', shelf, a.stamps⟩, ⟨held, c.stamps⟩, ?_, ?_, book_of_shelf hstep htuples, ?_⟩
  · simp only [track, hrunEq, hrun]
  · exact .of_shelf hs hstep (hsame.owners_eq.trans howners) (hsame.capacity_eq.trans hcapacity)
      (hsame.isDisposed_eq.trans hopen)
  · exact (ht.of_place hplace hresident).of_tracking hsame

/-- The lists that came in with a batch are tracked one after another. -/
theorem trackEach_spec {values : List ValueId} (hs : a.Sound c)
    (ht : a.Tidy (values.map (OwnerKey.mk id) ++ extra))
    (hroom : (Act.after (trackEach id values) a).pageCount ≤ maxPages) :
    ∃ a' c', trackEach id values a = .ok () a' ∧ Step a a' c c' ∧ a'.book c' = a.book c ∧
      a'.Tidy extra := by
  induction values generalizing a c with
  | nil => exact ⟨a, c, rfl, hs.step_refl, rfl, ht⟩
  | cons value values ih =>
    have hroom₁ : (Act.after (track ⟨id, value⟩) a).pageCount ≤ maxPages :=
      Nat.le_trans (Act.Grows.after_le_bind (fun _ => grows_trackEach id values) a) hroom
    obtain ⟨a₁, c₁, hrun₁, hstep₁, hbook₁, ht₁⟩ := track_spec hs ht hroom₁
    rw [trackEach, Act.after_bind_ok hrun₁] at hroom
    obtain ⟨a₂, c₂, hrun₂, hstep₂, hbook₂, ht₂⟩ := ih hstep₁.sound ht₁ hroom
    refine ⟨a₂, c₂, ?_, hstep₁.trans hstep₂, hbook₂.trans hbook₁, ht₂⟩
    rw [trackEach, Act.bind_ok hrun₁]
    exact hrun₂

/-- Reported uses change the order of the tracked lists, and not which they are. -/
theorem sameTracking_touchEach {r : Residency} (hr : r.tracked.Nodup) (values : List ValueId) :
    r.SameTracking (values.foldl (fun r value => r.touch ⟨id, value⟩) r) :=
  .foldl (fun _ _ hr => Residency.sameTracking_touch _ hr) values hr

/-! ## Batches -/

/-- An act on a set that is there succeeds if the act does, and puts the set back. -/
theorem onSet?_ok {α : Type} {act : Act (Over IndexSet) α} {x : α} {t : Over IndexSet}
    (hset : a.set? id = some set) (h : act ⟨set, a.shelf.pages⟩ = .ok x t) :
    onSet? id act a = .ok (some x) { a with shelf := a.shelf.withSet id t.item t.pages } := by
  simp only [onSet?, Shelf.onSet?_ok hset h]

/-- An act on a set that is there fails if the act does, and puts the set back all the same. -/
theorem onSet?_error {α : Type} {act : Act (Over IndexSet) α} {e : StorageError}
    {t : Over IndexSet} (hset : a.set? id = some set) (h : act ⟨set, a.shelf.pages⟩ = .error e t) :
    onSet? id act a = .error e { a with shelf := a.shelf.withSet id t.item t.pages } := by
  simp only [onSet?, Shelf.onSet?_error hset h]

/-- An act on a set that is not there does nothing. -/
theorem onSet?_none {α : Type} {act : Act (Over IndexSet) α} (hset : a.set? id = none) :
    onSet? id act a = .ok none a := by
  simp only [onSet?, Shelf.onSet?_none hset]

/-- A step of one set, as a step of the archive. -/
theorem Step.of_set {t : Over IndexSet} {h : ValueId → Holding} (hs : a.Sound c)
    (hset : a.set? id = some set) (hstep : IndexSet.Step ⟨set, a.shelf.pages⟩ t (c.lists id) h) :
    Step a { a with shelf := a.shelf.withSet id t.item t.pages } c
      ⟨Function.update c.lists id h, c.stamps⟩ :=
  .of_shelf hs (.of_set hs.shelf hset hstep) rfl rfl rfl

/-- A step of one set is seen in the book at its own lists and nowhere else. -/
theorem book_of_set {t : Over IndexSet} {h : ValueId → Holding} (hs : a.Sound c)
    (hset : a.set? id = some set) (hstep : IndexSet.Step ⟨set, a.shelf.pages⟩ t (c.lists id) h) :
    book { a with shelf := a.shelf.withSet id t.item t.pages }
        ⟨Function.update c.lists id h, c.stamps⟩ =
      { a.book c with
        lists := Function.update (a.book c).lists id fun v => (h v).tuples } := by
  have hkinds : ∀ i, (set? { a with shelf := a.shelf.withSet id t.item t.pages } i).map (·.kind) =
      (a.set? i).map (·.kind) := kind?_of_outline (Step.of_set hs hset hstep).outline_eq
  have hlists : (fun i v => (Function.update c.lists id h i v).tuples) =
      Function.update (a.book c).lists id fun v => (h v).tuples := by
    funext i
    by_cases hi : i = id
    · rw [hi, Function.update_self, Function.update_self]
    · rw [Function.update_of_ne hi, Function.update_of_ne hi]
      rfl
  simp only [book, hkinds, hlists]

/-- Keys of one set are apart when their values are. -/
theorem nodup_map_key {values : List ValueId} (h : values.Nodup) :
    (values.map (OwnerKey.mk id)).Nodup :=
  h.map fun _ _ heq => congrArg OwnerKey.value heq

/-- What came into memory for one set, seen from the archive. -/
theorem isResident_withSet {t : Over IndexSet} (entered : List ValueId)
    (hset : a.set? id = some set)
    (h : ∀ v, t.item.isResident v = (set.isResident v || entered.contains v)) (k : OwnerKey) :
    (a.shelf.withSet id t.item t.pages).isResident k =
      (a.isResident k || (entered.map (OwnerKey.mk id)).contains k) := by
  rcases k with ⟨other, v⟩
  by_cases hother : other = id
  · subst hother
    rw [Shelf.isResident_withSet_self hset, h v]
    have hres : a.isResident ⟨other, v⟩ = set.isResident v :=
      Shelf.isResident_of_some ⟨other, v⟩ hset
    rw [hres]
    congr 1
    rw [Bool.eq_iff_iff, List.contains_iff_mem, List.contains_iff_mem]
    simp
  · rw [Shelf.isResident_withSet_of_ne ⟨other, v⟩ hother]
    have hnot : (entered.map (OwnerKey.mk id)).contains ⟨other, v⟩ = false := by
      rw [← Bool.not_eq_true, List.contains_iff_mem]
      simp [Ne.symm hother]
    rw [hnot, Bool.or_false]
    rfl

/-- The lists that a failing task leaves in memory untracked: those that it comes to, as far as they
were not in memory before. -/
def strandedBy (a : Archive) (b : Book) : Task → List OwnerKey
  | .stamps _ => []
  | .batch id entries =>
    match b.kind? id with
    | none => []
    | some k =>
      match k.extendEach entries (b.lists id) with
      | .ok _ _ => []
      | .error _ _ =>
        ((k.reached entries (b.lists id)).dedup.filter fun v => !a.isResident ⟨id, v⟩).map
          (OwnerKey.mk id)

/-- In what order the extra lists are named makes no difference. -/
theorem Tidy.perm {extra' : List OwnerKey} (ht : a.Tidy extra) (h : extra.Perm extra') :
    a.Tidy extra' where
  capacity_pos := ht.capacity_pos
  nodup := (h.append_left _).nodup_iff.mp ht.nodup
  bounded := ht.bounded
  resident_iff k := by rw [ht.resident_iff k, h.mem_iff]

/-- A task does to the archive what it does to the book, and leaves `extra` in memory untracked. -/
structure Performs (act : Act Archive Unit) (ref : Act Book Unit) (a : Archive) (c c' : Contents)
    (extra : List OwnerKey) : Prop where
  step : Step a (Act.after act a) c c'
  outcome_eq : Act.outcome act a = Act.outcome ref (a.book c)
  book_eq : (Act.after act a).book c' = Act.after ref (a.book c)
  tidy : (Act.after act a).Tidy extra

/-- A task that succeeds in both, with what it leaves in the book. -/
theorem Performs.of_ok {act : Act Archive Unit} {ref : Act Book Unit} {b : Book}
    (hrun : act a = .ok () a') (href : ref (a.book c) = .ok () b) (hstep : Step a a' c c')
    (hbook : a'.book c' = b) (ht : a'.Tidy extra) : Performs act ref a c c' extra := by
  refine ⟨?_, ?_, ?_, ?_⟩
  · rw [Act.after_ok hrun]
    exact hstep
  · rw [Act.outcome_ok hrun, Act.outcome_ok href]
  · rw [Act.after_ok hrun, Act.after_ok href, hbook]
  · rw [Act.after_ok hrun]
    exact ht

/-- A task that fails in both, with the same error and with what it leaves in the book. -/
theorem Performs.of_error {act : Act Archive Unit} {ref : Act Book Unit} {b : Book}
    {e : StorageError} (hrun : act a = .error e a') (href : ref (a.book c) = .error e b)
    (hstep : Step a a' c c') (hbook : a'.book c' = b) (ht : a'.Tidy extra) :
    Performs act ref a c c' extra := by
  refine ⟨?_, ?_, ?_, ?_⟩
  · rw [Act.after_error hrun]
    exact hstep
  · rw [Act.outcome_error hrun, Act.outcome_error href]
  · rw [Act.after_error hrun, Act.after_error href, hbook]
  · rw [Act.after_error hrun]
    exact ht

/-- No set is disposed, so a batch is applied. -/
theorem applyBatch_eq (id : SetId) (hs : a.Sound c) (entries : List (ValueId × Tuple)) :
    applyBatch id entries a =
      (onSet? id (IndexSet.applyEntries a.residency.useThreshold entries) >>= fun found =>
        match found with
        | none => return ()
        | some report => do
          trackEach id report.entered
          touchEach id report.used) a := by
  have hget : (get : Act Archive Archive) a = .ok a a := rfl
  have hlive : (a.set? id).any (·.isDisposed) = false := by
    cases hset : a.set? id with
    | none => rfl
    | some set => exact hs.isDisposed_eq hset
  unfold applyBatch
  rw [Act.bind_ok hget, if_neg (by rw [hlive]; exact Bool.false_ne_true)]
  exact Act.bind_ok hget

/-- The lists that came in for a batch are those that were not there before. -/
theorem entered_perm {entered reached : List ValueId} (hset : a.set? id = some set)
    (hnodup : entered.Nodup)
    (hfresh : ∀ v, v ∈ entered ↔ set.isResident v = false ∧ v ∈ reached) :
    (entered.map (OwnerKey.mk id)).Perm
      ((reached.dedup.filter fun v => !a.isResident ⟨id, v⟩).map (OwnerKey.mk id)) := by
  refine List.Perm.map _ ?_
  refine (List.perm_ext_iff_of_nodup hnodup ((List.nodup_dedup _).filter _)).mpr fun v => ?_
  have hbefore : a.isResident ⟨id, v⟩ = set.isResident v :=
    Shelf.isResident_of_some ⟨id, v⟩ hset
  rw [hfresh v, List.mem_filter, List.mem_dedup, hbefore, Bool.not_eq_true', and_comm]

/-- The book has the kind of each set of the archive. -/
theorem kind?_book (hset : a.set? id = some set) : (a.book c).kind? id = some set.kind := by
  simp [book, hset]

/-- A batch that fails strands the lists that came in for it. -/
theorem strandedBy_error {entries : List (ValueId × Tuple)} {entered : List ValueId} {e : StorageError}
    {lists : ValueId → List Tuple} (hset : a.set? id = some set)
    (hext : set.kind.extendEach entries ((a.book c).lists id) = .error e lists)
    (hnodup : entered.Nodup) (hfresh : ∀ v, v ∈ entered ↔ set.isResident v = false ∧
      v ∈ set.kind.reached entries ((a.book c).lists id)) :
    (entered.map (OwnerKey.mk id)).Perm (a.strandedBy (a.book c) (.batch id entries)) := by
  simp only [strandedBy, kind?_book hset, hext]
  exact entered_perm hset hnodup hfresh

/-- A batch that does not fail strands nothing. -/
theorem strandedBy_ok {entries : List (ValueId × Tuple)} {lists : ValueId → List Tuple}
    (hset : a.set? id = some set)
    (hext : set.kind.extendEach entries ((a.book c).lists id) = .ok () lists) :
    a.strandedBy (a.book c) (.batch id entries) = [] := by
  simp only [strandedBy, kind?_book hset, hext]

/-- After a batch the lists that came in are tracked, and the others are touched. -/
theorem report_spec (report : IndexSet.Report) (hs : a.Sound c)
    (ht : a.Tidy (report.entered.map (OwnerKey.mk id) ++ extra))
    (hroom : (Act.after (trackEach id report.entered >>= fun _ => touchEach id report.used) a).pageCount ≤
      maxPages) :
    ∃ a' c', (trackEach id report.entered >>= fun _ => touchEach id report.used) a = .ok () a' ∧
      Step a a' c c' ∧ a'.book c' = a.book c ∧ a'.Tidy extra := by
  have hroom₁ : (Act.after (trackEach id report.entered) a).pageCount ≤ maxPages :=
    Nat.le_trans (Act.Grows.after_le_bind (fun _ => grows_onResidency _) a) hroom
  obtain ⟨a₁, c₁, hrun, hstep, hbook, ht₁⟩ := trackEach_spec hs ht hroom₁
  have hsame : a₁.residency.SameTracking
      (report.used.foldl (fun r v => r.touch ⟨id, v⟩) a₁.residency) :=
    sameTracking_touchEach (List.nodup_append.mp ht₁.nodup).1 report.used
  refine ⟨{ a₁ with residency := report.used.foldl (fun r v => r.touch ⟨id, v⟩) a₁.residency }, c₁, ?_,
    hstep.trans (.of_tracking hstep.sound hsame), hbook, ht₁.of_tracking hsame⟩
  rw [Act.bind_ok hrun]
  rfl

/-- A batch for a set that is not there does nothing. -/
theorem applyBatch_absent {entries : List (ValueId × Tuple)} (hs : a.Sound c) (ht : a.Tidy extra)
    (hset : a.set? id = none) :
    Performs (applyBatch id entries) (Book.applyBatch id entries) a c c
      (a.strandedBy (a.book c) (.batch id entries) ++ extra) := by
  have hkind : (a.book c).kind? id = none := by simp [book, hset]
  have hrun : applyBatch id entries a = .ok () a := by
    rw [applyBatch_eq id hs, Act.bind_ok (onSet?_none hset)]
    rfl
  have hstranded : a.strandedBy (a.book c) (.batch id entries) = [] := by
    simp only [strandedBy, hkind]
  rw [hstranded]
  exact .of_ok hrun (Book.applyBatch_of_none hkind entries) hs.step_refl rfl ht

/-- The entries of a batch were appended to the lists of a set, all of them or up to the first that is
refused. The lists that came into memory for it, which the report names, are not tracked yet. -/
structure Appended (a : Archive) (c : Contents) (id : SetId) (set : IndexSet)
    (entries : List (ValueId × Tuple)) (extra : List OwnerKey) (a' : Archive) (c' : Contents)
    (report : IndexSet.Report) : Prop where
  step : Step a a' c c'
  tidy : a'.Tidy (report.entered.map (OwnerKey.mk id) ++ extra)
  pageCount_le : a'.pageCount ≤ a.pageCount + entries.length
  nodup : report.entered.Nodup
  mem_iff : ∀ v, v ∈ report.entered ↔
    set.isResident v = false ∧ v ∈ set.kind.reached entries ((a.book c).lists id)
  book_eq : a'.book c' = { a.book c with
    lists := Function.update (a.book c).lists id
      (Act.after (set.kind.extendEach entries) ((a.book c).lists id)) }
  ok : ∀ lists, set.kind.extendEach entries ((a.book c).lists id) = .ok () lists →
    applyBatch id entries a =
      (trackEach id report.entered >>= fun _ => touchEach id report.used) a'
  error : ∀ e lists, set.kind.extendEach entries ((a.book c).lists id) = .error e lists →
    applyBatch id entries a = .error e a'

/-- What a batch does first. -/
theorem appended_spec {entries : List (ValueId × Tuple)} (hs : a.Sound c) (ht : a.Tidy extra)
    (hset : a.set? id = some set) (hentries : ∀ e ∈ entries, set.kind.Holds e.2) :
    ∃ a' c' report, Appended a c id set entries extra a' c' report := by
  have hact := applyBatch_eq id hs entries
  obtain ⟨t, h, report, hstep, hrun, hresident, hnodup, hfresh⟩ :=
    IndexSet.applyEntries_spec a.residency.useThreshold (hs.shelf.atSet hset) hentries
  have hbook := book_of_set hs hset hstep
  have hpages := (IndexSet.adds_applyEntries a.residency.useThreshold entries
    ⟨set, a.shelf.pages⟩).2
  refine ⟨{ a with shelf := a.shelf.withSet id t.item t.pages },
    ⟨Function.update c.lists id h, c.stamps⟩, report, .of_set hs hset hstep, ?_, ?_, hnodup, hfresh, ?_,
    fun lists hext => ?_, fun e lists hext => ?_⟩
  · -- what came into memory is not tracked yet
    refine .of_entered _ ht (nodup_map_key hnodup) (fun k hk => ?_)
      (isResident_withSet _ hset hresident)
    obtain ⟨v, hv, rfl⟩ := List.mem_map.mp hk
    exact (Shelf.isResident_of_some ⟨id, v⟩ hset).trans ((hfresh v).mp hv).1
  · split at hrun <;> rw [Act.after_congr hrun.1] at hpages <;> exact hpages
  · rw [hbook]
    -- the book is compared as it is after the batch, whether it failed or not
    change _ = { a.book c with
      lists := Function.update (a.book c).lists id
        (Act.after (set.kind.extendEach entries) fun v => (c.lists id v).tuples) }
    split at hrun
    · rename_i lists hext
      rw [Act.after_ok hext, hrun.2]
    · rename_i e lists hext
      rw [Act.after_error hext, hrun.2]
  · change set.kind.extendEach entries (fun v => (c.lists id v).tuples) = _ at hext
    rw [hext] at hrun
    rw [hact, Act.bind_ok (onSet?_ok hset hrun.1)]
  · change set.kind.extendEach entries (fun v => (c.lists id v).tuples) = _ at hext
    rw [hext] at hrun
    rw [hact]
    exact Act.bind_error (onSet?_error hset hrun.1)

/-- A batch does to the archive what it does to the book, and fails where it fails there. If it fails, the
lists that it brought into memory are left untracked. -/
theorem applyBatch_spec {entries : List (ValueId × Tuple)} (hs : a.Sound c) (ht : a.Tidy extra)
    (hentries : ∀ set, a.set? id = some set → ∀ e ∈ entries, set.kind.Holds e.2)
    (hroom : (Act.after (applyBatch id entries) a).pageCount ≤ maxPages) :
    ∃ c', Performs (applyBatch id entries) (Book.applyBatch id entries) a c c'
      (a.strandedBy (a.book c) (.batch id entries) ++ extra) := by
  cases hset : a.set? id with
  | none => exact ⟨c, applyBatch_absent hs ht hset⟩
  | some set =>
    obtain ⟨a₁, c₁, report, h⟩ := appended_spec hs ht hset (hentries set hset)
    have hbook₁ := h.book_eq
    cases hext : set.kind.extendEach entries ((a.book c).lists id) with
    | error e lists =>
      -- the batch is not reported
      rw [Act.after_error hext] at hbook₁
      have hstranded := strandedBy_error hset hext h.nodup h.mem_iff
      exact ⟨c₁, .of_error (h.error e lists hext) (Book.applyBatch_of_error (kind?_book hset) hext)
        h.step hbook₁ (h.tidy.perm (hstranded.append_right extra))⟩
    | ok u lists =>
      -- the lists that came in are tracked
      rw [Act.after_ok hext] at hbook₁
      rw [Act.after_congr (h.ok lists hext)] at hroom
      obtain ⟨a₂, c₂, hrun₂, hstep₂, hbook₂, ht₂⟩ := report_spec report h.step.sound h.tidy hroom
      rw [strandedBy_ok hset hext]
      exact ⟨c₂, .of_ok ((h.ok lists hext).trans hrun₂) (Book.applyBatch_of_ok (kind?_book hset) hext)
        (h.step.trans hstep₂) (hbook₂.trans hbook₁) ht₂⟩

end Archive

end EventIndex
