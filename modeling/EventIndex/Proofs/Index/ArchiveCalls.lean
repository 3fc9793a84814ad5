import EventIndex.Proofs.Index.ArchiveSteps

/-! # What can be asked of an archive

Everything that happens to an archive is a task, a list looked up, or a list written out at once.
`perform_spec` says that a task does what it does to the book; `lookUp_spec` and `discard_spec` say
that the others leave the book as it is, and that the snapshot handed out shows the list of the book.

A snapshot is `Within` a holding when its pages are among the first pages of the holding. It stays
so for good, since no operation takes a sealed page away.

Main results:

* `Archive.perform_spec`: every task does to the archive what it does to the book.
* `Archive.lookUp_spec`: a reader is handed the list of the book.
* `Archive.discard_spec`: a list in memory is written out, and there is an error if there is none.
* `Snapshot.Within.extends`: a snapshot shows what it showed, whatever is added to the list.
-/

namespace EventIndex

/-! ## Snapshots of a holding -/

/-- A snapshot shows the beginning of a list: some of its sealed pages, and a tail. -/
structure Snapshot.Within (v : Snapshot) (h : Holding) (chunks : List (List Tuple)) : Prop where
  kind_eq : h.store.kind = v.kind
  directory_prefix : v.directory.toList <+: h.store.directory.toList
  chunks_prefix : chunks <+: h.chunks
  size_eq : v.directory.size = chunks.length
  sealedLength : v.sealedLength = chunks.flatten.length
  ordered : v.kind.Ordered (v.tuples chunks)

namespace Snapshot

variable {v : Snapshot} {h h' : Holding} {chunks : List (List Tuple)} {d : Disk}

/-- A store shows what it holds. -/
theorem within_self (hlies : h.store.LiesOn d h.chunks) : h.store.snapshot.Within h h.chunks where
  kind_eq := rfl
  directory_prefix := List.prefix_refl _
  chunks_prefix := List.prefix_refl _
  size_eq := by
    have hlen := hlies.view.sealedPages.length_eq
    rwa [Array.length_toList] at hlen
  sealedLength := hlies.view.sealedLength
  ordered := hlies.view.ordered

/-- Whatever comes after, the snapshot shows what it showed. -/
theorem Within.extends (hv : v.Within h chunks) (e : h.Extends h') : v.Within h' chunks where
  kind_eq := e.kind_eq.trans hv.kind_eq
  directory_prefix := hv.directory_prefix.trans e.directory
  chunks_prefix := hv.chunks_prefix.trans e.chunks
  size_eq := hv.size_eq
  sealedLength := hv.sealedLength
  ordered := hv.ordered

/-- The pages of a snapshot lie on the disk that the list lies on. -/
theorem Within.liesOn (hv : v.Within h chunks) (hlies : h.store.LiesOn d h.chunks) :
    v.LiesOn d chunks where
  sealedPages := by
    have hall := hlies.view.sealedPages
    rw [show h.store.snapshot.kind = v.kind from hv.kind_eq] at hall
    exact hall.of_prefix hv.directory_prefix hv.chunks_prefix (by simpa using hv.size_eq)
  sealedLength := hv.sealedLength
  ordered := hv.ordered

end Snapshot

namespace Archive

variable {a : Archive} {c : Contents} {id : SetId} {set : IndexSet} {value : ValueId}
  {extra : List OwnerKey} {t : Tuple}

/-! ## Timestamps -/

theorem appendStamp_spec (hs : a.Sound c) (ht : a.Tidy extra) (hplain : Kind.stamp.Holds t) :
    match Kind.stamp.extend (a.book c).stamps t with
    | .ok stamps => ∃ a' c', appendStamp t a = .ok () a' ∧ Step a a' c c' ∧
        a'.book c' = { a.book c with stamps } ∧ a'.Tidy extra
    | .error e => appendStamp t a = .error e a := by
  rcases a with ⟨residency, ⟨pages, sets⟩, stamps⟩
  have hown : pages.disk.Owned (stamps.sealedPages ++ Shelf.pagesInUse ⟨pages, sets⟩ c.lists) :=
    hs.shelf.owned.perm List.perm_append_comm
  have hspec := Store.append_spec hs.shelf.file hown hs.stamps (t := t)
    (by rw [hs.stampKind]; exact hplain)
  rw [hs.stampKind] at hspec
  show match Kind.stamp.extend (stamps.tuples c.stamps) t with | .ok _ => _ | .error _ => _
  cases hext : Kind.stamp.extend (stamps.tuples c.stamps) t with
  | error e =>
    rw [hext] at hspec
    simp only [appendStamp, hspec]
  | ok ts =>
    rw [hext] at hspec
    obtain ⟨stamps', f', chunks', new, hrun, hf', hx, hlies, hkind, htuples, hpages, hdir, hchunks⟩ :=
      hspec
    -- the pages of the sets are a frame of the timestamps
    have hkeep := hx.kept _ hown
    refine ⟨⟨residency, ⟨f', sets⟩, stamps'⟩, ⟨c.lists, chunks'⟩, ?_, ?_, ?_, ?_⟩
    · simp only [appendStamp, hrun]
    · refine ⟨⟨⟨hf', fun id set hset => ?_, ?_⟩, hlies, hkind, hs.live, hs.owns,
        hs.isOpen⟩, fun id v => .refl _, ⟨hdir, hchunks⟩, rfl, rfl, hx.capacity_eq⟩
      · refine (hs.shelf.lies id set hset).keep hx.capacity_eq (hkeep.mono fun p hp => ?_)
        refine List.mem_append_right _ ((Shelf.pagesInUse_perm c.lists hset).symm.subset ?_)
        exact List.mem_append_left _ hp
      · have hown' := hx.owned (stamps.sealedPages ++ Shelf.pagesInUse ⟨pages, sets⟩ c.lists) hown
        rw [hpages]
        refine hown'.perm ?_
        show (new ++ (stamps.sealedPages ++ Shelf.pagesInUse ⟨pages, sets⟩ c.lists)).Perm
          (Shelf.pagesInUse ⟨pages, sets⟩ c.lists ++ (stamps.sealedPages ++ new))
        exact List.perm_iff_count.mpr fun p => by simp only [List.count_append]; omega
    · simp only [book]
      rw [← htuples]
      rfl
    · exact ⟨ht.capacity_pos, ht.nodup, ht.bounded, ht.resident_iff⟩

theorem appendStamps_spec {times : List Tuple} (hs : a.Sound c) (ht : a.Tidy extra)
    (hplain : ∀ t ∈ times, Kind.stamp.Holds t) :
    ∃ c', Performs (appendStamps times) (Book.appendStamps times) a c c' extra := by
  induction times generalizing a c with
  | nil => exact ⟨c, .of_ok rfl rfl hs.step_refl rfl ht⟩
  | cons t times ih =>
    -- the first one is refused in both, or the others follow in both
    have hspec := appendStamp_spec hs ht (hplain t List.mem_cons_self)
    cases hext : Kind.stamp.extend (a.book c).stamps t with
    | error e =>
      rw [hext] at hspec
      refine ⟨c, .of_error (e := e) ?_ ?_ hs.step_refl rfl ht⟩
      · exact Act.bind_error hspec
      · simp only [Book.appendStamps, hext]
    | ok stamps =>
      rw [hext] at hspec
      obtain ⟨a₁, c₁, hrun₁, hstep₁, hbook₁, ht₁⟩ := hspec
      obtain ⟨c₂, h₂⟩ := ih hstep₁.sound ht₁ fun u hu => hplain u (List.mem_cons_of_mem t hu)
      have hact : appendStamps (t :: times) a = appendStamps times a₁ := Act.bind_ok hrun₁
      have href : Book.appendStamps (t :: times) (a.book c) =
          Book.appendStamps times (a₁.book c₁) := by
        simp only [Book.appendStamps, hext, hbook₁]
      refine ⟨c₂, ?_, ?_, ?_, ?_⟩
      · rw [Act.after_congr hact]
        exact hstep₁.trans h₂.step
      · rw [Act.outcome_congr hact, Act.outcome_congr href]
        exact h₂.outcome_eq
      · rw [Act.after_congr hact, Act.after_congr href]
        exact h₂.book_eq
      · rw [Act.after_congr hact]
        exact h₂.tidy

/-! ## Tasks -/

/-- The tuples of a task have the shape of the lists they go to. -/
def Fits (b : Book) : Task → Prop
  | .batch id entries => ∀ k, b.kind? id = some k → ∀ e ∈ entries, k.Holds e.2
  | .stamps times => ∀ t ∈ times, Kind.stamp.Holds t

/-- A task does to an archive what it does to a book. -/
theorem perform_spec {task : Task} (hs : a.Sound c) (ht : a.Tidy extra) (hfits : Fits (a.book c) task)
    (hroom : (Act.after (perform task) a).pageCount ≤ maxPages) :
    ∃ c', Performs (perform task) (Book.perform task) a c c' (a.strandedBy (a.book c) task ++ extra) := by
  cases task with
  | batch id entries =>
    have hentries : ∀ set, a.set? id = some set → ∀ e ∈ entries, set.kind.Holds e.2 := by
      intro set hset
      exact hfits set.kind (by simp [book, hset])
    exact applyBatch_spec hs ht hentries hroom
  | stamps times => exact appendStamps_spec hs ht hfits

/-! ## Looking up -/

/-- Reports a list that was looked up and hands its snapshot out. -/
def reported (id : SetId) (value : ValueId) (view : Snapshot) (access : Access) :
    Act Archive Snapshot := do
  match access with
  | .entered => track ⟨id, value⟩
  | .used => onResidency (·.touch ⟨id, value⟩)
  | .quiet => pure ()
  return view

/-- The lists in memory that are not tracked, after an access to a list that is not reported yet. -/
def unreported (key : OwnerKey) (extra : List OwnerKey) (access : Access) : List OwnerKey :=
  if access = .entered then key :: extra else extra

/-- An access of one set, as a matter of the archive: a list that came into memory is extra, and one that was
there keeps its place among those in memory. -/
theorem Tidy.of_access {access : Access} {t : Over IndexSet} (ht : a.Tidy extra)
    (hset : a.set? id = some set)
    (hresident : ∀ v, t.item.isResident v = (set.isResident v || v == value))
    (haccess : access = .entered ↔ set.isResident value = false) :
    Tidy { a with shelf := a.shelf.withSet id t.item t.pages } (unreported ⟨id, value⟩ extra access) := by
  unfold unreported
  split
  · -- the list came in, and nobody knows of it yet
    rename_i hentered
    refine Tidy.of_entered [⟨id, value⟩] ht (List.nodup_singleton _) ?_ fun k => ?_
    · intro k hk
      obtain rfl := List.mem_singleton.mp hk
      exact (Shelf.isResident_of_some ⟨id, value⟩ hset).trans (haccess.mp hentered)
    · refine isResident_withSet [value] hset (fun v => ?_) k
      rw [hresident v, List.contains_cons, List.contains_nil, Bool.or_false]
  · rename_i hne
    -- the list was there before
    have hres : set.isResident value = true := by
      rw [haccess] at hne
      simpa using hne
    refine Tidy.of_entered [] ht List.nodup_nil (by simp) fun k => ?_
    refine isResident_withSet [] hset (fun v => ?_) k
    rw [hresident v, List.contains_nil, Bool.or_false]
    by_cases hv : v = value
    · simp [hv, hres]
    · simp [hv]

/-- A list that came into memory is tracked when it is reported, and nothing else is left to do. -/
theorem reported_spec (view : Snapshot) {access : Access} (hs : a.Sound c)
    (ht : a.Tidy (unreported ⟨id, value⟩ extra access))
    (hroom : (Act.after (reported id value view access) a).pageCount ≤ maxPages) :
    ∃ a' c', reported id value view access a = .ok view a' ∧ Step a a' c c' ∧ a'.book c' = a.book c ∧
      a'.Tidy extra := by
  cases access with
  | entered =>
    have hroom₁ : (Act.after (track ⟨id, value⟩) a).pageCount ≤ maxPages :=
      Nat.le_trans (Act.Grows.after_le_bind
        (f := fun _ => (pure view : Act Archive Snapshot)) (fun _ => .pure _) _) hroom
    obtain ⟨a', c', hrun, hstep, hbook, ht'⟩ := track_spec hs ht hroom₁
    exact ⟨a', c', Act.bind_ok hrun, hstep, hbook, ht'⟩
  | used =>
    have hsame := Residency.sameTracking_touch ⟨id, value⟩ (List.nodup_append.mp ht.nodup).1
    exact ⟨_, c, rfl, .of_tracking hs hsame, rfl, ht.of_tracking hsame⟩
  | quiet => exact ⟨a, c, rfl, hs.step_refl, rfl, ht⟩

/-- A list was taken into memory to be read, if it was not there. Its snapshot shows the list of the book,
and the bookkeeping does not know of the access yet. -/
structure LookedUp (a : Archive) (c : Contents) (id : SetId) (value : ValueId) (extra : List OwnerKey)
    (a' : Archive) (c' : Contents) (access : Access) (view : Snapshot) : Prop where
  act_eq : lookUp id value a = reported id value view access a'
  step : Step a a' c c'
  book_eq : a'.book c' = a.book c
  tidy : a'.Tidy (unreported ⟨id, value⟩ extra access)
  pageCount_le : a'.pageCount ≤ a.pageCount
  within_ : view.Within (c'.lists id value) (c'.lists id value).chunks
  tuples_eq : view.tuples (c'.lists id value).chunks = (c.lists id value).tuples

/-- What a look-up does first. -/
theorem lookedUp_spec (value : ValueId) (hs : a.Sound c) (ht : a.Tidy extra) (hset : a.set? id = some set) :
    ∃ a' c' access view, LookedUp a c id value extra a' c' access view := by
  have hget : (get : Act Archive Archive) a = .ok a a := rfl
  obtain ⟨access, view, t, h, hrun, hstep, htuples, hresident, haccess, hview⟩ :=
    IndexSet.lookUp_spec a.residency.useThreshold value
      (hs.shelf.atSet hset)
  have hpages := (IndexSet.adds_lookUp a.residency.useThreshold value ⟨set, a.shelf.pages⟩).2
  rw [Act.after_ok hrun] at hpages
  have hbook : (fun v => (h v).tuples) = (a.book c).lists id := funext htuples
  -- the list is held in another way than before, with the same tuples
  have hself : Function.update c.lists id h id value = h value := by rw [Function.update_self]
  refine ⟨{ a with shelf := a.shelf.withSet id t.item t.pages },
    ⟨Function.update c.lists id h, c.stamps⟩, access, view, ?_, .of_set hs hset hstep, ?_,
    ht.of_access hset hresident haccess, hpages, ?_, ?_⟩
  · unfold lookUp
    rw [Act.bind_ok (hs.checkLive_ok id), Act.bind_ok hget]
    exact Act.bind_ok (onSet?_ok hset hrun)
  · rw [book_of_set hs hset hstep, hbook, Function.update_eq_self]
  · dsimp only
    rw [hself, hview]
    exact Snapshot.within_self (hstep.lies.holds value).lies
  · dsimp only
    rw [hself, hview]
    exact htuples value

/-- The snapshot shows the list of the book; nothing changes for it. -/
theorem lookUp_spec (value : ValueId) (hs : a.Sound c) (ht : a.Tidy extra) (hset : a.set? id = some set)
    (hroom : (Act.after (lookUp id value) a).pageCount ≤ maxPages) :
    ∃ view chunks a' c', lookUp id value a = .ok view a' ∧ Step a a' c c' ∧
      a'.book c' = a.book c ∧ a'.Tidy extra ∧ view.Within (c'.lists id value) chunks ∧
      view.tuples chunks = (c.lists id value).tuples := by
  obtain ⟨a₁, c₁, access, view, h⟩ := lookedUp_spec value hs ht hset
  rw [Act.after_congr h.act_eq] at hroom
  obtain ⟨a₂, c₂, hrun₂, hstep₂, hbook₂, ht₂⟩ := reported_spec view h.step.sound h.tidy hroom
  -- the list may have been written out since, but its sealed pages are still there
  exact ⟨view, (c₁.lists id value).chunks, a₂, c₂, h.act_eq.trans hrun₂, h.step.trans hstep₂,
    hbook₂.trans h.book_eq, ht₂, h.within_.extends (hstep₂.extends_ id value), h.tuples_eq⟩

/-- What changes nothing on disk does nothing to an archive. -/
theorem onPages_spec {α : Type} (act : Act PageFile α) (hs : a.Sound c) (ht : a.Tidy extra)
    (hact : (Act.after act a.shelf.pages).Sound ∧
      (Act.after act a.shelf.pages).disk = a.shelf.pages.disk) :
    Step a (Act.after (onPages act) a) c c ∧ (Act.after (onPages act) a).book c = a.book c ∧
      (Act.after (onPages act) a).Tidy extra := by
  obtain ⟨hfile, hdisk⟩ := hact
  let shelf : Shelf := ⟨Act.after act a.shelf.pages, a.shelf.sets⟩
  have hafter : Act.after (onPages act) a = { a with shelf } := by
    rcases a with ⟨residency, ⟨pages, sets⟩, stamps⟩
    simp only [Act.after, onPages, shelf]
    cases act pages <;> rfl
  have hstep : a.shelf.Step shelf c.lists c.lists := by
    refine ⟨hfile, fun id set hset => ?_, ?_, fun id v => .refl _, rfl⟩
    · show set.LiesOn (Act.after act a.shelf.pages).disk (c.lists id)
      rw [hdisk]
      exact hs.shelf.lies id set hset
    · show a.shelf.pages.disk.Exchange (Act.after act a.shelf.pages).disk _ _
      rw [hdisk]
      exact .refl _ _
  rw [hafter]
  exact ⟨.of_shelf hs hstep rfl rfl rfl, rfl, ⟨ht.capacity_pos, ht.nodup, ht.bounded, ht.resident_iff⟩⟩

/-! ## Writing out at once -/

/-- A list that left memory and is no longer tracked is not extra either. -/
theorem Tidy.of_left {key : OwnerKey} {shelf : Shelf} (ht : a.Tidy extra)
    (hresident : ∀ k, shelf.isResident k = (a.isResident k && k != key)) :
    Tidy ⟨a.residency.forget key, shelf, a.stamps⟩ (extra.erase key) := by
  have htracked : (a.residency.forget key).tracked = a.residency.tracked.filter (· ≠ key) :=
    Recency.keys_erase _ _
  refine ⟨ht.capacity_pos, ?_, ?_, fun k => ?_⟩
  · rw [htracked]
    exact ht.nodup.sublist (List.filter_sublist.append List.erase_sublist)
  · rw [htracked]
    exact Nat.le_trans (List.length_filter_le _ _) ht.bounded
  · have hnodup := (List.nodup_append.mp ht.nodup).2.1
    have hbefore := ht.resident_iff k
    show shelf.isResident k = true ↔ k ∈ (a.residency.forget key).tracked ∨ k ∈ extra.erase key
    rw [hresident k, Bool.and_eq_true, hbefore, htracked, List.mem_filter, hnodup.mem_erase_iff,
      bne_iff_ne, decide_eq_true_iff]
    by_cases hk : k = key <;> simp [hk]

/-- A list that is not in memory is neither tracked nor extra. -/
theorem Tidy.not_mem_of_not_resident {key : OwnerKey} (ht : a.Tidy extra)
    (h : a.isResident key ≠ true) : key ∉ extra := fun hmem =>
  h ((ht.resident_iff key).mpr (.inr hmem))

/-- What follows when a list was written out, or was not there to be. -/
def discarded (id : SetId) (value : ValueId) : Option Bool → Act Archive Unit
  | some true => onResidency (·.forget ⟨id, value⟩)
  | _ => do throw (.notResident (((← get).set? id).map (·.name) |>.getD "") value)

theorem shelf_discarded (answer : Option Bool) (a : Archive) :
    (Act.after (discarded id value answer) a).shelf = a.shelf := by
  rcases answer with _ | _ | _ <;> rfl

/-- Where a list is not in memory, the shelf is asked to write it out and does not. -/
theorem Tidy.of_absent {key : OwnerKey} {shelf : Shelf} (ht : a.Tidy extra) (h : a.isResident key ≠ true)
    (hresident : ∀ k, shelf.isResident k = (a.isResident k && k != key)) : Tidy { a with shelf } extra := by
  refine ⟨ht.capacity_pos, ht.nodup, ht.bounded, fun k => ?_⟩
  rw [← ht.resident_iff k]
  show shelf.isResident k = true ↔ _
  rw [hresident k]
  by_cases hk : k = key
  · rw [hk]
    simp [h]
  · rw [show (k != key) = true by simpa using hk, Bool.and_true]

/-- What the shelf answers decides what follows. -/
theorem discard_eq (hs : a.Sound c) {answer : Option Bool} {shelf : Shelf}
    (hrun : Shelf.discard ⟨id, value⟩ a.shelf = .ok answer shelf) :
    discard id value a = discarded id value answer { a with shelf } := by
  have hrun' : onSet? id (IndexSet.discard value) a = .ok answer { a with shelf } := by
    simp only [onSet?, show Shelf.onSet? id (IndexSet.discard value) a.shelf = _ from hrun]
  unfold discard
  rw [Act.bind_ok (hs.checkLive_ok id)]
  exact Act.bind_ok hrun'

/-- Whatever comes of it, it is the shelf that is asked to write a list out. -/
theorem shelf_discard (hs : a.Sound c) :
    (Act.after (discard id value) a).shelf = Act.after (Shelf.discard ⟨id, value⟩) a.shelf := by
  cases hrun : Shelf.discard ⟨id, value⟩ a.shelf with
  | ok answer shelf =>
    rw [Act.after_congr (discard_eq hs hrun), Act.after_ok hrun]
    exact shelf_discarded answer { a with shelf }
  | error e shelf =>
    have hrun' : onSet? id (IndexSet.discard value) a = .error e { a with shelf } := by
      simp only [onSet?, show Shelf.onSet? id (IndexSet.discard value) a.shelf = _ from hrun]
    have hfail : discard id value a = .error e { a with shelf } := by
      unfold discard
      rw [Act.bind_ok (hs.checkLive_ok id)]
      exact Act.bind_error hrun'
    rw [Act.after_error hfail, Act.after_error hrun]

/-- Without a list to write out there is an error. -/
theorem discarded_absent (id : SetId) (value : ValueId) {answer : Option Bool} (h : answer ≠ some true)
    (a : Archive) :
    ∃ name, discarded id value answer a = .error (.notResident name value) a := by
  have hget : (get : Act Archive Archive) a = .ok a a := rfl
  rcases answer with _ | _ | _
  · exact ⟨_, Act.bind_ok hget⟩
  · exact ⟨_, Act.bind_ok hget⟩
  · exact absurd rfl h

/-- In any case the list is not in memory afterwards. -/
theorem isResident_discard (hs : a.Sound c)
    (hroom : (Act.after (discard id value) a).pageCount ≤ maxPages) :
    (Act.after (discard id value) a).isResident ⟨id, value⟩ = false := by
  rw [pageCount, shelf_discard hs] at hroom
  obtain ⟨shelf, held, hrun, -, -, hresident⟩ := Shelf.discard_spec hs.shelf hroom
  rw [isResident, shelf_discard hs, Act.after_ok hrun, hresident, bne_self_eq_false, Bool.and_false]

/-- A list in memory is written out and no longer tracked; otherwise there is an error, and nothing
changes. -/
theorem discard_spec (hs : a.Sound c) (ht : a.Tidy extra)
    (hroom : (Act.after (discard id value) a).pageCount ≤ maxPages) :
    ∃ c', Step a (Act.after (discard id value) a) c c' ∧
      (Act.after (discard id value) a).book c' = a.book c ∧
      (Act.after (discard id value) a).Tidy (extra.erase ⟨id, value⟩) ∧
      (a.isResident ⟨id, value⟩ = true ∧ Act.outcome (discard id value) a = .ok () ∨
        a.isResident ⟨id, value⟩ = false ∧
          ∃ name, Act.outcome (discard id value) a = .error (.notResident name value)) := by
  rw [pageCount, shelf_discard hs] at hroom
  obtain ⟨shelf, held, hrun, hstep, htuples, hresident⟩ := Shelf.discard_spec hs.shelf hroom
  have hact := discard_eq hs hrun
  have hasked : a.shelf.sets[id]?.map (·.isResident value) = some true ↔
      a.isResident ⟨id, value⟩ = true := by
    simp only [isResident, Shelf.isResident]
    cases a.shelf.sets[id]? <;> simp
  by_cases hres : a.isResident ⟨id, value⟩ = true
  · -- the list leaves memory, and the bookkeeping forgets it
    rw [show a.shelf.sets[(⟨id, value⟩ : OwnerKey).set]?.map _ = some true from hasked.mpr hres]
      at hact
    have hdone : discard id value a =
        .ok () ⟨a.residency.forget ⟨id, value⟩, shelf, a.stamps⟩ := hact
    rw [Act.after_ok hdone, Act.outcome_ok hdone]
    exact ⟨_, .of_shelf hs hstep rfl rfl rfl, book_of_shelf hstep htuples, ht.of_left hresident,
      .inl ⟨hres, rfl⟩⟩
  · -- there is nothing to write out
    obtain ⟨name, hfail⟩ := discarded_absent id value (mt hasked.mp hres) { a with shelf }
    rw [Act.after_error (hact.trans hfail), Act.outcome_error (hact.trans hfail),
      List.erase_of_not_mem (ht.not_mem_of_not_resident hres)]
    exact ⟨_, .of_shelf hs hstep rfl rfl rfl, book_of_shelf hstep htuples, ht.of_absent hres hresident,
      .inr ⟨Bool.not_eq_true _ ▸ hres, name, rfl⟩⟩

end Archive

end EventIndex
