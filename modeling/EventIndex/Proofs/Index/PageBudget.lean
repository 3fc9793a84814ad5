import EventIndex.Proofs.Index.Batches
import EventIndex.Proofs.Index.Fresh
import Mathlib.Data.List.Perm.Subperm

/-! # How many pages a run may take

What is known of an index holds as long as page numbers do not run out (`maxPages`). A page is taken
when a tuple fills one, when a list is written out, and when a slot page is begun, and how long the
lists are bounds how many pages one of them takes. So the length of a run bounds the pages that are
taken in it, whatever its calls are:

* `pageCount_discard_le`: a list of `m` tuples takes `40 * m + 2` pages when it leaves memory;
* `pageCount_track_le`, `pageCount_perform_le`: an access writes one list out at most, and a task no
  more of them than it has entries;
* `Ledger.Bounded.next`: each call adds one write, and no task has more entries than there were writes;
* `room_of_length`: a hundred calls never run out of page numbers.
-/

namespace EventIndex

/-- The pages that a list of at most `m` tuples may take when it leaves memory. -/
def pagesToLeave (m : Nat) : Nat := 40 * m + 2

/-! ## Leaving memory -/

/-- A list that leaves memory is written out: its tail, its directory and perhaps a slot page. -/
theorem IndexSet.Sound.pageCount_discard_le {s : Over IndexSet} {held : ValueId → Holding}
    {rest : List Nat} {value : ValueId} {m : Nat} (hs : Sound s held rest)
    (hlist : (held value).tuples.length ≤ m) :
    (Act.after (discard value) s).pageCount ≤ s.pageCount + pagesToLeave m := by
  cases hresident : s.item.isResident value with
  | false =>
    rw [Act.after_ok (discard_absent hresident)]
    exact Nat.le_add_right _ _
  | true =>
    obtain ⟨store, uses, hget⟩ := isResident_iff.mp hresident
    obtain ⟨hheld, -, hlies⟩ := hs.held_resident hget
    -- a directory has an entry for each sealed page, and no such page is empty
    have hsize : store.directory.size ≤ m := by
      refine Nat.le_trans hlies.directory_size_le ?_
      rw [hheld] at hlist
      exact hlist
    have hcurrent : (Over.current : Act (Over IndexSet) IndexSet) s = .ok s.item s := rfl
    unfold discard
    rw [Act.after_bind_ok hcurrent, hget]
    refine Nat.le_trans (adds_writeOut store value _ s).2 ?_
    rw [pagesToLeave]
    omega

namespace Shelf

variable {s : Shelf} {held : SetId → ValueId → Holding} {rest : List Nat} {key : OwnerKey} {m : Nat}

/-- The sets of a shelf share the file, and a list leaves one of them. -/
theorem Sound.pageCount_discard_le (hs : s.Sound held rest)
    (hlist : (held key.set key.value).tuples.length ≤ m) :
    (Act.after (discard key) s).pageCount ≤ s.pageCount + pagesToLeave m := by
  cases hset : s.sets[key.set]? with
  | none =>
    rw [discard, Act.after_ok (onSet?_none hset)]
    exact Nat.le_add_right _ _
  | some set =>
    have hle := (hs.atSet hset).pageCount_discard_le hlist
    cases hrun : IndexSet.discard key.value ⟨set, s.pages⟩ with
    | ok b t =>
      rw [Act.after_ok hrun] at hle
      rw [discard, Act.after_ok (onSet?_ok hset hrun)]
      exact hle
    | error e t =>
      rw [Act.after_error hrun] at hle
      rw [discard, Act.after_error (onSet?_error hset hrun)]
      exact hle

end Shelf

/-- Asking for a list to be written out takes no page besides. -/
theorem Residency.pageCount_evict_le (r : Residency) (s : Shelf) (key : OwnerKey) :
    (Act.after (evict Shelf.discard key) (r, s)).2.pageCount ≤
      (Act.after (Shelf.discard key) s).pageCount := by
  cases howner : r.owners.contains key.set with
  | false =>
    simp only [Act.after, evict, howner, Bool.false_eq_true, if_false]
    exact Shelf.grows_onSet? key.set (IndexSet.grows_discard key.value) s
  | true =>
    cases hrun : Shelf.discard key s with
    | error e s' =>
      simp only [Act.after, evict, howner, if_true, hrun]
      exact Nat.le_refl _
    | ok b s' =>
      rw [Act.after_ok hrun]
      simp only [Act.after, evict, howner, if_true, hrun]
      rcases b with _ | _ | _ <;> exact Nat.le_refl _

namespace Archive

variable {a a' : Archive} {c c' : Contents} {id : SetId} {value : ValueId} {key : OwnerKey}
  {extra : List OwnerKey} {m : Nat}

/-- A list that comes into memory drives out one other at most: as many were tracked before as the
capacity allows. -/
theorem length_victims_le (key : OwnerKey)
    (hbounded : a.residency.tracked.length ≤ a.residency.capacity) :
    (a.residency.place key).1.length ≤ 1 := by
  have hfilter := List.length_filter_le (· ≠ key) a.residency.tracked
  rw [← List.length_reverse, (a.residency.place_spec key).1, List.length_drop, List.length_cons]
  omega

/-- An access that is reported puts one list more among the tracked ones, so one of them leaves memory at
most. -/
theorem pageCount_track_le (key : OwnerKey) (hs : a.Sound c) (ht : a.Tidy extra)
    (hlists : ∀ id v, ((a.book c).lists id v).length ≤ m) :
    (Act.after (track key) a).pageCount ≤ a.pageCount + pagesToLeave m := by
  rw [pageCount, shelf_track]
  have hvictims := length_victims_le key ht.bounded
  rcases hplace : a.residency.place key with ⟨victims, residency⟩
  rw [Act.after_congr (track_eq hs.isOpen hplace)]
  rw [hplace] at hvictims
  cases victims with
  | nil => exact Nat.le_add_right _ _
  | cons victim others =>
    have hothers : others.length = 0 := Nat.le_zero.mp (Nat.le_of_succ_le_succ hvictims)
    obtain rfl : others = [] := List.eq_nil_of_length_eq_zero hothers
    have hone : Act.after (Residency.evictEach Shelf.discard [victim]) (residency, a.shelf) =
        Act.after (Residency.evict Shelf.discard victim) (residency, a.shelf) :=
      Act.after_bind_pure (Residency.evict Shelf.discard victim) (residency, a.shelf)
    rw [hone]
    exact Nat.le_trans (Residency.pageCount_evict_le residency a.shelf victim)
      (hs.shelf.pageCount_discard_le (hlists victim.set victim.value))

/-- Lists that come in one after another drive out no more than so many others. -/
theorem pageCount_trackEach_le {values : List ValueId} (hs : a.Sound c)
    (ht : a.Tidy (values.map (OwnerKey.mk id) ++ extra))
    (hlists : ∀ id v, ((a.book c).lists id v).length ≤ m)
    (hroom : a.pageCount + values.length * pagesToLeave m ≤ maxPages) :
    (Act.after (trackEach id values) a).pageCount ≤ a.pageCount + values.length * pagesToLeave m := by
  induction values generalizing a c with
  | nil => exact Nat.le_add_right _ _
  | cons value values ih =>
    rw [List.length_cons, Nat.add_one_mul] at hroom ⊢
    have hle := pageCount_track_le ⟨id, value⟩ hs ht hlists
    obtain ⟨a₁, c₁, hrun₁, hstep₁, hbook₁, ht₁⟩ := track_spec hs ht (Nat.le_trans hle (by omega))
    rw [Act.after_ok hrun₁] at hle
    rw [← hbook₁] at hlists
    have hrest := ih hstep₁.sound ht₁ hlists (by omega)
    rw [trackEach, Act.after_bind_ok hrun₁]
    omega

end Archive

/-! ## Tasks -/

/-- The entries of a batch, or the timestamps. -/
def Task.size : Task → Nat
  | .batch _ entries => entries.length
  | .stamps times => times.length

/-- A task has no more tuples for a list than entries. -/
theorem Task.length_tuplesFor_le (t : Task) (set : SetId) (value : ValueId) :
    (t.tuplesFor set value).length ≤ t.size := by
  cases t with
  | batch id entries =>
    rw [tuplesFor]
    split
    · rw [entriesOf, List.length_map]
      exact List.length_filter_le _ _
    · exact Nat.zero_le _
  | stamps times => exact Nat.zero_le _

/-- The lists of a book do not grow by more than there is in a task, whether it fails or not. -/
theorem Book.length_after_perform_le (t : Task) (b : Book) (set : SetId) (value : ValueId) :
    ((Act.after (perform t) b).lists set value).length ≤ (b.lists set value).length + t.size := by
  cases t with
  | batch id entries =>
    cases hkind : b.kind? id with
    | none =>
      have hrun : perform (.batch id entries) b = .ok () b := applyBatch_of_none hkind entries
      rw [Act.after_ok hrun]
      exact Nat.le_add_right _ _
    | some k =>
      obtain ⟨t, hbatch, -, -, hlists⟩ := exists_trial hkind entries
      rw [hlists, List.length_append, Trial.keptPart, tuplesIn_singleton]
      have hle := (Task.batch t.set t.kept).length_tuplesFor_le set value
      -- what is kept of a batch is a part of it
      have hkept : t.kept.length + t.lost.length = entries.length := by
        rw [← List.length_append]
        exact congrArg (fun batch => batch.2.length) hbatch
      have hsize : (Task.batch t.set t.kept).size = t.kept.length := rfl
      show _ ≤ _ + entries.length
      omega
  | stamps times =>
    obtain ⟨stamps, hafter, -⟩ := after_stamps times b
    rw [hafter]
    exact Nat.le_add_right _ _

/-- A batch comes to no more lists than it has entries. -/
theorem Kind.length_reached_le (k : Kind) (entries : List (ValueId × Tuple))
    (lists : ValueId → List Tuple) : (k.reached entries lists).length ≤ entries.length := by
  induction entries generalizing lists with
  | nil => exact Nat.le_refl _
  | cons entry entries ih =>
    unfold reached
    split
    · exact Nat.succ_le_succ (ih _)
    · exact Nat.succ_le_succ (Nat.zero_le _)

/-- The pages that a task may take when the lists have `m` tuples at most after it: one for each of its
tuples, and those of the lists that have to leave. -/
def Task.pagesToPerform (t : Task) (m : Nat) : Nat := t.size + t.size * pagesToLeave m

namespace Archive

variable {a a' : Archive} {c c' : Contents} {id : SetId} {value : ValueId} {key : OwnerKey}
  {extra : List OwnerKey} {m : Nat}

/-- Each entry of a batch takes a page at most when it is appended, and each list that it brought into
memory may push another one out. -/
theorem pageCount_applyBatch_le {entries : List (ValueId × Tuple)} (hs : a.Sound c) (ht : a.Tidy extra)
    (hentries : ∀ set, a.set? id = some set → ∀ e ∈ entries, set.kind.Holds e.2)
    (hlists : ∀ set v, ((Act.after (Book.perform (.batch id entries)) (a.book c)).lists set v).length ≤ m)
    (hroom : a.pageCount + (Task.batch id entries).pagesToPerform m ≤ maxPages) :
    (Act.after (applyBatch id entries) a).pageCount ≤
      a.pageCount + (Task.batch id entries).pagesToPerform m := by
  cases hset : a.set? id with
  | none =>
    have hrun : applyBatch id entries a = .ok () a := by
      rw [applyBatch_eq id hs, Act.bind_ok (onSet?_none hset)]
      rfl
    rw [Act.after_ok hrun]
    exact Nat.le_add_right _ _
  | some set =>
    obtain ⟨a₁, c₁, report, h⟩ := appended_spec hs ht hset (hentries set hset)
    have hcount := h.pageCount_le
    rw [Task.pagesToPerform, Task.size] at hroom ⊢
    cases hext : set.kind.extendEach entries ((a.book c).lists id) with
    | error e lists =>
      rw [Act.after_error (h.error e lists hext)]
      omega
    | ok u lists =>
      -- each list that came in is one that the batch comes to
      have hentered : report.entered.length ≤ entries.length := by
        refine Nat.le_trans ?_ (set.kind.length_reached_le entries ((a.book c).lists id))
        exact (List.subperm_of_subset h.nodup fun v hv => ((h.mem_iff v).mp hv).2).length_le
      have hmul := Nat.mul_le_mul_right (pagesToLeave m) hentered
      have hbook : a₁.book c₁ = Act.after (Book.perform (.batch id entries)) (a.book c) := by
        rw [h.book_eq, Act.after_ok hext]
        exact (Act.after_ok (Book.applyBatch_of_ok (kind?_book hset) hext)).symm
      rw [← hbook] at hlists
      have hle := pageCount_trackEach_le h.step.sound h.tidy hlists (by omega)
      obtain ⟨a₂, c₂, hrun₂, -⟩ := trackEach_spec h.step.sound h.tidy (Nat.le_trans hle (by omega))
      rw [Act.after_ok hrun₂] at hle
      rw [Act.after_congr (h.ok lists hext), Act.after_bind_ok hrun₂]
      show a₂.pageCount ≤ _
      omega

/-- What is done to the file of an archive adds the pages that it adds by itself. -/
theorem adds_onPages {α : Type} {k : Nat} {act : Act PageFile α}
    (h : Act.Adds PageFile.pageCount k act) : Act.Adds pageCount k (onPages act) := by
  intro a
  have hcount : (Act.after (onPages act) a).pageCount = (Act.after act a.shelf.pages).pageCount := by
    simp only [Act.after, onPages]
    cases act a.shelf.pages <;> rfl
  rw [hcount]
  exact h a.shelf.pages

/-- A timestamp fills a page at most. -/
theorem adds_appendStamp (t : Tuple) : Act.Adds pageCount 1 (appendStamp t) := by
  intro a
  have hstep := Store.adds_append a.stamps t a.shelf.pages
  have hcount : (Act.after (appendStamp t) a).pageCount =
      (Act.after (a.stamps.append t) a.shelf.pages).pageCount := by
    simp only [Act.after, appendStamp]
    cases a.stamps.append t a.shelf.pages <;> rfl
  rw [hcount]
  exact hstep

/-- Each of several timestamps fills a page at most. -/
theorem adds_appendStamps (ts : List Tuple) : Act.Adds pageCount ts.length (appendStamps ts) := by
  induction ts with
  | nil => exact .pure _
  | cons t ts ih =>
    refine ((adds_appendStamp t).bind fun _ => ih).mono ?_
    rw [List.length_cons]
    omega

/-- Timestamps push no list out, so their task takes the pages that they fill and no others. -/
theorem pageCount_perform_le {t : Task} (hs : a.Sound c) (ht : a.Tidy extra) (hfits : Fits (a.book c) t)
    (hlists : ∀ set v, ((Act.after (Book.perform t) (a.book c)).lists set v).length ≤ m)
    (hroom : a.pageCount + t.pagesToPerform m ≤ maxPages) :
    (Act.after (perform t) a).pageCount ≤ a.pageCount + t.pagesToPerform m := by
  cases t with
  | batch id entries =>
    have hentries : ∀ set, a.set? id = some set → ∀ e ∈ entries, set.kind.Holds e.2 := by
      intro set hset
      exact hfits set.kind (kind?_book hset)
    exact pageCount_applyBatch_le hs ht hentries hlists hroom
  | stamps times =>
    have hle := (adds_appendStamps times a).2
    exact Nat.le_trans hle (Nat.add_le_add_left (Nat.le_add_right _ _) _)

/-! ## Look-ups -/

/-- A use that is reported takes no page, and a list that is entered may push another one out. -/
theorem pageCount_reported_le {view : Snapshot} {access : Access} (hs : a.Sound c)
    (ht : a.Tidy (unreported ⟨id, value⟩ extra access))
    (hlists : ∀ id v, ((a.book c).lists id v).length ≤ m) :
    (Act.after (reported id value view access) a).pageCount ≤ a.pageCount + pagesToLeave m := by
  cases access with
  | entered =>
    have hafter : Act.after (reported id value view .entered) a = Act.after (track ⟨id, value⟩) a :=
      Act.after_bind_pure (track ⟨id, value⟩) a
    rw [hafter]
    exact pageCount_track_le _ hs ht hlists
  | used => exact Nat.le_add_right _ _
  | quiet => exact Nat.le_add_right _ _

/-- A look-up reads a list into memory, which takes no page, and reports the access. -/
theorem pageCount_lookUp_le (hs : a.Sound c) (ht : a.Tidy extra) {set : IndexSet}
    (hset : a.set? id = some set) (hlists : ∀ id v, ((a.book c).lists id v).length ≤ m) :
    (Act.after (lookUp id value) a).pageCount ≤ a.pageCount + pagesToLeave m := by
  obtain ⟨a₁, c₁, access, view, h⟩ := lookedUp_spec value hs ht hset
  have hcount := h.pageCount_le
  rw [← h.book_eq] at hlists
  rw [Act.after_congr h.act_eq]
  exact Nat.le_trans (pageCount_reported_le h.step.sound h.tidy hlists) (by omega)

/-- A list that is discarded leaves memory, whether it is tracked or not. -/
theorem pageCount_discard_le (hs : a.Sound c) (hlists : ∀ id v, ((a.book c).lists id v).length ≤ m) :
    (Act.after (discard id value) a).pageCount ≤ a.pageCount + pagesToLeave m := by
  rw [pageCount, shelf_discard hs]
  exact hs.shelf.pageCount_discard_le (hlists id value)

end Archive

/-! ## Ledgers -/

namespace Ledger

variable {n m : Nat} {l l₁ : Ledger} {kind? : SetId → Option Kind}

/-- A ledger after `m` calls at most. No more than `m` writes wait together, and each list has got `m` more
tuples at most from each of `m` tasks. -/
structure Bounded (l : Ledger) (m : Nat) : Prop where
  pending : ∀ id, (l.pending id).entries.size ≤ m
  stamps : l.timeline.pending.size ≤ m
  queued : ∀ queue ∈ l.staffed.pool.queues, ∀ t, Job.task t ∈ queue → t.size ≤ m
  lists : ∀ id value, (l.book.lists id value).length ≤ m * m

/-- What is bounded is bounded by more. -/
theorem Bounded.mono (h : l.Bounded m) {k : Nat} (hle : m ≤ k) : l.Bounded k where
  pending id := Nat.le_trans (h.pending id) hle
  stamps := Nat.le_trans h.stamps hle
  queued queue hqueue t ht := Nat.le_trans (h.queued queue hqueue t ht) hle
  lists id value := Nat.le_trans (h.lists id value) (Nat.mul_le_mul hle hle)

/-- A pending batch may be replaced by one that is not larger than the bound. -/
theorem Bounded.withPending (h : l.Bounded m) {id : SetId} {batch : Batch}
    (hsize : batch.entries.size ≤ m) :
    Bounded { l with pending := Function.update l.pending id batch } m where
  pending other := by
    show (Function.update l.pending id batch other).entries.size ≤ m
    by_cases hother : other = id
    · rw [hother, Function.update_self]
      exact hsize
    · rw [Function.update_of_ne hother]
      exact h.pending other
  stamps := h.stamps
  queued := h.queued
  lists := h.lists

/-- The pending timestamps may be replaced by as many as the bound. -/
theorem Bounded.withTimeline (h : l.Bounded m) {timeline : Timeline}
    (hsize : timeline.pending.size ≤ m) : Bounded { l with timeline } m :=
  ⟨h.pending, hsize, h.queued, h.lists⟩

/-- A task that is handed on waits in one of the queues, or is applied at once where there is no worker. -/
theorem Bounded.hand (h : l.Bounded m) (hr : l.staffed.pool.Routed) {t : Task} (ht : t.size ≤ m) :
    (l.hand t).Bounded m where
  pending := h.pending
  stamps := h.stamps
  queued queue hqueue t' ht' := by
    rw [staffed_hand hr] at hqueue
    rcases Recorder.mem_enqueue hqueue ht' with heq | ⟨queue', hqueue', hmem⟩
    · cases heq
      exact ht
    · exact h.queued queue' hqueue' t' hmem
  lists := by
    rw [book_hand hr]
    exact h.lists

/-- What waits is handed on as one task. -/
theorem Bounded.ends (h : l.Bounded m) (hr : l.staffed.pool.Routed) (hends : l.Ends l₁) :
    l₁.Bounded m := by
  cases hends with
  | stay => exact h
  | handOn id =>
    have hcleared : Bounded { l with
        pending := Function.update l.pending id (l.pending id).cleared } m :=
      h.withPending (Nat.zero_le _)
    refine hcleared.hand hr ?_
    rw [Task.size, Array.length_toList]
    exact h.pending id
  | handOnStamps =>
    have hcleared : Bounded { l with timeline := l.timeline.cleared } m :=
      h.withTimeline (Nat.zero_le _)
    refine hcleared.hand hr ?_
    rw [Task.size, Array.length_toList]
    exact h.stamps

/-- The lists after a task that waited. -/
theorem Bounded.length_perform_le (h : l.Bounded m) {queue : List (Job Task)} {t : Task}
    (hqueue : queue ∈ l.staffed.pool.queues) (ht : Job.task t ∈ queue) (id : SetId) (value : ValueId) :
    ((Act.after (Book.perform t) l.book).lists id value).length ≤ (m + 1) * (m + 1) := by
  have hgrown := Book.length_after_perform_le t l.book id value
  have hsize := h.queued queue hqueue t ht
  have hlist := h.lists id value
  rw [Nat.add_mul, Nat.mul_add, Nat.mul_one, Nat.one_mul]
  omega

/-- A job leaves its queue. -/
theorem Bounded.pop (h : l.Bounded m) {i : Nat} {job : Job Task} {rest : List (Job Task)}
    (hget : l.staffed.pool.queues[i]? = some (job :: rest)) {queue : List (Job Task)}
    (hqueue : queue ∈ l.staffed.pool.queues.set i rest) {t : Task} (ht : Job.task t ∈ queue) :
    t.size ≤ m := by
  rcases List.mem_or_eq_of_mem_set hqueue with hmem | rfl
  · exact h.queued queue hmem t ht
  · exact h.queued _ (List.mem_of_getElem? hget) t (List.mem_cons_of_mem _ ht)

/-- A task that is applied makes a list longer by its own entries at most. -/
theorem Bounded.work (h : l.Bounded m) (i : Nat) :
    Bounded { l with staffed := l.staffed.work Book.perform i } (m + 1) := by
  have hmono := h.mono (Nat.le_succ m)
  rcases Recorder.work_cases Book.perform l.staffed i with
    hwork | ⟨t, rest, hget, hwork⟩ | ⟨rest, hget, hwork⟩
  all_goals
    rw [hwork]
  · exact hmono
  · refine ⟨hmono.pending, hmono.stamps, fun queue hqueue u hu => ?_,
      h.length_perform_le (List.mem_of_getElem? hget) List.mem_cons_self⟩
    rw [Recorder.queues_record] at hqueue
    exact hmono.pop hget hqueue hu
  · exact ⟨hmono.pending, hmono.stamps, fun queue hqueue u hu => hmono.pop hget hqueue hu, hmono.lists⟩

/-- A call begins with one write more at most. -/
theorem Bounded.begins (h : l.Bounded m) {call : Call n} (hbegins : l.Begins call l₁) :
    l₁.Bounded (m + 1) := by
  have hmono := h.mono (Nat.le_succ m)
  cases hbegins with
  | push set value key role =>
    refine hmono.withPending ?_
    rw [Batch.push, Array.size_push]
    exact Nat.succ_le_succ (h.pending set)
  | register =>
    refine hmono.withTimeline ?_
    rw [Array.size_push]
    exact Nat.succ_le_succ h.stamps
  | refuse => exact hmono
  | work worker => exact h.work worker
  | raiseBarriers =>
    refine ⟨hmono.pending, hmono.stamps, fun queue hqueue t ht => ?_, hmono.lists⟩
    obtain ⟨queue', hqueue', rfl⟩ := List.mem_map.mp hqueue
    exact hmono.queued queue' hqueue' t (by simpa using ht)
  | takeError => exact ⟨hmono.pending, hmono.stamps, hmono.queued, hmono.lists⟩
  | idle => exact hmono

/-- Every call makes one more of everything at most. -/
theorem Bounded.next (h : l.Bounded m) (hs : l.Sound kind?) (call : Call n) :
    (l.next call).Bounded (m + 1) := by
  obtain ⟨l₁, hbegins, hends⟩ := next_steps hs call
  exact (h.begins hbegins).ends (hbegins.sound hs).routed hends

end Ledger

/-! ## Runs -/

namespace Recorder

variable {n m : Nat} {r : Recorder} {c : Contents} {extra : List OwnerKey}

/-- The pages that each of `m` calls may take. -/
def pagesToCall (m : Nat) : Nat := m + m * pagesToLeave (m * m)

/-- Longer lists may take more pages. -/
theorem pagesToCall_mono {k : Nat} (hle : m ≤ k) : pagesToCall m ≤ pagesToCall k := by
  have hlists : pagesToLeave (m * m) ≤ pagesToLeave (k * k) :=
    Nat.add_le_add_right (Nat.mul_le_mul_left 40 (Nat.mul_le_mul hle hle)) 2
  exact Nat.add_le_add hle (Nat.mul_le_mul hle hlists)

/-- A task is one of `m` calls, and the lists have `m` tuples more after it. -/
theorem pageCount_work_le (hs : r.Sound n c extra) (hl : (r.ledger c).Bounded m) (worker : Nat)
    (hroom : r.pageCount + pagesToCall (m + 1) ≤ maxPages) :
    (r.next (.work worker : Call n)).pageCount ≤ r.pageCount + pagesToCall (m + 1) := by
  show Archive.pageCount (r.intake.work Archive.perform worker).state ≤ _
  rcases work_cases Archive.perform r.intake worker with
    hwork | ⟨t, rest, hget, hwork⟩ | ⟨rest, hget, hwork⟩
  all_goals
    rw [hwork]
  · exact Nat.le_add_right _ _
  · have hqueue := List.mem_of_getElem? hget
    have hsize := hl.queued _ hqueue t List.mem_cons_self
    have hlists : ∀ set v, ((Act.after (Book.perform t) (r.archive.book c)).lists set v).length ≤
        (m + 1) * (m + 1) := hl.length_perform_le hqueue List.mem_cons_self
    have hcost : t.pagesToPerform ((m + 1) * (m + 1)) ≤ pagesToCall (m + 1) :=
      Nat.add_le_add (Nat.le_succ_of_le hsize)
        (Nat.mul_le_mul_right _ (Nat.le_succ_of_le hsize))
    have hle := Archive.pageCount_perform_le hs.archive hs.tidy (hs.queues _ hqueue t List.mem_cons_self)
      hlists (Nat.le_trans (Nat.add_le_add_left hcost _) hroom)
    exact Nat.le_trans hle (Nat.add_le_add_left hcost _)
  · exact Nat.le_add_right _ _

/-- One list that leaves memory is within the budget of a call. -/
theorem pagesToLeave_le (m : Nat) : pagesToLeave (m * m) ≤ pagesToCall (m + 1) := by
  have hle : m * m ≤ (m + 1) * (m + 1) := Nat.mul_le_mul (Nat.le_succ m) (Nat.le_succ m)
  calc pagesToLeave (m * m)
      ≤ pagesToLeave ((m + 1) * (m + 1)) := Nat.add_le_add_right (Nat.mul_le_mul_left 40 hle) 2
    _ ≤ (m + 1) * pagesToLeave ((m + 1) * (m + 1)) := Nat.le_mul_of_pos_left _ (Nat.succ_pos m)
    _ ≤ pagesToCall (m + 1) := Nat.le_add_left _ _

/-- Writing alone takes no page, and a look-up writes one list out at most. -/
theorem pageCount_next_le (hs : r.Sound n c extra) (hl : (r.ledger c).Bounded m) (call : Call n)
    (hroom : r.pageCount + pagesToCall (m + 1) ≤ maxPages) :
    (r.next call).pageCount ≤ r.pageCount + pagesToCall (m + 1) := by
  -- calls that only write change the writes that are pending and those that wait, and no page
  have hpending : Shelf.IgnoresPending (InvImage (· ≥ ·) Shelf.pageCount) :=
    fun _ _ _ _ _ => Nat.le_refl _
  have hdefer : ∀ t, Act.Leads (InvImage (InvImage (· ≥ ·) Shelf.pageCount) Intake.shelf)
      (Intake.defer t) := Intake.leads_defer
  have hquiet {call : Call n} (h : (r.next call).pageCount ≤ r.pageCount) :
      (r.next call).pageCount ≤ r.pageCount + pagesToCall (m + 1) :=
    Nat.le_trans h (Nat.le_add_right _ _)
  have hleave {k : Nat} (h : k ≤ r.pageCount + pagesToLeave (m * m)) :
      k ≤ r.pageCount + pagesToCall (m + 1) :=
    Nat.le_trans h (Nat.add_le_add_left (pagesToLeave_le m) _)
  cases call with
  | push set value key role =>
    exact hquiet ((Act.Leads.get.bind fun s =>
      leads_onIntake (Intake.leads_pushVia hpending hdefer _ _ _)) r)
  | flushSet set => exact hquiet (leads_onIntake (Intake.leads_flushSetVia hpending hdefer _) r)
  | lookUp set value =>
    obtain ⟨s, hset⟩ := hs.set? set
    have hnext : r.next (.lookUp set value) =
        r.withArchive (Act.after (Archive.lookUp set value) r.archive) :=
      (Act.after_bind_pure (onArchive (Archive.lookUp set value)) r).trans (after_onArchive _ r)
    rw [hnext]
    exact hleave (Archive.pageCount_lookUp_le hs.archive hs.tidy hset hl.lists)
  | discard set value =>
    rw [show r.next (.discard set value) = _ from after_onArchive (Archive.discard set value) r]
    exact hleave (Archive.pageCount_discard_le hs.archive hl.lists)
  | register time => exact hquiet (((leads_registerVia hdefer time).bind fun _ => .pure _) r)
  | flushStamps => exact hquiet (leads_flushStampsVia hdefer r)
  | work worker => exact pageCount_work_le hs hl worker hroom
  | raiseBarriers => exact hquiet (Nat.le_refl _)
  | takeError => exact hquiet (Nat.le_refl _)
  | readPage page =>
    have hnext : r.next (.readPage page : Call n) =
        r.withArchive (Act.after (Archive.onPages (PageFile.read page)) r.archive) :=
      (Act.after_bind_pure (onPages (PageFile.read page)) r).trans (after_onArchive _ r)
    refine hquiet ?_
    rw [hnext]
    exact (Archive.adds_onPages (PageFile.adds_read page) r.archive).2

/-- What all calls of a run take, when there are `m` calls in the end. -/
theorem pageCount_run_le {k : Nat} {kind? : SetId → Option Kind} (hs : r.Sound n c extra)
    (hledger : (r.ledger c).Sound kind?) (hl : (r.ledger c).Bounded k) (calls : List (Call n)) (hlength : k + calls.length ≤ m)
    (hroom : r.pageCount + calls.length * pagesToCall m ≤ maxPages) :
    (r.run calls).pageCount ≤ r.pageCount + calls.length * pagesToCall m := by
  induction calls generalizing r c extra k with
  | nil => exact Nat.le_add_right _ _
  | cons call calls ih =>
    rw [List.length_cons] at hlength
    rw [List.length_cons, Nat.add_one_mul] at hroom ⊢
    have hcost : pagesToCall (k + 1) ≤ pagesToCall m := pagesToCall_mono (by omega)
    have hle := pageCount_next_le hs hl call (by omega)
    obtain ⟨c₁, hstep₁, hledger₁⟩ := next_spec hs call (by omega)
    have hl₁ := hl.next hledger call
    have hs₁ := hledger.next call
    rw [← hledger₁] at hl₁ hs₁
    have hrest := ih hstep₁.sound hs₁ hl₁ (by omega) (by omega)
    show ((r.next call).run calls).pageCount ≤ _
    omega

end Recorder

namespace Setup

variable {u : Setup} {r : Recorder}

/-- Only the header page is there. -/
theorem pageCount_start (h : u.start = .ok r) : r.pageCount = 1 := by
  obtain ⟨pages, hpages, rfl⟩ := start_eq_ok h
  obtain ⟨-, hcount, -⟩ := PageFile.create_spec hpages
  show (u.archive pages).shelf.pages.pageCount = 1
  rw [(u.fresh_archive pages).pages_eq]
  exact hcount

/-- Before the first call there is nothing to be written. -/
theorem bounded_ledger (u : Setup) : u.ledger.Bounded 0 where
  pending id := Nat.le_refl 0
  stamps := Nat.le_refl 0
  queued queue hqueue t ht := by
    rw [List.eq_of_mem_replicate hqueue] at ht
    cases ht
  lists id value := Nat.le_refl 0

/-- The pages after a run from the start, by the number of its calls alone. -/
theorem pageCount_run_le (h : u.start = .ok r) (calls : List (Call u.shapes.length))
    (hroom : 1 + calls.length * Recorder.pagesToCall calls.length ≤ maxPages) :
    (r.run calls).pageCount ≤ 1 + calls.length * Recorder.pagesToCall calls.length := by
  obtain ⟨hs, hledger, -⟩ := start_spec h
  have hone : r.pageCount = 1 := pageCount_start h
  rw [← hone] at hroom ⊢
  have hsound := Ledger.sound_start u
  have hbounded := u.bounded_ledger
  rw [← hledger] at hbounded
  rw [← hledger] at hsound
  exact Recorder.pageCount_run_le hs hsound hbounded calls (Nat.le_of_eq (Nat.zero_add _)) hroom

/-- A hundred calls never run out of page numbers. -/
theorem room_of_length (h : u.start = .ok r) {calls : List (Call u.shapes.length)}
    (hlength : calls.length ≤ 100) : (r.run calls).pageCount ≤ maxPages := by
  have hcalls : calls.length * Recorder.pagesToCall calls.length ≤ 100 * Recorder.pagesToCall 100 :=
    Nat.mul_le_mul hlength (Recorder.pagesToCall_mono hlength)
  have hroom : 1 + 100 * Recorder.pagesToCall 100 ≤ maxPages := by decide
  have hle : 1 + calls.length * Recorder.pagesToCall calls.length ≤ maxPages := by omega
  exact Nat.le_trans (pageCount_run_le h calls hle) hle

end Setup

end EventIndex
