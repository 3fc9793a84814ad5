import EventIndex.Index.Intake
import EventIndex.Proofs.Growth

/-! # Trends — what all operations go along with

A preorder of shelves is a trend when the few operations go along it that change sets and pages: a
batch is appended, a list is looked up or written out, pending writes are replaced, or pages are handed
out. Then everything goes along it that can happen to an archive, to an intake or to an index, whether
it succeeds or fails, and so does every run (`Shelf.Trend`).

That the page count only grows is one trend; the `grows_` lemmas of the larger parts are read off it.

The lemmas follow the layers of the index, from a set on its shelf up to the index with its pool, and
each layer only names the one below. `leads_perform` and `leads_work` say it of tasks, whichever they
are; `leads_pushVia`, `leads_flushSetVia` and `leads_registerVia` of writing, for any way to hand tasks
on. Writing touches no pages, and so these need no more of the relation than that it ignores pending
writes (`Shelf.IgnoresPending`).
-/

namespace EventIndex

open Act

/-! ## Shelves -/

/-- The pages handed out by the file below the index sets. -/
def Shelf.pageCount (s : Shelf) : Nat := s.pages.pageCount

/-- The pages handed out by the file of an archive. -/
def Archive.pageCount (a : Archive) : Nat := a.shelf.pageCount

namespace Shelf

variable {α : Type} {R : Shelf → Shelf → Prop} {Q : Over IndexSet → Over IndexSet → Prop}

/-- A relation that does not look at the writes that are pending. -/
def IgnoresPending (R : Shelf → Shelf → Prop) : Prop :=
  ∀ (s : Shelf) (id : SetId) (set : IndexSet) (batch : Batch), s.sets[id]? = some set →
    R s ⟨s.pages, s.sets.setIfInBounds id { set with pending := batch }⟩

/-- A relation that all operations on the sets and on the pages of a shelf keep to. -/
structure Trend (R : Shelf → Shelf → Prop) : Prop where
  pages : ∀ (s : Shelf) (f : PageFile), s.pages.pageCount ≤ f.pageCount → R s ⟨f, s.sets⟩
  pending : IgnoresPending R
  applyEntries : ∀ id useThreshold entries,
    Leads R (onSet? id (IndexSet.applyEntries useThreshold entries))
  lookUp : ∀ id useThreshold value, Leads R (onSet? id (IndexSet.lookUp useThreshold value))
  discard : ∀ key, Leads R (discard key)

/-- What an action does to one set, as a change of the shelf. -/
theorem leads_onSet? [Std.Refl R] {act : Act (Over IndexSet) α} (id : SetId) (h : Leads Q act)
    (hset : ∀ (s : Shelf) (set : IndexSet) (t : Over IndexSet), s.sets[id]? = some set →
      Q ⟨set, s.pages⟩ t → R s ⟨t.pages, s.sets.setIfInBounds id t.item⟩) :
    Leads R (onSet? id act) := by
  intro ⟨pages, sets⟩
  cases hget : sets[id]? with
  | none =>
    simp only [after, onSet?, hget]
    exact refl _
  | some set =>
    have hstep := h ⟨set, pages⟩
    cases hact : act ⟨set, pages⟩ with
    | ok a t =>
      rw [after_ok hact] at hstep
      simp only [after, onSet?, hget, hact]
      exact hset ⟨pages, sets⟩ set t hget hstep
    | error e t =>
      rw [after_error hact] at hstep
      simp only [after, onSet?, hget, hact]
      exact hset ⟨pages, sets⟩ set t hget hstep

/-- The sets of a shelf share one file, so what an action takes for one set it takes for the shelf. -/
theorem grows_onSet? {act : Act (Over IndexSet) α} (id : SetId) (h : Grows Over.pageCount act) :
    Grows pageCount (onSet? id act) :=
  grows_iff.mpr (leads_onSet? id (grows_iff.mp h) fun _ _ _ _ hle => hle)

/-- That page numbers are never given up is a trend, and the one that bounds on pages are read off. -/
theorem trend_pageCount : Trend (InvImage (· ≤ ·) pageCount) where
  pages _ _ h := h
  pending _ _ _ _ _ := Nat.le_refl _
  applyEntries id _ _ := grows_onSet? id (IndexSet.grows_applyEntries _ _)
  lookUp id _ _ := grows_onSet? id (IndexSet.grows_lookUp _ _)
  discard key := grows_onSet? key.set (IndexSet.grows_discard _)

end Shelf

/-! ## Making room -/

namespace Residency

variable {σ : Type} {R : σ → σ → Prop} {size : σ → Nat} {ask : OwnerKey → Act σ (Option Bool)}

/-- Whatever the owners do when they are asked, the bookkeeping adds nothing to it. -/
theorem leads_evict [Std.Refl R] (h : ∀ key, Leads R (ask key)) (key : OwnerKey) :
    Leads (InvImage R Prod.snd) (evict ask key) := by
  intro ⟨r, s⟩
  have hstep := h key s
  cases howner : r.owners.contains key.set with
  | false =>
    simp only [after, evict, howner, Bool.false_eq_true, if_false]
    exact refl s
  | true =>
    cases hask : ask key s with
    | error e s' =>
      rw [after_error hask] at hstep
      simp only [after, evict, howner, if_true, hask]
      exact hstep
    | ok b s' =>
      rw [after_ok hask] at hstep
      simp only [after, evict, howner, if_true, hask]
      rcases b with _ | _ | _ <;> exact hstep

variable [IsPreorder σ R]

/-- Lists are written out one after another, up to the first that fails. -/
theorem leads_evictEach (h : ∀ key, Leads R (ask key)) (keys : List OwnerKey) :
    Leads (InvImage R Prod.snd) (evictEach ask keys) := by
  induction keys with
  | nil => exact .pure _
  | cons key keys ih => exact (leads_evict h key).bind fun _ => ih

theorem leads_track (h : ∀ key, Leads R (ask key)) (key : OwnerKey) :
    Leads (InvImage R Prod.snd) (track ask key) := by
  intro ⟨r, s⟩
  cases hdisposed : r.isDisposed with
  | true =>
    simp only [after, track, hdisposed, if_true]
    exact refl s
  | false =>
    have hstep := leads_evictEach h (r.place key).1 ((r.place key).2, s)
    simp only [after, track, hdisposed, Bool.false_eq_true, if_false]
    exact hstep

theorem grows_evictEach (h : ∀ key, Grows size (ask key)) (keys : List OwnerKey) :
    Grows (fun s : Residency × σ => size s.2) (evictEach ask keys) :=
  leads_evictEach (fun key => grows_iff.mp (h key)) keys

end Residency

/-! ## The archive -/

namespace Archive

variable {α : Type} {R : Shelf → Shelf → Prop}

theorem leads_onSet? {act : Act (Over IndexSet) α} {id : SetId} (h : Leads R (Shelf.onSet? id act)) :
    Leads (InvImage R shelf) (onSet? id act) :=
  h.onPart Archive.shelf fun a => by
    simp only [after, onSet?]
    cases Shelf.onSet? id act a.shelf <;> rfl

theorem leads_onPages (hR : Shelf.Trend R) {act : Act PageFile α}
    (h : Grows PageFile.pageCount act) : Leads (InvImage R shelf) (onPages act) := by
  intro a
  have hshelf : (after (onPages act) a).shelf = ⟨after act a.shelf.pages, a.shelf.sets⟩ := by
    simp only [after, onPages]
    cases act a.shelf.pages <;> rfl
  show R a.shelf (after (onPages act) a).shelf
  rw [hshelf]
  exact hR.pages a.shelf _ (h a.shelf.pages)

/-- Timestamps lie beside the sets, and appending one may take a page of the common file. -/
theorem leads_appendStamp (hR : Shelf.Trend R) (t : Tuple) :
    Leads (InvImage R shelf) (appendStamp t) := by
  intro a
  have hshelf : (after (appendStamp t) a).shelf =
      ⟨after (a.stamps.append t) a.shelf.pages, a.shelf.sets⟩ := by
    simp only [after, appendStamp]
    cases a.stamps.append t a.shelf.pages <;> rfl
  show R a.shelf (after (appendStamp t) a).shelf
  rw [hshelf]
  exact hR.pages a.shelf _ (Store.grows_append a.stamps t a.shelf.pages)

variable [IsPreorder Shelf R]

/-- The bookkeeping has no pages of its own. -/
theorem leads_onResidency (f : Residency → Residency) :
    Leads (InvImage R shelf) (onResidency f) := fun a => refl a.shelf

theorem leads_checkLive (id : SetId) : Leads (InvImage R shelf) (checkLive id) := by
  refine Leads.get.bind fun a => ?_
  split
  · exact .ofExcept _
  · exact .pure _

theorem leads_track (hR : Shelf.Trend R) (key : OwnerKey) :
    Leads (InvImage R shelf) (track key) :=
  (Residency.leads_track hR.discard key).onPart (fun a : Archive => (a.residency, a.shelf))
    fun a => by
      simp only [after, track]
      cases Residency.track Shelf.discard key (a.residency, a.shelf) <;> rfl

theorem leads_trackEach (hR : Shelf.Trend R) (id : SetId) (values : List ValueId) :
    Leads (InvImage R shelf) (trackEach id values) := by
  induction values with
  | nil => exact .pure _
  | cons value values ih => exact (leads_track hR _).bind fun _ => ih

/-- A batch appends its entries, and reports what came into memory only when none of them failed. -/
theorem leads_applyBatch (hR : Shelf.Trend R) (id : SetId) (entries : List (ValueId × Tuple)) :
    Leads (InvImage R shelf) (applyBatch id entries) := by
  refine Leads.get.bind fun a => ?_
  split
  · exact .pure _
  · refine Leads.get.bind fun b => (leads_onSet? (hR.applyEntries id _ _)).bind fun report => ?_
    split
    · exact .pure _
    · exact (leads_trackEach hR _ _).bind fun _ => leads_onResidency _

theorem leads_appendStamps (hR : Shelf.Trend R) (ts : List Tuple) :
    Leads (InvImage R shelf) (appendStamps ts) := by
  induction ts with
  | nil => exact .pure _
  | cons t ts ih => exact (leads_appendStamp hR t).bind fun _ => ih

theorem leads_perform (hR : Shelf.Trend R) (t : Task) : Leads (InvImage R shelf) (perform t) := by
  cases t with
  | batch set entries => exact leads_applyBatch hR set entries
  | stamps times => exact leads_appendStamps hR times

/-- A look-up reads one set and then reports the list, which may have others written out. -/
theorem leads_lookUp (hR : Shelf.Trend R) (id : SetId) (value : ValueId) :
    Leads (InvImage R shelf) (lookUp id value) := by
  refine (leads_checkLive id).bind fun _ => Leads.get.bind fun a =>
    (leads_onSet? (hR.lookUp id _ _)).bind fun found => ?_
  split
  · exact .throw _
  · split
    · exact (leads_track hR _).bind fun _ => .pure _
    · exact (leads_onResidency _).bind fun _ => .pure _
    · exact (Leads.pure _).bind fun _ => .pure _

/-- Whether the list was in memory or not, no more is done than to ask its set. -/
theorem leads_discard (hR : Shelf.Trend R) (id : SetId) (value : ValueId) :
    Leads (InvImage R shelf) (discard id value) := by
  refine (leads_checkLive id).bind fun _ =>
    (leads_onSet? (hR.discard ⟨id, value⟩)).bind fun found => ?_
  split
  · exact leads_onResidency _
  · exact Leads.get.bind fun _ => .throw _

theorem grows_onPages {act : Act PageFile α} (h : Grows PageFile.pageCount act) :
    Grows pageCount (onPages act) := leads_onPages Shelf.trend_pageCount h

theorem grows_onResidency (f : Residency → Residency) : Grows pageCount (onResidency f) :=
  fun _ => Nat.le_refl _

theorem grows_trackEach (id : SetId) (values : List ValueId) :
    Grows pageCount (trackEach id values) := leads_trackEach Shelf.trend_pageCount id values

theorem grows_lookUp (id : SetId) (value : ValueId) : Grows pageCount (lookUp id value) :=
  leads_lookUp Shelf.trend_pageCount id value

theorem grows_discard (id : SetId) (value : ValueId) : Grows pageCount (discard id value) :=
  leads_discard Shelf.trend_pageCount id value

end Archive

/-! ## The intake -/

/-- The pages handed out by the file below an intake. -/
def Intake.pageCount (s : Intake) : Nat := s.state.pageCount

/-- The pages handed out by the file of an index. -/
def Recorder.pageCount (r : Recorder) : Nat := r.intake.pageCount

namespace Intake

variable {α : Type} {R : Shelf → Shelf → Prop} {hand : Task → Act Intake Unit}

/-- The sets of an intake and their pages. -/
def shelf (s : Intake) : Shelf := s.state.shelf

theorem leads_onArchive {act : Act Archive α} (h : Leads (InvImage R Archive.shelf) act) :
    Leads (InvImage R shelf) (onArchive act) :=
  h.onPart Staffed.state fun s => by
    simp only [after, onArchive]
    cases act s.state <;> rfl

variable [IsPreorder Shelf R]

/-- A task that waits changes no set. -/
theorem leads_defer (t : Task) : Leads (InvImage R shelf) (defer t) := by
  intro s
  have hstate : (after (defer t) s).state = s.state := by
    simp only [after, defer, Staffed.defer]
    cases s.pool.isOpen <;> rfl
  show R s.state.shelf (after (defer t) s).state.shelf
  rw [hstate]
  exact refl _

/-- Pending writes are the one thing of a set that changes while no page does. -/
theorem leads_setPending (hR : Shelf.IgnoresPending R) (id : SetId) (batch : Batch) :
    Leads (InvImage R shelf) (setPending id batch) := by
  refine leads_onArchive fun a => ?_
  rw [after_modify]
  split
  · exact refl _
  · rename_i set hset
    exact hR a.shelf id set batch hset

theorem leads_pending (id : SetId) : Leads (InvImage R shelf) (pending id) := by
  refine Leads.get.bind fun s => ?_
  split <;> exact .pure _

theorem leads_handOn (hR : Shelf.IgnoresPending R) (h : ∀ t, Leads (InvImage R shelf) (hand t))
    (id : SetId) : Leads (InvImage R shelf) (handOn hand id) :=
  (leads_pending id).bind fun _ => (leads_setPending hR id _).bind fun _ => h _

/-- How tasks are handed on is left open: they may wait for a worker, or run at once. -/
theorem leads_pushVia (hR : Shelf.IgnoresPending R) (h : ∀ t, Leads (InvImage R shelf) (hand t))
    (id : SetId) (value : ValueId) (t : Tuple) :
    Leads (InvImage R shelf) (pushVia hand id value t) := by
  refine (leads_onArchive (Archive.leads_checkLive id)).bind fun _ =>
    (leads_pending id).bind fun batch => (leads_setPending hR id _).bind fun _ => ?_
  split
  · exact leads_handOn hR h id
  · exact .pure _

theorem leads_flushSetVia (hR : Shelf.IgnoresPending R) (h : ∀ t, Leads (InvImage R shelf) (hand t))
    (id : SetId) : Leads (InvImage R shelf) (flushSetVia hand id) := by
  refine (leads_onArchive (Archive.leads_checkLive id)).bind fun _ =>
    (leads_pending id).bind fun batch => ?_
  split
  · exact leads_handOn hR h id
  · exact .pure _

/-- What a worker does. -/
theorem leads_work (hR : Shelf.Trend R) (s : Intake) (worker : Nat) :
    R s.shelf (shelf (s.work Archive.perform worker)) := by
  rcases s with ⟨pool, a⟩
  rcases h : pool.queues[worker]? with _ | _ | ⟨t | _, rest⟩ <;> simp only [Staffed.work, h]
  · exact refl _
  · exact refl _
  · have hstep := Archive.leads_perform hR t a
    cases hact : Archive.perform t a with
    | ok v a' =>
      rw [after_ok hact] at hstep
      exact hstep
    | error e a' =>
      rw [after_error hact] at hstep
      exact hstep
  · exact refl _

theorem grows_onArchive {act : Act Archive α} (h : Grows Archive.pageCount act) :
    Grows pageCount (onArchive act) :=
  leads_onArchive (R := InvImage (· ≤ ·) Shelf.pageCount) h

theorem grows_defer (t : Task) : Grows pageCount (defer t) :=
  leads_defer (R := InvImage (· ≤ ·) Shelf.pageCount) t

theorem grows_pushVia (h : ∀ t, Grows pageCount (hand t)) (id : SetId) (value : ValueId)
    (t : Tuple) : Grows pageCount (pushVia hand id value t) :=
  leads_pushVia Shelf.trend_pageCount.pending h id value t

theorem grows_flushSetVia (h : ∀ t, Grows pageCount (hand t)) (id : SetId) :
    Grows pageCount (flushSetVia hand id) := leads_flushSetVia Shelf.trend_pageCount.pending h id

/-- A worker takes pages for its task, or none when there is nothing to do. -/
theorem pageCount_le_work (s : Intake) (worker : Nat) :
    s.pageCount ≤ Intake.pageCount (s.work Archive.perform worker) :=
  leads_work Shelf.trend_pageCount s worker

end Intake

namespace Recorder

variable {α : Type} {R : Shelf → Shelf → Prop} {hand : Task → Act Intake Unit}

/-- The sets of an index and their pages. -/
def shelf (r : Recorder) : Shelf := r.intake.shelf

theorem leads_onIntake {act : Act Intake α} (h : Leads (InvImage R Intake.shelf) act) :
    Leads (InvImage R shelf) (onIntake act) :=
  h.onPart Recorder.intake fun r => by
    simp only [after, onIntake]
    cases act r.intake <;> rfl

theorem leads_onArchive {act : Act Archive α} (h : Leads (InvImage R Archive.shelf) act) :
    Leads (InvImage R shelf) (onArchive act) := leads_onIntake (Intake.leads_onArchive h)

variable [IsPreorder Shelf R]

theorem leads_handOnStamps (h : ∀ t, Leads (InvImage R Intake.shelf) (hand t)) :
    Leads (InvImage R shelf) (handOnStamps hand) := by
  refine Leads.get.bind fun r => Leads.bind (fun r' => ?_) fun _ => leads_onIntake (h _)
  exact refl r'.shelf

/-- An event that is registered touches no set until its timestamps are handed on. -/
theorem leads_registerVia (h : ∀ t, Leads (InvImage R Intake.shelf) (hand t)) (time : Timestamp) :
    Leads (InvImage R shelf) (registerVia hand time) := by
  refine Leads.get.bind fun r => (Leads.ofExcept _).bind fun answer => ?_
  refine Leads.bind (fun r' => refl r'.shelf) fun _ => ?_
  dsimp only
  split
  · exact (leads_handOnStamps h).bind fun _ => .pure _
  · exact .pure _

theorem leads_flushStampsVia (h : ∀ t, Leads (InvImage R Intake.shelf) (hand t)) :
    Leads (InvImage R shelf) (flushStampsVia hand) := by
  refine Leads.get.bind fun r => (Leads.ofExcept _).bind fun _ => ?_
  split
  · exact leads_handOnStamps h
  · exact .pure _

theorem grows_onIntake {act : Act Intake α} (h : Grows Intake.pageCount act) :
    Grows pageCount (onIntake act) :=
  leads_onIntake (R := InvImage (· ≤ ·) Shelf.pageCount) h

theorem grows_onArchive {act : Act Archive α} (h : Grows Archive.pageCount act) :
    Grows pageCount (onArchive act) := grows_onIntake (Intake.grows_onArchive h)

theorem grows_registerVia (h : ∀ t, Grows Intake.pageCount (hand t)) (time : Timestamp) :
    Grows pageCount (registerVia hand time) :=
  leads_registerVia (R := InvImage (· ≤ ·) Shelf.pageCount) h time

theorem grows_flushStampsVia (h : ∀ t, Grows Intake.pageCount (hand t)) :
    Grows pageCount (flushStampsVia hand) :=
  leads_flushStampsVia (R := InvImage (· ≤ ·) Shelf.pageCount) h

end Recorder

end EventIndex
