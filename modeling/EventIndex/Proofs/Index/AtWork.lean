import EventIndex.Proofs.Index.Ledger
import EventIndex.Proofs.Index.PendingWrites

/-! # An index at work

`Recorder.Sound` is the invariant of an index at work: its archive is sound and tidy, and what waits
to be applied has the shape of the lists it goes to. `ledger` is what such an index comes to when
its pages are left out.

Two things change an index besides the operations on its archive. Pending writes are replaced
(`withPending`), and tasks are handed to the pool (`handed`); a ledger does the same.

* `ledger_withArchive`, `ledger_withPending`, `ledger_handed`: each change of the index is one of its
  ledger.
* `Sound.withArchive`, `Sound.withPending`, `Sound.handed`: each of them keeps the invariant.
-/

namespace EventIndex

/-! ## An index at work -/

namespace Recorder

variable {n : Nat} {r : Recorder} {c c' : Contents} {a : Archive} {extra extra' : List OwnerKey}

/-- The invariant of an index at work. -/
structure Sound (r : Recorder) (n : Nat) (c : Contents) (extra : List OwnerKey) : Prop where
  archive : r.archive.Sound c
  tidy : r.archive.Tidy extra
  size : r.archive.shelf.sets.size = n
  pending : ∀ id set, r.archive.set? id = some set →
    ∀ e ∈ set.pending.entries.toList, set.kind.Holds e.2
  queues : ∀ queue ∈ r.intake.pool.queues, ∀ t, Job.task t ∈ queue →
    Archive.Fits (r.archive.book c) t
  isOpen : r.intake.pool.isOpen = true
  isLive : r.timeline.isDisposed = false
  stamps : ∀ t ∈ r.timeline.pending.toList, Kind.stamp.Holds t

/-- The ledger of an index that holds some contents. -/
def ledger (r : Recorder) (c : Contents) : Ledger where
  staffed := ⟨r.intake.pool, r.archive.book c⟩
  pending id := ((r.archive.set? id).map (·.pending)).getD (.empty 1)
  timeline := r.timeline

/-- The index with another archive. -/
def withArchive (r : Recorder) (a : Archive) : Recorder := ⟨⟨r.intake.pool, a⟩, r.timeline⟩

/-- All sets of an index at work are there. -/
theorem Sound.set? (hs : r.Sound n c extra) (id : Fin n) :
    ∃ set, r.archive.set? id = some set := by
  have hlt : (id : Nat) < r.archive.shelf.sets.size := by
    rw [hs.size]
    exact id.isLt
  exact ⟨_, Array.getElem?_eq_getElem hlt⟩

/-- Whether tuples fit depends on the kinds of the sets alone. -/
theorem fits_congr {b b' : Book} (h : b'.kind? = b.kind?) {t : Task} (hfits : Archive.Fits b t) :
    Archive.Fits b' t := by
  cases t with
  | batch id entries => exact fun k hk => hfits k (h ▸ hk)
  | stamps times => exact hfits

/-- A step of the archive keeps the kinds of its sets. -/
theorem kind?_of_step (hstep : Archive.Step r.archive a c c') :
    (a.book c').kind? = (r.archive.book c).kind? :=
  funext fun id => Archive.kind?_of_outline hstep.outline_eq id

/-- Archives of the same outline have the same pending writes. -/
theorem pending_of_outline {a a' : Archive} (h : a'.shelf.outline = a.shelf.outline) (id : SetId) :
    (a'.set? id).map (·.pending) = (a.set? id).map (·.pending) := by
  have hget := congrArg (fun os : List IndexSet.Outline => (os[id]?).map (·.pending)) h
  simpa [Shelf.outline, Archive.set?, Function.comp_def, IndexSet.outline] using hget

/-- A step of the archive keeps the rest of the index as it is. -/
theorem Sound.of_step (hs : r.Sound n c extra) (hstep : Archive.Step r.archive a c c')
    (ht : a.Tidy extra') : (r.withArchive a).Sound n c' extra' where
  archive := hstep.sound
  tidy := ht
  size := by
    have hlen := congrArg List.length hstep.outline_eq
    show a.shelf.sets.size = n
    rw [← hs.size]
    simpa [Shelf.outline] using hlen
  pending id set' hset' e he := by
    -- a step changes neither the kind of a set nor what is pending for it
    have hkind := Archive.kind?_of_outline hstep.outline_eq id
    have hpending := pending_of_outline hstep.outline_eq id
    have hset'' : a.set? id = some set' := hset'
    rw [hset''] at hkind hpending
    cases hset : r.archive.set? id with
    | none => rw [hset] at hkind; cases hkind
    | some set =>
      rw [hset, Option.map_some, Option.map_some, Option.some.injEq] at hkind hpending
      rw [hkind]
      exact hs.pending id set hset e (hpending ▸ he)
  queues queue hqueue t ht := fits_congr (kind?_of_step hstep) (hs.queues queue hqueue t ht)
  isOpen := hs.isOpen
  isLive := hs.isLive
  stamps := hs.stamps

/-- With another archive of the same outline only the book of the ledger is another. -/
theorem ledger_withArchive (c c' : Contents) (houtline : a.shelf.outline = r.archive.shelf.outline) :
    (r.withArchive a).ledger c' =
      { r.ledger c with staffed := ⟨r.intake.pool, a.book c'⟩ } := by
  have hpending : ∀ id, (a.set? id).map (·.pending) = (r.archive.set? id).map (·.pending) :=
    pending_of_outline houtline
  simp only [ledger, withArchive, archive, hpending]

/-- What does nothing to the book does nothing to the ledger. -/
theorem ledger_withArchive_of_book (houtline : a.shelf.outline = r.archive.shelf.outline)
    (hbook : a.book c' = r.archive.book c) : (r.withArchive a).ledger c' = r.ledger c := by
  rw [ledger_withArchive c c' houtline, hbook]
  rfl

/-! ### Running actions -/

/-- What an index does to its intake depends on what the intake does, and on nothing else. -/
theorem onIntake_congr {α : Type} {x y : Act Intake α} {s : Intake} (h : x r.intake = y s) :
    onIntake x r = onIntake y ⟨s, r.timeline⟩ := by
  rcases r with ⟨intake, timeline⟩
  simp only [onIntake]
  rw [show x intake = y s from h]

/-- What the intake does is done by the index, and the timeline stays. -/
theorem onIntake_ok {α : Type} {x : Act Intake α} {v : α} {s : Intake}
    (h : x r.intake = .ok v s) : onIntake x r = .ok v ⟨s, r.timeline⟩ := by
  rcases r with ⟨intake, timeline⟩
  simp only [onIntake]
  rw [show x intake = .ok v s from h]

/-- What an index does to its archive is what the archive does, with the rest of the index kept. -/
theorem onArchive_eq {α : Type} (x : Act Archive α) (r : Recorder) :
    onArchive x r = match x r.archive with
      | .ok v a => .ok v (r.withArchive a)
      | .error e a => .error e (r.withArchive a) := by
  rcases r with ⟨⟨pool, a⟩, timeline⟩
  show onIntake (Intake.onArchive x) _ = match x a with | .ok v a => _ | .error e a => _
  cases hx : x a <;> simp only [onIntake, Intake.onArchive, hx] <;> rfl

/-- After an act on the archive the index has the archive that the act has left. -/
theorem after_onArchive {α : Type} (x : Act Archive α) (r : Recorder) :
    Act.after (onArchive x) r = r.withArchive (Act.after x r.archive) := by
  simp only [Act.after, onArchive_eq]
  cases x r.archive <;> rfl

/-- The outcome of an act on the archive is that of the act. -/
theorem outcome_onArchive {α : Type} (x : Act Archive α) (r : Recorder) :
    Act.outcome (onArchive x) r = Act.outcome x r.archive := by
  simp only [Act.outcome, onArchive_eq]
  cases x r.archive <;> rfl

/-- The outcome of an act on the file is that of the act. -/
theorem outcome_onPages_eq {α : Type} (x : Act PageFile α) (r : Recorder) :
    Act.outcome (onPages x) r = Act.outcome x r.archive.shelf.pages := by
  rcases r with ⟨⟨pool, ⟨residency, ⟨pages, sets⟩, stamps⟩⟩, timeline⟩
  show Act.outcome (onArchive (Archive.onPages x)) _ = Act.outcome x pages
  rw [outcome_onArchive]
  simp only [Act.outcome, archive, Archive.onPages]
  cases x pages <;> rfl

/-- After an act on the intake the index has the intake that the act has left. -/
theorem after_onIntake {α : Type} (x : Act Intake α) (r : Recorder) :
    Act.after (onIntake x) r = ⟨Act.after x r.intake, r.timeline⟩ := by
  rcases r with ⟨intake, timeline⟩
  show Act.after (onIntake x) _ = ⟨Act.after x intake, timeline⟩
  cases hx : x intake <;> simp only [Act.after, onIntake, hx]

theorem outcome_onIntake {α : Type} (x : Act Intake α) (r : Recorder) :
    Act.outcome (onIntake x) r = Act.outcome x r.intake := by
  rcases r with ⟨intake, timeline⟩
  show Act.outcome (onIntake x) _ = Act.outcome x intake
  cases hx : x intake <;> simp only [Act.outcome, onIntake, hx]

/-! ### Handing tasks on -/

/-- The index with another task waiting. -/
def handed (r : Recorder) (t : Task) : Recorder := ⟨Act.after (Intake.defer t) r.intake, r.timeline⟩

/-- A task that is handed on has not been applied yet. -/
theorem archive_handed (r : Recorder) (t : Task) : (r.handed t).archive = r.archive := by
  rcases r with ⟨⟨pool, a⟩, timeline⟩
  by_cases h : pool.isOpen = true <;>
    simp [handed, archive, Act.after, Intake.defer, Staffed.defer, h]

/-- While the pool is open every task is taken. -/
theorem defer_eq {s : Intake} (h : s.pool.isOpen = true) (t : Task) :
    Intake.defer t s = .ok () (Act.after (Intake.defer t) s) := by
  simp only [Act.after, Intake.defer, Staffed.defer, h, if_true]

/-- A task is handed on in the ledger as in the index. -/
theorem ledger_handed (r : Recorder) (c : Contents) (t : Task) :
    (r.handed t).ledger c = (r.ledger c).hand t := by
  rcases r with ⟨⟨pool, a⟩, timeline⟩
  by_cases h : pool.isOpen = true <;>
    simp [ledger, handed, Ledger.hand, Act.after, Intake.defer, Staffed.defer, archive, h]

/-- A queue with another job holds that job and those of the queue. -/
theorem mem_enqueue {p : Pool Task} {i : Nat} {job job' : Job Task} {queue : List (Job Task)}
    (hqueue : queue ∈ (p.enqueue i job).queues) (hjob : job' ∈ queue) :
    job' = job ∨ ∃ queue' ∈ p.queues, job' ∈ queue' := by
  obtain ⟨j, hj⟩ := List.mem_iff_getElem?.mp hqueue
  simp only [Pool.enqueue, List.getElem?_modify] at hj
  cases hget : p.queues[j]? with
  | none => simp [hget] at hj
  | some queue' =>
    simp only [hget, Option.map_eq_map, Option.map_some, Option.some.injEq] at hj
    have hmem : queue' ∈ p.queues := List.mem_of_getElem? hget
    split at hj
    · rw [← hj] at hjob
      rcases List.mem_append.mp hjob with hjob | hjob
      · exact .inr ⟨queue', hmem, hjob⟩
      · exact .inl (List.mem_singleton.mp hjob)
    · exact .inr ⟨queue', hmem, hj ▸ hjob⟩

/-- An index stays sound when a task is handed on that fits its sets. -/
theorem Sound.handed (hs : r.Sound n c extra) {t : Task}
    (hfits : Archive.Fits (r.archive.book c) t) : (r.handed t).Sound n c extra := by
  have hrun : Act.after (Intake.defer t) r.intake = ⟨{ r.intake.pool.enqueue
      (t.group % r.intake.pool.queues.length) (.task t) with
      submitted := r.intake.pool.submitted + 1 }, r.intake.state⟩ := by
    simp only [Act.after, Intake.defer, Staffed.defer, hs.isOpen, if_true]
    rfl
  unfold Recorder.handed
  rw [hrun]
  refine ⟨hs.archive, hs.tidy, hs.size, hs.pending, ?_, ?_, hs.isLive, hs.stamps⟩
  · intro queue hqueue t' ht'
    rcases mem_enqueue hqueue ht' with h | ⟨queue', hqueue', h⟩
    · cases h
      exact hfits
    · exact hs.queues queue' hqueue' t' h
  · have hopen := hs.isOpen
    simpa [Pool.isOpen, Pool.enqueue] using hopen

/-! ### Pending writes -/

/-- The index with other pending writes of a set. -/
def withPending (r : Recorder) (id : SetId) (batch : Batch) : Recorder :=
  r.withArchive (r.archive.withPending id batch)

variable {id : SetId} {set : IndexSet} {batch : Batch}

/-- Pending writes are replaced in the ledger as in the index. -/
theorem ledger_withPending (hset : r.archive.set? id = some set) :
    (r.withPending id batch).ledger c =
      { r.ledger c with pending := Function.update (r.ledger c).pending id batch } := by
  have hpending : (fun j => (((r.archive.withPending id batch).set? j).map (·.pending)).getD
      (.empty 1)) = Function.update (r.ledger c).pending id batch := by
    funext j
    by_cases hj : j = id
    · rw [hj, Archive.set?_withPending_self hset, Function.update_self]
      rfl
    · rw [Archive.set?_withPending_of_ne hj, Function.update_of_ne hj]
      rfl
  simp only [withPending, ledger, withArchive, archive]
  rw [show (r.intake.state.withPending id batch).book c = r.intake.state.book c from
    Archive.book_withPending]
  exact congrArg (fun p => (⟨_, p, r.timeline⟩ : Ledger)) hpending

/-- An index stays sound when pending writes are replaced by others of the set's kind. -/
theorem Sound.withPending (hs : r.Sound n c extra) (hset : r.archive.set? id = some set)
    (hfits : ∀ e ∈ batch.entries.toList, set.kind.Holds e.2) :
    (r.withPending id batch).Sound n c extra where
  archive := hs.archive.withPending id batch
  tidy := hs.tidy.withPending id batch
  size := Archive.size_withPending.trans hs.size
  pending other set' hset' e he := by
    by_cases hother : other = id
    · subst hother
      have hself : (r.archive.withPending other batch).set? other = some set' := hset'
      rw [Archive.set?_withPending_self hset, Option.some.injEq] at hself
      subst hself
      exact hfits e he
    · have hsame : (r.archive.withPending id batch).set? other = some set' := hset'
      rw [Archive.set?_withPending_of_ne hother] at hsame
      exact hs.pending other set' hsame e he
  queues queue hqueue t ht := by
    have hbook : (r.withPending id batch).archive.book c = r.archive.book c :=
      Archive.book_withPending
    rw [hbook]
    exact hs.queues queue hqueue t ht
  isOpen := hs.isOpen
  isLive := hs.isLive
  stamps := hs.stamps

/-- No manager refuses to work for a sound index. -/
theorem checkLive_eq (hs : r.Sound n c extra) (id : SetId) :
    Intake.onArchive (Archive.checkLive id) r.intake = .ok () r.intake := by
  rcases r with ⟨⟨pool, a⟩, timeline⟩
  have hlive : Archive.checkLive id a = .ok () a := hs.archive.checkLive_ok id
  simp only [Intake.onArchive, hlive]

/-- The pending writes of a set are read as they stand in the archive. -/
theorem pending_eq {s : Intake} (hset : s.state.set? id = some set) :
    Intake.pending id s = .ok set.pending s := by
  have hget : (get : Act Intake Intake) s = .ok s s := rfl
  unfold Intake.pending
  rw [Act.bind_ok hget, hset]
  rfl

/-- The pending writes of a set are put into the archive, and the pool stays. -/
theorem setPending_eq (id : SetId) (batch : Batch) (s : Intake) :
    Intake.setPending id batch s = .ok () ⟨s.pool, s.state.withPending id batch⟩ := by
  rcases s with ⟨pool, a⟩
  rfl

/-- The pending writes of a set are handed on, and none are left. -/
theorem handOn_eq (hs : r.Sound n c extra) (hset : r.archive.set? id = some set) :
    onIntake (Intake.handOn Intake.defer id) r = .ok ()
      ((r.withPending id set.pending.cleared).handed (.batch id set.pending.entries.toList)) := by
  have hopen : (⟨r.intake.pool, r.archive.withPending id set.pending.cleared⟩ :
      Intake).pool.isOpen = true := hs.isOpen
  have hrun : Intake.handOn Intake.defer id r.intake =
      .ok () (Act.after (Intake.defer (.batch id set.pending.entries.toList))
        ⟨r.intake.pool, r.archive.withPending id set.pending.cleared⟩) := by
    unfold Intake.handOn
    rw [Act.bind_ok (pending_eq hset), Act.bind_ok (setPending_eq _ _ _)]
    exact defer_eq hopen _
  exact onIntake_ok hrun

end Recorder

end EventIndex
