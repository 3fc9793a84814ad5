import EventIndex.Index.Engine
import EventIndex.Proofs.Index.Readings

/-! # An engine that serves readers

Readers look lists up and read pages. `Engine.Same` says that an engine went on and has the lists
that it had, and `lookUp_spec` and `onPages_spec` say what the two ways of reading give.

What was looked up is read later, when other lists may have been written out. `Recorder.later` are
the disks that are still to come; a list that was looked up lies on all of them.

Main results:

* `Recorder.Sound.later_self`, `Recorder.Step.later`: the disks that are to come after a step were to
  come before it.
* `Engine.lookUp_spec`: looking a list up keeps every list, and gives a snapshot for all disks to come.
* `Engine.onPages_spec`, `Engine.onOver_spec`: what is read over all these disks is read in the engine.
-/

namespace EventIndex

open Cursor

variable {n : Nat} {c c' c'' : Contents} {extra : List OwnerKey}

namespace Recorder

variable {r r' r'' : Recorder}

/-- The disks that an index may come to have. -/
def later (r : Recorder) (n : Nat) (c : Contents) : Disks := fun d =>
  ∃ r' c' extra, Step r r' n c c' extra ∧ r'.disk = d

/-- The disk of the moment is among those that are still to come: nothing need be done. -/
theorem Sound.later_self (hs : r.Sound n c extra) : r.later n c r.disk :=
  ⟨r, c, extra, hs.step_refl, rfl⟩

/-- What may come later still may come. -/
theorem Step.later (hstep : Step r r' n c c' extra) {d : Disk} (hd : r'.later n c' d) :
    r.later n c d :=
  let ⟨r'', c'', extra', hstep', hdisk⟩ := hd
  ⟨r'', c'', extra', hstep.trans hstep', hdisk⟩

/-- A list that was looked up is read from every later disk. -/
theorem Sound.liesOnAll (hs : r.Sound n c extra) (id : Fin n) {value : ValueId} {v : Snapshot}
    {chunks : List (List Tuple)} (hv : v.Within (c.lists id value) chunks) :
    v.LiesOnAll (r.later n c) chunks where
  nonempty := ⟨r.disk, hs.later_self⟩
  lies := by
    rintro _ ⟨r', c', extra', hstep, rfl⟩
    obtain ⟨set, hset⟩ := hstep.sound.set? id
    exact hstep.liesOn hset hv

/-- The list of timestamps is read from every later disk. -/
theorem Sound.stampsLieOnAll (hs : r.Sound n c extra) :
    r.archive.stamps.snapshot.LiesOnAll (r.later n c) c.stamps where
  nonempty := ⟨r.disk, hs.later_self⟩
  lies := by
    rintro _ ⟨r', c', extra', hstep, rfl⟩
    have hwithin := Snapshot.within_self (h := ⟨r.archive.stamps, c.stamps, []⟩) hs.archive.stamps
    have hextends : Holding.Extends ⟨r.archive.stamps, c.stamps, []⟩
        ⟨r'.archive.stamps, c'.stamps, []⟩ :=
      ⟨hstep.sound.archive.stampKind.trans hs.archive.stampKind.symm, hstep.stampsExtend.1,
        hstep.stampsExtend.2⟩
    exact (hwithin.extends hextends).liesOn hstep.sound.archive.stamps

/-! ## What the ledger has -/

/-- The lists are ordered as their kind asks for. -/
theorem Sound.lists_ordered (hs : r.Sound n c extra) {id : SetId} {k : Kind}
    (hk : (r.ledger c).book.kind? id = some k) (value : ValueId) :
    k.Ordered ((r.ledger c).book.lists id value) := by
  obtain ⟨set, hset, rfl⟩ := Option.map_eq_some_iff.mp hk
  have hholds := (hs.archive.shelf.lies id set hset).holds value
  rw [← hholds.kind]
  exact hholds.lies.view.ordered

/-- The timestamps never go back. -/
theorem Sound.stamps_ordered (hs : r.Sound n c extra) :
    Kind.stamp.Ordered (r.ledger c).book.stamps :=
  hs.archive.stampKind ▸ hs.archive.stamps.view.ordered

/-- As long as the pages have not run out, the events have not either. -/
theorem Sound.stamps_lt (hs : r.Sound n c extra) (hroom : r.pageCount ≤ maxPages) :
    (r.ledger c).book.stamps.length < 2 ^ 64 := by
  have hlt := (hs.archive.stamps.counts_lt hs.archive.shelf.file
    (hs.archive.shelf.owned.perm List.perm_append_comm) hroom).2
  show (c.stamps.flatten ++ r.archive.stamps.tail.toList).length < 2 ^ 64
  simpa using hlt

end Recorder

/-! ## The sets of an engine -/

namespace Dimension

variable {d : Dimension} {set : SetId}

/-- The kind of the lists of a dimension. -/
def kind (d : Dimension) : Kind := if d.isRoleTagged then .role else .plain

/-- The set that a dimension has is one of the engine's, and of the dimension's kind. -/
theorem shape_of_set (h : d.set? = some set) : setShapes[set]?.map (·.2) = some d.kind := by
  cases d <;> cases h <;> rfl

theorem set_lt (h : d.set? = some set) : set < setShapes.length := by
  cases d <;> cases h <;> decide

/-- A dimension with a set of its own is not split into halves. -/
theorem isSplit_of_set (h : d.set? = some set) : d.isSplit = false := by
  cases d <;> first | rfl | cases h

end Dimension

/-- Both halves of an object are kept in sets of the engine. -/
theorem objectSet_lt (half : Half) : objectSet half < setShapes.length := by
  cases half <;> decide

/-- Both halves of an array index are kept in sets of the engine. -/
theorem arrayIndexSet_lt (half : Half) : arrayIndexSet half < setShapes.length := by
  cases half <;> decide

namespace Engine

variable {e e' e'' : Engine} {α : Type}

/-- The pages in the file of an engine. -/
def pageCount (e : Engine) : Nat := e.recorder.pageCount

/-- The disk of an engine. -/
def disk (e : Engine) : Disk := e.recorder.disk

/-- From an engine to another that has the same lists. -/
structure Same (e e' : Engine) (n : Nat) (c c' : Contents) (extra : List OwnerKey) : Prop where
  step : Recorder.Step e.recorder e'.recorder n c c' extra
  ledger_eq : e'.recorder.ledger c' = e.recorder.ledger c

theorem Same.refl (hs : e.recorder.Sound n c extra) : Same e e n c c extra := ⟨hs.step_refl, rfl⟩

/-- An engine that went on twice and kept its lists went on and kept them. -/
theorem Same.trans (h : Same e e' n c c' extra) (h' : Same e' e'' n c' c'' extra) :
    Same e e'' n c c'' extra :=
  ⟨h.step.trans h'.step, h'.ledger_eq.trans h.ledger_eq⟩

/-! ## Running actions -/

/-- What the index does is done by the engine. -/
theorem onRecorder_ok {act : Act Recorder α} {a : α} {r : Recorder} (h : act e.recorder = .ok a r) :
    onRecorder act e = .ok a { e with recorder := r } := by
  rcases e with ⟨config, recorder, maxObject, counters, isDisposed⟩
  have h' : act recorder = .ok a r := h
  simp only [onRecorder, h']

/-- After an act on the index the engine has the index that the act has left. -/
theorem after_onRecorder (act : Act Recorder α) (e : Engine) :
    Act.after (onRecorder act) e = { e with recorder := Act.after act e.recorder } := by
  rcases e with ⟨config, recorder, maxObject, counters, isDisposed⟩
  simp only [Act.after, onRecorder]
  cases act recorder <;> rfl

/-- The outcome of an act on the index is that of the act. -/
theorem outcome_onRecorder (act : Act Recorder α) (e : Engine) :
    Act.outcome (onRecorder act) e = Act.outcome act e.recorder := by
  rcases e with ⟨config, recorder, maxObject, counters, isDisposed⟩
  simp only [Act.outcome, onRecorder]
  cases act recorder <;> rfl

/-- An engine takes no pages back if its index takes none. -/
theorem grows_onRecorder {act : Act Recorder α} (h : Act.Grows Recorder.pageCount act) :
    Act.Grows pageCount (onRecorder act) := by
  intro e
  rw [after_onRecorder]
  exact h e.recorder

theorem grows_onPages {act : Act PageFile α} (h : Act.Grows PageFile.pageCount act) :
    Act.Grows pageCount (onPages act) :=
  grows_onRecorder (Recorder.grows_onArchive (Archive.grows_onPages h))

/-- Looking a list up takes no pages back. -/
theorem grows_lookUp (set : SetId) (value : ValueId) : Act.Grows pageCount (lookUp set value) :=
  grows_onRecorder (Recorder.grows_onArchive (Archive.grows_lookUp set value))

/-- Looking two halves up takes no pages back. -/
theorem grows_lookUpHalves (set : Half → SetId) (key : UInt64) :
    Act.Grows pageCount (lookUpHalves set key) :=
  (Act.Grows.ofExcept _).bind fun _ => (grows_lookUp _ _).bind fun _ =>
    (grows_lookUp _ _).bind fun _ => .pure _

/-- Moving a cursor takes no pages back if the move takes none. -/
theorem grows_onOver {C : Type} (x : C) {act : Act (Over C) α}
    (h : Act.Grows Over.pageCount act) : Act.Grows pageCount (onOver x act) := by
  refine grows_onPages fun f => ?_
  have hact := h ⟨x, f⟩
  cases hrun : act ⟨x, f⟩ with
  | ok a s => simpa [Act.after, hrun, Over.pageCount] using hact
  | error e s => simpa [Act.after, hrun, Over.pageCount] using hact

/-! ## Reading -/

/-- A list is looked up, and may be read at any later time. -/
theorem lookUp_spec (hs : e.recorder.Sound n c extra) (id : Fin n) (value : ValueId)
    (hroom : (Act.after (lookUp id value) e).pageCount ≤ maxPages) :
    ∃ view chunks e' c', lookUp id value e = .ok view e' ∧ Same e e' n c c' extra ∧
      view.LiesOnAll (e'.recorder.later n c') chunks ∧
      view.tuples chunks = (e.recorder.ledger c).book.lists id value := by
  have hnext : (Act.after (lookUp id value) e).pageCount =
      (e.recorder.next (.lookUp id value : Call n)).pageCount := by
    rw [lookUp, onArchive, after_onRecorder]
    exact congrArg Recorder.pageCount
      (Act.after_bind_pure (Recorder.onArchive (Archive.lookUp id value)) e.recorder).symm
  rw [hnext] at hroom
  obtain ⟨view, chunks, r', c', hrun, hstep, hledger, hwithin, htuples⟩ :=
    Recorder.lookUp_spec hs id value hroom
  exact ⟨view, chunks, _, c', onRecorder_ok hrun, ⟨hstep, hledger⟩,
    hstep.sound.liesOnAll id hwithin, htuples⟩

/-- What reads from one of the disks at hand has its answer. -/
theorem onPages_spec (hs : e.recorder.Sound n c extra) {ds : Disks} {x : Act PageFile α} {a : α}
    (hx : PageFile.Reads ds x a) (hd : ds e.disk) :
    ∃ e', onPages x e = .ok a e' ∧ Same e e' n c c extra ∧ e'.disk = e.disk := by
  obtain ⟨f', hrun, hf', hdisk⟩ := hx _ hs.archive.shelf.file hd
  -- reading leaves the file sound, and the disk as it is
  have hact : (Act.after x e.recorder.archive.shelf.pages).Sound ∧
      (Act.after x e.recorder.archive.shelf.pages).disk = e.recorder.archive.shelf.pages.disk := by
    rw [Act.after_ok hrun]
    exact ⟨hf', hdisk⟩
  obtain ⟨hstep, hbook, ht⟩ := Archive.onPages_spec x hs.archive hs.tidy hact
  have hrun' : Recorder.onPages x e.recorder =
      .ok a (e.recorder.withArchive (Act.after (Archive.onPages x) e.recorder.archive)) := by
    rcases e with ⟨config, ⟨⟨pool, ⟨residency, ⟨pages, sets⟩, stamps⟩⟩, timeline⟩, maxObject,
      counters, isDisposed⟩
    have hrun : x pages = .ok a f' := hrun
    simp only [Recorder.onPages, Recorder.onArchive, Recorder.onIntake, Intake.onArchive,
      Archive.onPages, Act.after, hrun, Recorder.archive]
    rfl
  refine ⟨_, onRecorder_ok hrun', ⟨.of_archive hs hstep ht,
    Recorder.ledger_withArchive_of_book hstep.outline_eq hbook⟩, ?_⟩
  show (Act.after (Archive.onPages x) e.recorder.archive).shelf.pages.disk = _
  rcases e with ⟨config, ⟨⟨pool, ⟨residency, ⟨pages, sets⟩, stamps⟩⟩, timeline⟩, maxObject,
    counters, isDisposed⟩
  have hrun : x pages = .ok a f' := hrun
  simp only [Archive.onPages, Act.after, hrun, Recorder.archive]
  exact hdisk

/-- What a cursor reads over the engine's disk it reads in the engine, whose lists and disk stay. -/
theorem onOver_spec (hs : e.recorder.Sound n c extra) {C : Type} {ds : Disks} {x x' : C}
    {act : Act (Over C) α} {a : α} (hx : Over.Reads ds act x a x') (hd : ds e.disk) :
    ∃ e', onOver x act e = .ok (a, x') e' ∧ Same e e' n c c extra ∧ e'.disk = e.disk := by
  refine onPages_spec hs (show PageFile.Reads ds _ _ from fun f hf hd => ?_) hd
  obtain ⟨f', hrun, hf', hd'⟩ := hx f hf hd
  exact ⟨f', by simp only [hrun], hf', hd'⟩

/-- The list of timestamps may be read at any later time. -/
theorem stamps_spec (hs : e.recorder.Sound n c extra) :
    e.stamps.LiesOnAll (e.recorder.later n c) c.stamps ∧
      e.stamps.tuples c.stamps = (e.recorder.ledger c).book.stamps :=
  ⟨hs.stampsLieOnAll, rfl⟩

end Engine

end EventIndex
