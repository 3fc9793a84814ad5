import EventIndex.Proofs.Index.Serving
import EventIndex.Proofs.Store.Sharing

/-! # Snapshot isolation

Whoever has taken a snapshot from an index (`Recorder.Takes`) gets the same answers from it for good: all
later calls leave the sealed pages of the snapshot alone, whatever becomes of its list and of the others
(`Recorder.Sound.isolated`). `snapshots_isolated` says so of all runs of an index, and of stores that
share a page file without one.

There are two halves to the proof. What is shown lies on sealed pages and in the tail that the reader
has a copy of (`Sound.takes`); and no call writes to a sealed page or gives it up, so that the snapshot
lies on every later disk as well (`Sound.of_laterPages`).
-/

namespace EventIndex

namespace Recorder

variable {n : Nat} {r r' : Recorder} {c c' : Contents} {extra : List OwnerKey} {v : Snapshot}

/-- The page file of an index. -/
def pages (r : Recorder) : PageFile := r.archive.shelf.pages

/-- The page files that an index may come to have. -/
def laterPages (r : Recorder) (n : Nat) (pages : PageFile) : Prop :=
  ∃ calls : List (Call n), (r.run calls).pageCount ≤ maxPages ∧ pages = (r.run calls).pages

/-- A snapshot is taken from an index, which may change it: a list is looked up, or one in memory is seen
as it is, or the timestamps are. -/
inductive Takes (n : Nat) (r : Recorder) : Snapshot → Recorder → Prop
  | lookUp {set : Fin n} {value : ValueId} {v : Snapshot} {r' : Recorder}
      (h : onArchive (Archive.lookUp set value) r = .ok v r') : Takes n r v r'
  | inMemory {id : SetId} {set : IndexSet} {value : ValueId} {store : Store} {uses : Nat}
      (hset : r.archive.set? id = some set)
      (hentry : set.entries[value]? = some (.resident store uses)) : Takes n r store.snapshot r
  | stamps : Takes n r r.archive.stamps.snapshot r

theorem Takes.pageCount_le (h : r.Takes n v r') : r.pageCount ≤ r'.pageCount := by
  cases h with
  | @lookUp set value v r' h =>
    have hgrows := grows_onArchive (Archive.grows_lookUp set value) r
    rwa [Act.after_ok h] at hgrows
  | inMemory => exact Nat.le_refl _
  | stamps => exact Nat.le_refl _

/-- All that an index may come to. -/
theorem Sound.of_laterPages (hs : r.Sound n c extra) {pages : PageFile} (h : r.laterPages n pages) :
    pages.Sound ∧ r.later n c pages.disk := by
  obtain ⟨calls, hroom, rfl⟩ := h
  obtain ⟨c', hstep, -⟩ := run_spec hs calls hroom
  exact ⟨hstep.sound.archive.shelf.file, _, c', _, hstep, rfl⟩

/-- A snapshot that is taken lies on all later disks. -/
theorem Sound.takes (hs : r.Sound n c extra) (htakes : r.Takes n v r') (hroom : r'.pageCount ≤ maxPages) :
    ∃ c' chunks, r'.Sound n c' extra ∧ v.LiesOnAll (r'.later n c') chunks := by
  cases htakes with
  | @lookUp set value v r' h =>
    have hnext : r.next (.lookUp set value) = r' :=
      (Act.after_bind_pure (onArchive (Archive.lookUp set value)) r).trans (Act.after_ok h)
    obtain ⟨view, chunks, r₁, c', hrun, hstep, -, hwithin, -⟩ := lookUp_spec hs set value (hnext ▸ hroom)
    cases hrun.symm.trans h
    exact ⟨c', chunks, hstep.sound, hstep.sound.liesOnAll set hwithin⟩
  | @inMemory id set value store uses hset hentry =>
    have hlt : id < n := hs.size ▸ (Array.getElem?_eq_some_iff.mp hset).1
    have hholds := (hs.archive.shelf.lies id set hset).holds value
    obtain ⟨hstore, -⟩ := hholds.resident store uses hentry
    have hwithin : store.snapshot.Within (c.lists id value) (c.lists id value).chunks :=
      hstore ▸ Snapshot.within_self hholds.lies
    exact ⟨c, _, hs, hs.liesOnAll ⟨id, hlt⟩ hwithin⟩
  | stamps => exact ⟨c, c.stamps, hs, hs.stampsLieOnAll⟩

/-- A snapshot that is taken answers for good what it answers then. -/
theorem Sound.isolated (hs : r.Sound n c extra) (htakes : r.Takes n v r')
    (hroom : r'.pageCount ≤ maxPages) : v.Isolated r'.pages (r'.laterPages n) := by
  obtain ⟨c', chunks, hs', hlies⟩ := hs.takes htakes hroom
  exact hlies.isolated ⟨hs'.archive.shelf.file, hs'.later_self⟩ fun _ h => hs'.of_laterPages h

end Recorder

namespace Snapshot

/-- Snapshots are isolated. One that was taken from an index at any time, or from one of several stores
over a page file, answers later what it answers when it is taken.

Later means after any calls, or after any deeds: the snapshot's list may have been extended, written out
and taken back in the meantime, and others may have got the pages that it gave up. It gives up no sealed
page, and the tail of a snapshot is a copy. -/
theorem snapshots_isolated :
    (∀ (u : Setup) (r : Recorder), u.start = .ok r →
      ∀ (before : List (Call u.shapes.length)) (v : Snapshot) (r' : Recorder),
        (r.run before).Takes u.shapes.length v r' → r'.pageCount ≤ maxPages →
          v.Isolated r'.pages (r'.laterPages u.shapes.length)) ∧
    ∀ (pageSize cachePages : Nat) (fresh : PageFile), PageFile.create pageSize cachePages = .ok fresh →
      ∀ (before : List Deed) (i : Nat) (s : Store),
        ((Bench.start fresh).run before).stores[i]? = some (.inMemory s) →
        ((Bench.start fresh).run before).pages.pageCount ≤ maxPages →
          s.snapshot.Isolated ((Bench.start fresh).run before).pages
            ((Bench.start fresh).run before).laterPages := by
  constructor
  · -- of an index: its lists are sound after any calls, and a sound list shows the same ever after
    intro u r h before v r' htakes hroom
    obtain ⟨hs, -, -⟩ := Setup.start_spec h
    obtain ⟨c, hstep, -⟩ := Recorder.run_spec hs before (Nat.le_trans htakes.pageCount_le hroom)
    exact hstep.sound.isolated htakes hroom
  · -- of single stores, which own their pages among them
    intro pageSize cachePages fresh h before i s hstore hroom
    obtain ⟨hf, hcount, hfree⟩ := PageFile.create_spec h
    obtain ⟨held, hs, -⟩ := Bench.run_spec (Bench.sound_start hf hcount hfree) before hroom
    exact hs.isolated hroom hstore

open Setup in
/-- A list that was sealed is written out, so that the reader who looks it up takes it back from disk. -/
def writtenOut : List (Call small.shapes.length) := fill ++ [.discard plainSet 1]

open Setup in
/-- The list is driven out, taken back, extended and written out again. -/
def goesOn : List (Call small.shapes.length) :=
  crowd ++ [.push plainSet 1 40 none, .push plainSet 1 41 none, .work 0, .discard plainSet 1]

/-- A store of one tuple is written out, taken back and extended. -/
def savedDeeds : List Deed :=
  [.create .plain, .change 0 (.append 5 none), .change 0 .save, .change 0 .load,
    .change 0 (.append 6 none)]

/-- It is written out and taken back once more, and goes on. -/
def laterDeeds : List Deed :=
  [.change 0 .save, .change 0 .load, .change 0 (.append 7 none)]

open Setup in
set_option maxRecDepth 4000 in
/-- The snapshots have as many tuples as at first, and the same ones. -/
theorem snapshots_isolated_small :
    (∃ r v r', small.start = .ok r ∧
      (r.run writtenOut).archive.isResident ⟨plainSet, 1⟩ = false ∧
      (r.run writtenOut).Takes small.shapes.length v r' ∧
      v.Isolated r'.pages (r'.laterPages small.shapes.length) ∧
      Act.outcome (v.ask .length) (r'.run goesOn).pages = .ok (.number 28) ∧
      Act.outcome (v.ask (.get 3)) (r'.run goesOn).pages = .ok (.tuple (some (.plain 3)))) ∧
    ∃ fresh s, PageFile.create 256 1 = .ok fresh ∧
      ((Bench.start fresh).run savedDeeds).stores[0]? = some (.inMemory s) ∧
      s.snapshot.Isolated ((Bench.start fresh).run savedDeeds).pages
        ((Bench.start fresh).run savedDeeds).laterPages ∧
      Act.outcome (s.snapshot.ask .length) (((Bench.start fresh).run savedDeeds).run laterDeeds).pages =
        .ok (.number 2) := by
  constructor
  · obtain ⟨r, hr⟩ : ∃ r, small.start = .ok r := ⟨_, rfl⟩
    obtain ⟨hs, hledger, -⟩ := start_spec hr
    have hbefore : (r.run writtenOut).pageCount ≤ maxPages := room_of_length hr (by decide)
    have hlater : (r.run (writtenOut ++ .lookUp plainSet 1 :: goesOn)).pageCount ≤ maxPages :=
      room_of_length hr (by decide)
    obtain ⟨c, hstep, hledger'⟩ := Recorder.run_spec hs writtenOut hbefore
    rw [Recorder.run_append, Recorder.run_cons] at hlater
    have hlooked := Nat.le_trans (Recorder.pageCount_le_run _ goesOn) hlater
    obtain ⟨v, chunks, r', c', hrun, hstep', -, hwithin, htuples⟩ :=
      Recorder.lookUp_spec hstep.sound plainSet 1 hlooked
    have hnext : (r.run writtenOut).next (.lookUp plainSet 1) = r' :=
      (Act.after_bind_pure _ _).trans (Act.after_ok hrun)
    have hroom : r'.pageCount ≤ maxPages := hnext ▸ hlooked
    have hroom' : (r'.run goesOn).pageCount ≤ maxPages := hnext ▸ hlater
    have htakes : (r.run writtenOut).Takes small.shapes.length v r' := .lookUp hrun
    have hisolated := snapshots_isolated.1 small r hr writtenOut v r' htakes hroom
    -- what it answers later it answers now, and that is told by the list of the ledger
    have hlist : v.tuples chunks = (List.range 28).map fun key => .plain (.ofNat key) := by
      rw [htuples, hledger', hledger]
      cbv
    have hasked (q : Question) :
        Act.outcome (v.ask q) (r'.run goesOn).pages = .ok (q.answer (v.tuples chunks)) := by
      obtain ⟨answer, hnow, hanswer⟩ := hisolated.asked q
      have hreads := (hstep'.sound.liesOnAll plainSet hwithin).reads_ask q
      cases hnow.symm.trans (hreads.outcome hstep'.sound.archive.shelf.file hstep'.sound.later_self)
      exact hanswer _ ⟨goesOn, hroom', rfl⟩
    rw [hlist] at hasked
    exact ⟨r, v, r', hr, isResident_discarded hr hbefore, htakes, hisolated, hasked .length,
      hasked (.get 3)⟩
  · obtain ⟨fresh, hfresh⟩ : ∃ fresh, PageFile.create 256 1 = .ok fresh := ⟨_, rfl⟩
    obtain ⟨s, hs⟩ : ∃ s : Store, s = ((Store.empty .plain).push (.plain 5)).push (.plain 6) := ⟨_, rfl⟩
    have hstore : ((Bench.start fresh).run savedDeeds).stores[0]? = some (.inMemory s) := by
      cases hfresh
      rw [hs]
      cbv
    have hroom : ((Bench.start fresh).run savedDeeds).pages.pageCount ≤ maxPages := by
      cases hfresh
      cbv
    have hroom' : (((Bench.start fresh).run savedDeeds).run laterDeeds).pages.pageCount ≤ maxPages := by
      cases hfresh
      cbv
    have hisolated := snapshots_isolated.2 256 1 fresh hfresh savedDeeds 0 s hstore hroom
    obtain ⟨answer, hnow, hlater⟩ := hisolated.asked .length
    have hlength : Act.outcome (s.snapshot.ask .length) ((Bench.start fresh).run savedDeeds).pages =
        .ok (.number 2) := by
      rw [hs]
      rfl
    cases hnow.symm.trans hlength
    exact ⟨fresh, s, hfresh, hstore, hisolated, hlater _ ⟨laterDeeds, hroom', rfl⟩⟩

end Snapshot

end EventIndex
