import Mathlib
import EventIndex.Proofs.Cursor.Search
import EventIndex.Proofs.Store.Sharing

/-! # Looking up in a store

Stores over one page file take up tuples, among whatever else happens to them and to the others. The tuples
that one of them has accepted so far (`Bench.accepted`) are all there is to its snapshots: every lookup gives
the answer of this list (`Bench.looks_up_accepted`), be the tuples in the tail or on sealed pages, with a run
of equal keys on one page or on several, and for every key up to the largest.

Main results:

* `Store.append_ok_iff`: which tuples are accepted.
* `accepted_lies`: what was accepted lies on the pages and in the tail.
* `LiesOnAll.looksUp`: what lies there is looked up.
-/

namespace EventIndex

open EventIndex.Tuple

/-! ## What may be appended -/

/-- A list is extended by a tuple just when its key may follow all others. -/
theorem Kind.Ordered.extend_ok_iff {k : Kind} {ts : List Tuple} {t : Tuple} (h : k.Ordered ts)
    (ht : k.Holds t) :
    (∃ ts', k.extend ts t = .ok ts') ↔ ∀ u ∈ ts, k.MayFollow u.key t.key := by
  constructor
  · rintro ⟨ts', hext⟩ u hu
    obtain ⟨hordered, rfl⟩ := h.extend ht hext
    exact (List.pairwise_append.mp hordered.follows).2.2 u hu t (List.mem_singleton_self t)
  · intro hall
    refine ⟨ts ++ [t], ?_⟩
    -- only the last tuple is asked
    cases hlast : ts.getLast? with
    | none => exact Kind.extend_of_none hlast
    | some last => exact Kind.extend_of_getLast? hlast (hall last (List.mem_of_getLast? hlast))

/-- In a plain list each key occurs once. -/
theorem Kind.Ordered.strict {ts : List Tuple} (h : Kind.plain.Ordered ts) :
    ts.Pairwise fun t u => t.key < u.key := by
  refine h.follows.imp ?_
  rintro t u (hlt | ⟨-, hequal⟩)
  · exact hlt
  · cases hequal

theorem Kind.key_tuple (k : Kind) (key : UInt64) (role : Option Role) :
    (k.tuple key role).key = key := by
  rw [tuple]
  split <;> rfl

/-- A store accepts a tuple just when its key may follow all others. -/
theorem Store.append_ok_iff {s : Store} {f : PageFile} {chunks : List (List Tuple)} {rest : List Nat}
    {t : Tuple} (hf : f.Sound) (hown : f.disk.Owned (s.sealedPages ++ rest))
    (h : s.LiesOn f.disk chunks) (ht : s.kind.Holds t) :
    (∃ s' f', s.append t f = .ok s' f') ↔ ∀ u ∈ s.tuples chunks, s.kind.MayFollow u.key t.key := by
  have hspec := append_spec hf hown h ht
  rw [← h.ordered.extend_ok_iff ht]
  cases hext : s.kind.extend (s.tuples chunks) t with
  | ok ts =>
    rw [hext] at hspec
    obtain ⟨s', f', -, -, hrun, -⟩ := hspec
    exact iff_of_true ⟨s', f', hrun⟩ ⟨ts, rfl⟩
  | error e =>
    rw [hext] at hspec
    refine iff_of_false ?_ ?_
    · rintro ⟨s', f', hrun⟩
      rw [hspec] at hrun
      cases hrun
    · rintro ⟨ts, hok⟩
      cases hok

namespace Snapshot

variable {v : Snapshot} {ds : Disks} {chunks : List (List Tuple)} {pages : PageFile} {ts : List Tuple}

/-- A snapshot looks up in a page file what a list of tuples has. -/
structure LooksUp (v : Snapshot) (pages : PageFile) (ts : List Tuple) : Prop where
  length : v.length = ts.length
  /-- From the length on there is no tuple at a position. -/
  get : ∀ position, Act.outcome (v.get position) pages = .ok ts[position]?
  lowerBound : ∀ key, Act.outcome (v.lowerBound key) pages = .ok (ts.countP fun t => t.key < key)
  upperBound : ∀ key, Act.outcome (v.upperBound key) pages = .ok (ts.countP fun t => t.key ≤ key)
  countInRange : ∀ k1 k2, Act.outcome (v.countInRange k1 k2) pages =
    .ok (ts.countP fun t => k1 ≤ t.key ∧ t.key < k2)
  countInNothing : ∀ k1 k2, k2 ≤ k1 → Act.outcome (v.countInRange k1 k2) pages = .ok 0
  /-- A count is a difference that is not cut off at zero. -/
  difference : ∀ k1 k2, k1 < k2 → ∃ low high,
    Act.outcome (v.lowerBound k1) pages = .ok low ∧
      Act.outcome (v.lowerBound k2) pages = .ok high ∧
      low ≤ high ∧ Act.outcome (v.countInRange k1 k2) pages = .ok (high - low)

/-- A snapshot looks up what its list has. -/
theorem LiesOnAll.looksUp (h : v.LiesOnAll ds chunks) (hpages : pages.Sound)
    (hdisk : ds pages.disk) : v.LooksUp pages (v.tuples chunks) where
  length := h.length_eq.symm
  get position := (h.reads_get position).outcome hpages hdisk
  lowerBound key := (h.reads_lowerBound key).outcome hpages hdisk
  upperBound key := (h.reads_upperBound key).outcome hpages hdisk
  countInRange k1 k2 := (h.reads_countInRange k1 k2).outcome hpages hdisk
  countInNothing k1 k2 hle := by
    rw [Snapshot.countInRange, if_pos hle]
    rfl
  difference k1 k2 hlt := by
    have hle := UInt64.le_of_lt hlt
    refine ⟨_, _, (h.reads_lowerBound k1).outcome hpages hdisk,
      (h.reads_lowerBound k2).outcome hpages hdisk, Cursor.place_mono _ hle, ?_⟩
    rw [Cursor.place_sub_place _ hle]
    exact (h.reads_countInRange k1 k2).outcome hpages hdisk

end Snapshot

namespace Bench

variable {b b' : Bench} {held held' : List Holding} {i : Nat} {s : Store} {chunks : List (List Tuple)}

/-- A snapshot of a store lies on the disk whatever has become of the stores. -/
theorem liesOn_later (hlies : s.LiesOn b.pages.disk chunks) (hget : held[i]? = some ⟨s, chunks, []⟩)
    (hs' : b'.Sound held') (hlater : Later held held') :
    s.snapshot.LiesOn b'.pages.disk chunks := by
  obtain ⟨h', hget', hext⟩ := hlater i _ hget
  have hwithin : s.snapshot.Within ⟨s, chunks, []⟩ chunks :=
    Snapshot.within_self (h := ⟨s, chunks, []⟩) hlies
  exact hs'.liesOn hget' (hwithin.extends hext)

/-- What a store in memory has accepted is what lies on its pages and in its tail, now and later. -/
theorem accepted_lies {pageSize cachePages : Nat} {fresh : PageFile}
    (h : PageFile.create pageSize cachePages = .ok fresh) (before after : List Deed)
    (hroom : (∃ deed ∈ before ++ after, deed.Saves) →
      ((start fresh).run (before ++ after)).pages.pageCount ≤ maxPages)
    (hstore : ((start fresh).run before).stores[i]? = some (.inMemory s)) :
    ∃ held chunks, ((start fresh).run before).Sound held ∧ held[i]? = some ⟨s, chunks, []⟩ ∧
      s.LiesOn ((start fresh).run before).pages.disk chunks ∧
      (start fresh).accepted i before = s.tuples chunks ∧
      ((start fresh).run (before ++ after)).pages.Sound ∧
      s.snapshot.LiesOn ((start fresh).run (before ++ after)).pages.disk chunks := by
  have hrun : (start fresh).run (before ++ after) = ((start fresh).run before).run after :=
    List.foldl_append
  rw [hrun] at hroom ⊢
  obtain ⟨hf, hcount, hfree⟩ := PageFile.create_spec h
  -- the pages never get fewer, so that there was room all along
  have hbefore : (∃ deed ∈ before, deed.Saves) →
      ((start fresh).run before).pages.pageCount ≤ maxPages := by
    rintro ⟨deed, hdeed, hsaves⟩
    exact Nat.le_trans (pageCount_le_run _ after)
      (hroom ⟨deed, List.mem_append_left _ hdeed, hsaves⟩)
  have hafter : (∃ deed ∈ after, deed.Saves) →
      (((start fresh).run before).run after).pages.pageCount ≤ maxPages := by
    rintro ⟨deed, hdeed, hsaves⟩
    exact hroom ⟨deed, List.mem_append_right _ hdeed, hsaves⟩
  obtain ⟨held, hs, -, htuples⟩ := run_accepted_spec (sound_start hf hcount hfree) before hbefore
  obtain ⟨held', hs', hlater, -⟩ := run_accepted_spec hs after hafter
  obtain ⟨chunks, hget, hlies⟩ := hs.inMemory hstore
  refine ⟨held, chunks, hs, hget, hlies, ?_, hs'.file, liesOn_later hlies hget hs' hlater⟩
  have hheld := htuples i
  rw [tuplesAt, hget] at hheld
  exact hheld.symm

/-- Whatever happens to the stores of a bench, a snapshot of one of them looks up the tuples that the store
had accepted when it was taken. They are in order, each key once in a plain list, and one more tuple is
accepted just when its key may follow all of them.

What was accepted is told by the outcomes of the deeds, not by what lies in the store. Room is asked for
only if a store is written out, since nothing else writes page numbers down. -/
theorem looks_up_accepted {pageSize cachePages : Nat} {fresh : PageFile}
    (h : PageFile.create pageSize cachePages = .ok fresh) (before after : List Deed)
    (hroom : (∃ deed ∈ before ++ after, deed.Saves) →
      ((start fresh).run (before ++ after)).pages.pageCount ≤ maxPages)
    {i : Nat} {s : Store} (hstore : ((start fresh).run before).stores[i]? = some (.inMemory s)) :
    s.snapshot.LooksUp ((start fresh).run (before ++ after)).pages
        ((start fresh).accepted i before) ∧
      ((start fresh).accepted i before).Pairwise (fun t u => t.key ≤ u.key) ∧
      (s.kind = .plain → ((start fresh).accepted i before).Pairwise fun t u => t.key < u.key) ∧
      ∀ key role,
        (∃ s' pages', s.append (s.kind.tuple key role) ((start fresh).run before).pages =
          .ok s' pages') ↔
        ∀ t ∈ (start fresh).accepted i before, s.kind.MayFollow t.key key := by
  obtain ⟨held, chunks, hs, hget, hlies, haccepted, hfile, hstill⟩ :=
    accepted_lies h before after hroom hstore
  rw [haccepted]
  refine ⟨hstill.onAll.looksUp hfile rfl, ?_, ?_, ?_⟩
  · exact hlies.ordered.follows.imp fun hkey => hkey.le
  · intro hkind
    exact (hkind ▸ hlies.ordered).strict
  · intro key role
    -- whether a tuple may follow is told by the last key, and so by all of them
    have hown := hs.ownedApart hget
    rw [Holding.pages, List.append_nil] at hown
    rw [Store.append_ok_iff hs.file hown hlies (Kind.holds_tuple _ _ _), Kind.key_tuple]

/-- A run of equal keys comes to lie on a sealed page and in the tail. -/
def straddling : List Deed :=
  [.create .role, .change 0 (.append 5 (some .target)), .change 0 .sealTail,
    .change 0 (.append 5 (some .value))]

/-- The store that takes it up. -/
def straddled : Store where
  kind := .role
  directory := #[⟨1, 5, 5, 1, 0⟩]
  tail := #[tagged 5 .value]
  sealedLength := 1
  lastKey := some 5

set_option maxRecDepth 4000 in
/-- A third tuple comes later, and the snapshot still has two. -/
theorem looks_up_accepted_small :
    ∃ fresh, PageFile.create 256 1 = .ok fresh ∧
      straddled.snapshot.LooksUp
        ((start fresh).run (straddling ++ [.change 0 (.append 7 none)])).pages
        [tagged 5 .target, tagged 5 .value] := by
  obtain ⟨fresh, hfresh⟩ : ∃ fresh, PageFile.create 256 1 = .ok fresh := ⟨_, rfl⟩
  have hstore : ((start fresh).run straddling).stores[0]? = some (.inMemory straddled) := by
    cases hfresh
    cbv
  have haccepted : (start fresh).accepted 0 straddling = [tagged 5 .target, tagged 5 .value] := by
    cases hfresh
    cbv
  have hnone : ¬ ∃ deed ∈ straddling ++ [.change 0 (.append 7 none)], deed.Saves := by
    simp [straddling, Deed.Saves]
  obtain ⟨hlooks, -⟩ := looks_up_accepted hfresh straddling [.change 0 (.append 7 none)]
    (fun hsaves => absurd hsaves hnone) hstore
  rw [haccepted] at hlooks
  exact ⟨fresh, hfresh, hlooks⟩

end Bench

end EventIndex
