import EventIndex.Proofs.Page.Transparency
import EventIndex.Proofs.Store.Reloading
import Mathlib.Data.Finset.Card
import Mathlib.Logic.Relation

/-! # Chains without an end

A chain of pages is followed from link to link, whatever the links are. `follow?` is one round of this:
a page is read and given back, and its link tells the next one. Nothing in a round sees to it that the
reading is ever done. It is not done exactly if it comes to a page whose links, as the file has them,
lead back to the page (`Circles`).

For what the cache knows of a page counts only once. A round that takes a page from the cache leaves
fewer entries there, and so does one that pushes an entry out; as long as neither happens, the pages
are read from the file, which has only so many of them (`circles_of_rounds`). So a reading that is done
is done within `chainBound`, and `load_ends_iff` says of every load whether it is.

Main results:

* `follow?_spec`: what one round does to the file and to the cache.
* `circles_of_rounds`: too many rounds go round.
* `Circles.endless`, `endsWithin_chainBound`: which readings are never done, and when the others are.
* `reads_load`: how many pages a load reads at most.
* `load_ends_iff`: which loads are done.
-/

namespace EventIndex

open Binary

/-- The pages read so far, from the cache or from the file. -/
def PageFile.reads (f : PageFile) : Nat := f.hits + f.misses

namespace Store

variable {f f' g : PageFile} {page next p q : PageId} {n : Nat}

/-! ## Rounds -/

/-- One round of reading a chain: the page that is due is read and given back, and its link tells the
next one. There is none at the end of the chain, nor if the page cannot be read or has no link. -/
def follow? : PageId × PageFile → Option (PageId × PageFile)
  | (page, f) =>
    if page = noPage then none
    else
      match PageFile.read page f with
      | .error _ _ => none
      | .ok payload f =>
        if payload.length < 4 then none
        else some (numberAt payload 0 4, Act.after (PageFile.release page) f)

/-- Where the reading of a chain stands after some rounds, if it goes on for so long. -/
def rounds : Nat → PageId × PageFile → Option (PageId × PageFile)
  | 0, s => some s
  | n + 1, s => (rounds n s).bind follow?

/-- The first of several rounds goes to the page that the others start from. -/
theorem rounds_succ (n : Nat) (s : PageId × PageFile) :
    rounds (n + 1) s = (follow? s).bind (rounds n) := by
  induction n with
  | zero =>
    show (some s).bind follow? = (follow? s).bind some
    rw [Option.bind_some, Option.bind_fun_some]
  | succ n ih =>
    rw [rounds, ih, Option.bind_assoc]
    rfl

/-- A round that goes on: the page was read from the cache, where it no longer is, or from the file. -/
theorem follow?_cases (h : follow? (page, f) = some (next, f')) :
    page ≠ noPage ∧ ∃ payload f₁, PageFile.read page f = .ok payload f₁ ∧ 4 ≤ payload.length ∧
      next = numberAt payload 0 4 ∧
      PageFile.release page f₁ = .ok () f' := by
  rw [follow?] at h
  by_cases hpage : page = noPage
  · rw [if_pos hpage] at h
    cases h
  rw [if_neg hpage] at h
  refine ⟨hpage, ?_⟩
  split at h
  · cases h
  rename_i payload f₁ hread
  by_cases hshort : payload.length < 4
  · rw [if_pos hshort] at h
    cases h
  rw [if_neg hshort] at h
  cases h
  obtain ⟨f', hrelease, -⟩ := Releases.release hpage f₁
  exact ⟨payload, f₁, hread, Nat.le_of_not_lt hshort, rfl, by rw [Act.after_ok hrelease, hrelease]⟩

/-- A page whose link, as the file has it, leads to another one, and of which the cache knows
nothing. -/
structure Linked (f : PageFile) (p q : PageId) : Prop where
  ne_noPage : p ≠ noPage
  uncached : f.cache.find? p = none
  link : ∃ payload, f.load p = .ok payload ∧ 4 ≤ payload.length ∧ numberAt payload 0 4 = q

/-- What a round leaves behind: the bytes of the file, and a part of the cache. -/
structure Passed (f f' : PageFile) : Prop where
  bytes : f.SameBytes f'
  size_le : f'.cache.size ≤ f.cache.size
  uncached : ∀ p, f.cache.find? p = none → f'.cache.find? p = none

theorem Passed.refl (f : PageFile) : Passed f f := ⟨⟨rfl, rfl, rfl⟩, Nat.le_refl _, fun _ h => h⟩

/-- What is as before twice is as before. -/
theorem Passed.trans (h : Passed f f') (h' : Passed f' g) : Passed f g where
  bytes := ⟨h'.bytes.pageSize_eq.trans h.bytes.pageSize_eq, h'.bytes.blocks_eq.trans h.bytes.blocks_eq,
    h'.bytes.length_eq.trans h.bytes.length_eq⟩
  size_le := Nat.le_trans h'.size_le h.size_le
  uncached p hp := h'.uncached p (h.uncached p hp)

/-- Without a change of the cache there is nothing to tell the two files apart by. -/
theorem Passed.symm (h : Passed f f') (hcache : f'.cache = f.cache) : Passed f' f where
  bytes := ⟨h.bytes.pageSize_eq.symm, h.bytes.blocks_eq.symm, h.bytes.length_eq.symm⟩
  size_le := by rw [hcache]
  uncached p hp := by rwa [← hcache]

/-- The links between the pages of the file stay what they are while pages are read. -/
theorem Passed.linked (h : Passed f f') (hl : Linked f p q) : Linked f' p q := by
  obtain ⟨payload, hload, hlink⟩ := hl.link
  exact ⟨hl.ne_noPage, h.uncached p hl.uncached, payload, (h.bytes.load p).trans hload, hlink⟩

/-- A way along the links stays one while pages are read. -/
theorem Passed.transGen (h : Passed f f') (hpath : Relation.TransGen (Linked f) p q) :
    Relation.TransGen (Linked f') p q :=
  Relation.TransGen.mono (fun _ _ => h.linked) p q hpath

/-- Reading changes the number of whole pages neither way. -/
theorem Passed.wholePages_eq (h : Passed f f') : f'.wholePages = f.wholePages := by
  rw [PageFile.wholePages, PageFile.wholePages, h.bytes.length_eq, h.bytes.pageSize_eq]

/-- What a round does to the file it starts from. -/
structure Round (f f' : PageFile) (page : PageId) : Prop where
  passed : Passed f f'
  reads_eq : f'.reads = f.reads + 1
  free_eq : f'.free = page :: f.free

/-- A round on a cached page takes it out of the cache. -/
theorem round_cached {cached : ByteArray} {payload : List UInt8} {f₁ : PageFile}
    (hpage : page ≠ noPage)
    (hfind : f.cache.find? page = some cached) (hread : PageFile.read page f = .ok payload f₁)
    (hrelease : PageFile.release page f₁ = .ok () f') :
    Round f f' page ∧ f'.cache.size < f.cache.size := by
  simp only [PageFile.read, hfind] at hread
  cases hread
  rw [PageFile.release, if_neg hpage] at hrelease
  cases hrelease
  have hcache : (f.cache.promote page).erase page = f.cache.erase page := Recency.erase_promote _ _
  have hlt : ((f.cache.promote page).erase page).size < f.cache.size :=
    hcache ▸ Recency.size_erase_lt hfind
  refine ⟨⟨⟨⟨rfl, rfl, rfl⟩, hlt.le, fun p hp => ?_⟩, ?_, rfl⟩, hlt⟩
  · show ((f.cache.promote page).erase page).find? p = none
    rw [hcache, Recency.find?_erase, hp, ite_self]
  · show f.hits + 1 + f.misses = f.hits + f.misses + 1
    omega

/-- A round on a page that is not cached takes the link from the file. It leaves the cache alone, or
the page crowded another one out before it was taken out itself. -/
theorem round_missed {payload : List UInt8} {f₁ : PageFile} (hpage : page ≠ noPage)
    (hfind : f.cache.find? page = none) (hread : PageFile.read page f = .ok payload f₁)
    (hlength : 4 ≤ payload.length) (hrelease : PageFile.release page f₁ = .ok () f') :
    Round f f' page ∧ (f'.cache.size < f.cache.size ∨
      f'.cache = f.cache ∧ Linked f page (numberAt payload 0 4)) := by
  rw [PageFile.read_miss hfind] at hread
  cases hload : f.load page with
  | error e =>
    rw [hload] at hread
    cases hread
  | ok payload' =>
    rw [hload] at hread
    cases hread
    rw [PageFile.release, if_neg hpage] at hrelease
    cases hrelease
    -- the page comes into the cache and leaves it again, so only what it pushed out is missing
    have hcache : ((f.cache.put page (PageFile.pack payload)).keep f.cacheLimit).erase page =
        f.cache.keep (f.cacheLimit - 1) := Recency.erase_keep_put hfind _ _
    have hsame := Recency.keep_eq_or_size_lt f.cache (f.cacheLimit - 1)
    refine ⟨⟨⟨⟨rfl, rfl, rfl⟩, ?_, fun p hp => ?_⟩, rfl, rfl⟩, ?_⟩
    · show (((f.cache.put page _).keep f.cacheLimit).erase page).size ≤ _
      rw [hcache]
      obtain heq | hlt := hsame
      · rw [heq]
      · exact hlt.le
    · show (((f.cache.put page _).keep f.cacheLimit).erase page).find? p = none
      rw [hcache]
      cases hkept : (f.cache.keep (f.cacheLimit - 1)).find? p with
      | none => rfl
      | some cached =>
        rw [Recency.find?_of_keep hkept] at hp
        cases hp
    · show (((f.cache.put page _).keep f.cacheLimit).erase page).size < _ ∨
        ((f.cache.put page _).keep f.cacheLimit).erase page = f.cache ∧ _
      rw [hcache]
      obtain heq | hlt := hsame
      · exact .inr ⟨heq, hpage, hfind, payload, hload, hlength, rfl⟩
      · exact .inl hlt

/-- A round reads one page and gives it back. It leaves fewer entries in the cache, or it leaves the
cache alone and takes the link from the file. -/
theorem follow?_spec (h : follow? (page, f) = some (next, f')) :
    Round f f' page ∧
      (f'.cache.size < f.cache.size ∨ f'.cache = f.cache ∧ Linked f page next) := by
  obtain ⟨hpage, payload, f₁, hread, hlength, rfl, hrelease⟩ := follow?_cases h
  cases hfind : f.cache.find? page with
  | some cached =>
    obtain ⟨hround, hlt⟩ := round_cached hpage hfind hread hrelease
    exact ⟨hround, .inl hlt⟩
  | none => exact round_missed hpage hfind hread hlength hrelease

/-- A link that the cache knows nothing of is followed. -/
theorem Linked.follow?_eq (h : Linked f p q) : ∃ f', follow? (p, f) = some (q, f') := by
  obtain ⟨payload, hload, hlength, rfl⟩ := h.link
  have hread : PageFile.read p f =
      .ok payload ({ f with misses := f.misses + 1 }.remember p payload) := by
    rw [PageFile.read_miss h.uncached, hload]
  rw [follow?, if_neg h.ne_noPage, hread]
  exact ⟨_, if_neg (Nat.not_lt.mpr hlength)⟩

/-- However many rounds are made, the file's pages stay what they are. -/
theorem passed_rounds {s t : PageId × PageFile} (h : rounds n s = some t) : Passed s.2 t.2 := by
  induction n generalizing t with
  | zero =>
    cases h
    exact .refl _
  | succ n ih =>
    obtain ⟨u, hu, hround⟩ := Option.bind_eq_some_iff.mp h
    exact (ih hu).trans (follow?_spec hround).1.passed

/-! ## Links that come back -/

/-- The reading of a chain comes to a page whose links lead back to it, none of them in the cache. -/
inductive Circles : PageId → PageFile → Prop
  | circuit {page : PageId} {f : PageFile} (h : Relation.TransGen (Linked f) page page) :
      Circles page f
  | later {page next : PageId} {f f' : PageFile} (h : follow? (page, f) = some (next, f'))
      (hnext : Circles next f') : Circles page f

/-- Where a circle is met in some round there has been one from the start: the links do not change. -/
theorem Circles.of_rounds {s : PageId × PageFile} (h : rounds n s = some (q, g))
    (hc : Circles q g) : Circles s.1 s.2 := by
  induction n generalizing s with
  | zero =>
    cases h
    exact hc
  | succ n ih =>
    rw [rounds_succ] at h
    obtain ⟨t, ht, hrounds⟩ := Option.bind_eq_some_iff.mp h
    exact .later ht (ih hrounds)

/-- Where links come back, the next round leads to links that come back. -/
theorem Circles.follow?_eq (h : Circles page f) :
    ∃ next f', follow? (page, f) = some (next, f') ∧ Circles next f' := by
  cases h with
  | later h hnext => exact ⟨_, _, h, hnext⟩
  | circuit h =>
    -- the circuit from the next page on is the same one, in what is left of the cache
    obtain ⟨next, hlink, hback⟩ := Relation.TransGen.head'_iff.mp h
    obtain ⟨f', hround⟩ := hlink.follow?_eq
    have hpassed := (follow?_spec hround).1.passed
    have hcircuit : Relation.TransGen (Linked f) next next := Relation.TransGen.tail' hback hlink
    exact ⟨next, f', hround, .circuit (hpassed.transGen hcircuit)⟩

/-! ## A file has only so many pages -/

/-- A page with a link lies within the file. -/
theorem Linked.lt_wholePages (h : Linked f p q) : p < f.wholePages := by
  obtain ⟨payload, hload, hlength, -⟩ := h.link
  obtain ⟨size, hcapacity, hend, -, -, rfl⟩ := PageFile.checks_of_load hload
  rw [List.length_drop, List.length_take] at hlength
  have hpos : 0 < f.pageSize := by
    unfold PageFile.payloadCapacity at hcapacity
    omega
  exact (Nat.le_div_iff_mul_le hpos).mpr hend

/-- The page that is due after some rounds. -/
def pageDue (s : PageId × PageFile) (n : Nat) : PageId := ((rounds n s).map Prod.fst).getD noPage

/-- The page that is due is the one that the rounds have come to. -/
theorem pageDue_eq {s : PageId × PageFile} (h : rounds n s = some (q, g)) : pageDue s n = q := by
  rw [pageDue, h]
  rfl

/-- As long as no entry leaves the cache, the reading goes along the links that the file has. -/
theorem linked_of_steady {s t : PageId × PageFile} (h : rounds n s = some t)
    (hsteady : s.2.cache.size ≤ t.2.cache.size) :
    t.2.cache = s.2.cache ∧ ∀ i < n, Linked s.2 (pageDue s i) (pageDue s (i + 1)) := by
  induction n generalizing t with
  | zero =>
    cases h
    exact ⟨rfl, fun i hi => absurd hi (Nat.not_lt_zero i)⟩
  | succ n ih =>
    obtain ⟨⟨p, f⟩, hp, hround⟩ := Option.bind_eq_some_iff.mp h
    obtain ⟨⟨hpassed, -, -⟩, hcache⟩ := follow?_spec hround
    obtain ⟨hbefore, hlinks⟩ := ih hp (Nat.le_trans hsteady hpassed.size_le)
    -- the last round has left no fewer entries, so it went along a link of the file
    obtain hless | ⟨hsame, hlink⟩ := hcache
    · have hle := (passed_rounds hp).size_le
      exact absurd hsteady (Nat.not_le.mpr (Nat.lt_of_lt_of_le hless hle))
    · refine ⟨hsame.trans hbefore, fun i hi => ?_⟩
      obtain hlt | rfl := Nat.lt_succ_iff_lt_or_eq.mp hi
      · exact hlinks i hlt
      · rw [pageDue_eq hp, pageDue_eq h]
        exact ((passed_rounds hp).symm hbefore).linked hlink

/-- Links one after another lead from each page to all that come later. -/
theorem transGen_of_links {pages : Nat → PageId} (h : ∀ i < n, Linked f (pages i) (pages (i + 1)))
    {i j : Nat} (hij : i < j) (hj : j ≤ n) : Relation.TransGen (Linked f) (pages i) (pages j) := by
  induction j, hij using Nat.le_induction with
  | base => exact .single (h i hj)
  | succ j _ ih => exact .tail (ih (Nat.le_of_succ_le hj)) (h j hj)

/-- Of more pages along the links of a file than the file has, two are the same. -/
theorem exists_circuit {pages : Nat → PageId}
    (h : ∀ i < f.wholePages + 1, Linked f (pages i) (pages (i + 1))) :
    ∃ i ≤ f.wholePages, Relation.TransGen (Linked f) (pages i) (pages i) := by
  obtain ⟨i, hi, j, hj, hne, heq⟩ : ∃ i ∈ Finset.range (f.wholePages + 1),
      ∃ j ∈ Finset.range (f.wholePages + 1), i ≠ j ∧ pages i = pages j := by
    refine Finset.exists_ne_map_eq_of_card_lt_of_maps_to (t := Finset.range f.wholePages)
      (by simp) fun i hi => ?_
    exact Finset.mem_coe.mpr (Finset.mem_range.mpr
      (h i (Finset.mem_range.mp (Finset.mem_coe.mp hi))).lt_wholePages)
  rw [Finset.mem_range] at hi hj
  obtain hlt | hlt := Nat.lt_or_gt_of_ne hne
  · refine ⟨i, Nat.le_of_lt_succ hi, ?_⟩
    have hpath := transGen_of_links h hlt hj.le
    rwa [← heq] at hpath
  · refine ⟨j, Nat.le_of_lt_succ hj, ?_⟩
    have hpath := transGen_of_links h hlt hi.le
    rwa [heq] at hpath

/-- Who has made so many rounds has made fewer. -/
theorem exists_rounds_of_le {s t : PageId × PageFile} {m : Nat} (h : rounds n s = some t)
    (hm : m ≤ n) : ∃ u, rounds m s = some u := by
  induction n, hm using Nat.le_induction generalizing t with
  | base => exact ⟨t, h⟩
  | succ n _ ih =>
    obtain ⟨u, hu, -⟩ := Option.bind_eq_some_iff.mp h
    exact ih hu

/-- Rounds are made one after the other. -/
theorem rounds_add (m n : Nat) (s : PageId × PageFile) :
    rounds (m + n) s = (rounds m s).bind (rounds n) := by
  induction n with
  | zero => exact (Option.bind_fun_some (rounds m s)).symm
  | succ n ih =>
    rw [← Nat.add_assoc, rounds, ih, Option.bind_assoc]
    rfl

/-- As many rounds as the file has pages come to one of them twice, if no entry leaves the cache. -/
theorem circles_of_steady {s t : PageId × PageFile} (h : rounds (s.2.wholePages + 1) s = some t)
    (hsteady : s.2.cache.size ≤ t.2.cache.size) : Circles s.1 s.2 := by
  obtain ⟨i, hi, hcircuit⟩ := exists_circuit (linked_of_steady h hsteady).2
  obtain ⟨⟨q, g⟩, hrounds⟩ := exists_rounds_of_le h (Nat.le_succ_of_le hi)
  rw [pageDue_eq hrounds] at hcircuit
  exact .of_rounds hrounds (.circuit ((passed_rounds hrounds).transGen hcircuit))

/-- A reading that goes on for too long goes round. The induction is on the entries of the cache: as
many rounds as the file has pages leave fewer of them, or come to a page twice. -/
theorem circles_of_rounds {s t : PageId × PageFile} {size : Nat} (hsize : s.2.cache.size ≤ size)
    (h : rounds ((s.2.wholePages + 1) * (size + 1)) s = some t) : Circles s.1 s.2 := by
  induction size generalizing s with
  | zero =>
    rw [Nat.zero_add, Nat.mul_one] at h
    exact circles_of_steady h (Nat.le_trans hsize (Nat.zero_le _))
  | succ size ih =>
    rw [Nat.mul_succ, Nat.add_comm, rounds_add] at h
    obtain ⟨u, hu, hrest⟩ := Option.bind_eq_some_iff.mp h
    by_cases hsteady : s.2.cache.size ≤ u.2.cache.size
    · exact circles_of_steady hu hsteady
    · rw [← (passed_rounds hu).wholePages_eq] at hrest
      exact .of_rounds hu (ih (by omega) hrest)

/-! ## Readings that are done and readings that are not -/

/-- A round that goes on leaves the rest of the reading to the next page. -/
theorem readChainWithin_of_follow? (h : follow? (page, f) = some (next, f')) :
    ∃ payload, ∀ n, readChainWithin (n + 1) page f =
      (readChainWithin n next >>= inFront payload) f' := by
  obtain ⟨hpage, payload, f₁, hread, hlength, rfl, hrelease⟩ := follow?_cases h
  refine ⟨payload, fun n => ?_⟩
  rw [readChainWithin_succ hpage, Act.bind_ok hread, if_neg (Nat.not_lt.mpr hlength)]
  exact Act.bind_ok hrelease

/-- The reading of a chain is done after no more than `n` pages, with an answer or an error. -/
def EndsWithin (n : Nat) (page : PageId) (f : PageFile) : Prop :=
  Act.outcome (readChainWithin n page) f ≠ .ok none

/-- A chain that is at its end is read without a round. -/
theorem readChainWithin_noPage (n : Nat) (f : PageFile) :
    readChainWithin n noPage f = .ok (some []) f := by
  cases n <;> rw [readChainWithin, if_pos rfl] <;> rfl

/-- What is done with its first round does not depend on how many pages there may be. -/
theorem readChainWithin_of_follow?_none (h : follow? (page, f) = none) (n : Nat) :
    EndsWithin (n + 1) page f ∧ ∀ m, n ≤ m →
      readChainWithin (m + 1) page f = readChainWithin (n + 1) page f := by
  by_cases hpage : page = noPage
  · -- the chain is at its end
    subst hpage
    refine ⟨?_, fun m _ => by rw [readChainWithin_noPage, readChainWithin_noPage]⟩
    rw [EndsWithin, Act.outcome_ok (readChainWithin_noPage _ f)]
    exact fun h => by cases h
  · rw [follow?, if_neg hpage] at h
    cases hread : PageFile.read page f with
    | error e f₁ =>
      -- the page cannot be read
      have hfails (m : Nat) : readChainWithin (m + 1) page f = .error e f₁ := by
        rw [readChainWithin_succ hpage, Act.bind_error hread]
      refine ⟨?_, fun m _ => by rw [hfails, hfails]⟩
      rw [EndsWithin, Act.outcome_error (hfails n)]
      exact fun h => by cases h
    | ok payload f₁ =>
      -- the page is too short to hold a link
      have hshort : payload.length < 4 := by
        by_contra hlong
        simp only [hread, if_neg hlong] at h
        cases h
      have hfails (m : Nat) : readChainWithin (m + 1) page f =
          .error (.corrupt (.chainPageTooShort page)) f₁ := by
        rw [readChainWithin_succ hpage, Act.bind_ok hread, if_pos hshort]
        rfl
      refine ⟨?_, fun m _ => by rw [hfails, hfails]⟩
      rw [EndsWithin, Act.outcome_error (hfails n)]
      exact fun h => by cases h

/-- With no round allowed, a chain that goes on is not read to its end. -/
theorem readChainWithin_zero (hpage : page ≠ noPage) (f : PageFile) :
    readChainWithin 0 page f = .ok none f := by
  rw [readChainWithin, if_neg hpage]
  rfl

/-- A reading is done after a round when what is left of it is. -/
theorem endsWithin_succ_iff (h : follow? (page, f) = some (next, f')) :
    EndsWithin (n + 1) page f ↔ EndsWithin n next f' := by
  obtain ⟨payload, hround⟩ := readChainWithin_of_follow? h
  have hrun : Act.outcome (readChainWithin (n + 1) page) f =
      Act.outcome (readChainWithin n next >>= inFront payload) f' := Act.outcome_congr (hround n)
  rw [EndsWithin, EndsWithin, hrun, not_iff_not]
  cases hrest : readChainWithin n next f' with
  | error e g =>
    rw [Act.outcome_error hrest, Act.outcome_error (Act.bind_error hrest)]
  | ok answer g =>
    cases answer with
    | none => exact iff_of_true (Act.outcome_ok (Act.bind_ok hrest)) (Act.outcome_ok hrest)
    | some bytes =>
      have hbind : (readChainWithin n next >>= inFront payload) f' =
          .ok (some (payload.drop 4 ++ bytes)) g := Act.bind_ok hrest
      rw [Act.outcome_ok hrest, Act.outcome_ok hbind]
      exact iff_of_false (fun h => by cases h) (fun h => by cases h)

/-- A reading that is done is not changed by room for more pages. -/
theorem EndsWithin.readChainWithin_eq (h : EndsWithin n page f) {m : Nat} (hm : n ≤ m) :
    readChainWithin m page f = readChainWithin n page f := by
  induction n generalizing page f m with
  | zero =>
    by_cases hpage : page = noPage
    · subst hpage
      rw [readChainWithin_noPage, readChainWithin_noPage]
    · exact absurd (Act.outcome_ok (readChainWithin_zero hpage f)) h
  | succ n ih =>
    obtain ⟨m, rfl⟩ : ∃ k, m = k + 1 := ⟨m - 1, by omega⟩
    cases hround : follow? (page, f) with
    | none => exact (readChainWithin_of_follow?_none hround n).2 m (Nat.le_of_succ_le_succ hm)
    | some s =>
      obtain ⟨next, f'⟩ := s
      obtain ⟨payload, hrest⟩ := readChainWithin_of_follow? hround
      have hsame := ih ((endsWithin_succ_iff hround).mp h) (Nat.le_of_succ_le_succ hm)
      rw [hrest, hrest]
      cases hrun : readChainWithin n next f' with
      | ok answer g => rw [Act.bind_ok hrun, Act.bind_ok (hsame.trans hrun)]
      | error e g => rw [Act.bind_error hrun, Act.bind_error (hsame.trans hrun)]

/-- A reading that is not done has gone on. -/
theorem exists_rounds_of_not_endsWithin (h : ¬ EndsWithin n page f) :
    ∃ t, rounds n (page, f) = some t := by
  induction n generalizing page f with
  | zero => exact ⟨_, rfl⟩
  | succ n ih =>
    cases hround : follow? (page, f) with
    | none => exact absurd (readChainWithin_of_follow?_none hround n).1 h
    | some s =>
      obtain ⟨next, f'⟩ := s
      rw [rounds_succ, hround]
      exact ih fun hends => h ((endsWithin_succ_iff hround).mpr hends)

/-- Where links come back, any number of pages is read, and given back, and another one is due. -/
theorem Circles.endless (h : Circles page f) (n : Nat) :
    ∃ f', readChainWithin n page f = .ok none f' ∧ f'.reads = f.reads + n ∧
      f'.free.length = f.free.length + n := by
  induction n generalizing page f with
  | zero =>
    obtain ⟨next, f', hround, -⟩ := h.follow?_eq
    exact ⟨f, readChainWithin_zero (follow?_cases hround).1 f, rfl, rfl⟩
  | succ n ih =>
    obtain ⟨next, f', hround, hnext⟩ := h.follow?_eq
    obtain ⟨⟨-, hreads, hfree⟩, -⟩ := follow?_spec hround
    obtain ⟨payload, hrest⟩ := readChainWithin_of_follow? hround
    obtain ⟨g, hrun, hreads', hfree'⟩ := ih hnext
    refine ⟨g, ?_, by omega, ?_⟩
    · rw [hrest, Act.bind_ok hrun]
      rfl
    · rw [hfree', hfree, List.length_cons]
      omega

/-- A reading that links do not bring back is done within the bound. -/
theorem endsWithin_chainBound (h : ¬ Circles page f) : EndsWithin (chainBound f) page f := by
  by_contra hends
  obtain ⟨t, hrounds⟩ := exists_rounds_of_not_endsWithin hends
  exact h (circles_of_rounds (s := (page, f)) (Nat.le_refl _) hrounds)

/-! ## Counting the pages read -/

/-- An action reads no more than so many pages. -/
def ReadsAtMost {α : Type} (k : Nat) (x : Act PageFile α) : Prop :=
  ∀ f, (Act.after x f).reads ≤ f.reads + k

namespace ReadsAtMost

variable {α β : Type} {x : Act PageFile α} {y : α → Act PageFile β} {k l : Nat}

theorem pure (a : α) : ReadsAtMost k (pure a : Act PageFile α) := fun _ => Nat.le_add_right _ _

theorem throw (e : StorageError) : ReadsAtMost k (throw e : Act PageFile α) :=
  fun _ => Nat.le_add_right _ _

theorem ofExcept (r : Except StorageError α) : ReadsAtMost k (Act.ofExcept r : Act PageFile α) := by
  cases r with
  | ok a => exact pure a
  | error e => exact throw e

/-- What two acts read together is at most the sum of what they read. -/
theorem bind (hx : ReadsAtMost k x) (hy : ∀ a, ReadsAtMost l (y a)) :
    ReadsAtMost (k + l) (x >>= y) := by
  intro f
  refine Act.after_bind_of (P := fun s : PageFile => s.reads ≤ f.reads + k)
    (Q := fun s : PageFile => s.reads ≤ f.reads + (k + l)) (hx f) (fun s h => by omega) ?_
  intro a s h
  have hrest := hy a s
  omega

/-- A check that may fail, and what comes after it. -/
theorem check {c : Prop} [Decidable c] {e : StorageError} {rest : PUnit → Act PageFile α}
    (h : ReadsAtMost k (rest ⟨⟩)) :
    ReadsAtMost k (if c then (throwThe StorageError e : Act PageFile PUnit) >>= rest else rest ⟨⟩) := by
  split
  · exact throw e
  · exact h

/-- Reading a page is one read, also where it is in the cache or cannot be read. -/
theorem read (page : PageId) : ReadsAtMost 1 (PageFile.read page) := by
  intro f
  refine Nat.le_of_eq ?_
  cases hfind : f.cache.find? page with
  | some cached =>
    simp only [Act.after, PageFile.read, hfind, PageFile.reads]
    omega
  | none =>
    rw [Act.after, PageFile.read_miss hfind]
    cases f.load page <;> rfl

/-- Giving a page back is no read. -/
theorem release (page : PageId) : ReadsAtMost 0 (PageFile.release page) := by
  intro f
  rw [Act.after_ok (PageFile.release_run page f)]
  split <;> exact Nat.le_refl _

end ReadsAtMost

/-- Each round is a read of one page and its return to the free pages. -/
theorem readsAtMost_readChainWithin (n : Nat) (page : PageId) :
    ReadsAtMost n (readChainWithin n page) := by
  induction n generalizing page with
  | zero =>
    rw [readChainWithin]
    split
    · exact .pure _
    · exact .pure _
  | succ n ih =>
    by_cases hpage : page = noPage
    · rw [readChainWithin, if_pos hpage]
      exact .pure _
    · rw [readChainWithin_succ hpage, Nat.add_comm]
      refine (ReadsAtMost.read page).bind fun payload => .check ?_
      have hrest : ReadsAtMost (0 + (n + 0)) (do
          PageFile.release page
          let rest ← readChainWithin n (numberAt payload 0 4)
          inFront payload rest) :=
        (ReadsAtMost.release page).bind fun _ => (ih _).bind fun rest => by
          cases rest <;> exact .pure _
      simpa using hrest

/-- Behind the chain only the tail's page is read. -/
theorem readsAtMost_finishLoad (kind : Kind) (d : Descriptor) (directory : List PageRef) :
    ReadsAtMost 1 (finishLoad kind d directory) := by
  have htail : ReadsAtMost (1 + (0 + (0 + 0))) (loadTail kind d) := by
    unfold loadTail
    split
    · exact .pure _
    · exact (ReadsAtMost.read _).bind fun _ => (ReadsAtMost.ofExcept _).bind fun _ =>
        (ReadsAtMost.release _).bind fun _ => .pure _
  have hcount (tail : List Tuple) : ReadsAtMost 0 (countLoaded kind d directory tail) := by
    unfold countLoaded
    exact ReadsAtMost.check (ReadsAtMost.check (.pure _))
  unfold finishLoad
  exact ReadsAtMost.check (htail.bind hcount)

/-! ## Which loads end -/

/-- With as many rounds as the bound the reading is at its end, or is never: with more it goes on from
there. -/
theorem readChain_eq (page : PageId) (f : PageFile) :
    readChain page f = (readChainWithin (chainBound f) page >>= chainRead page) f := by
  have hget : (get : Act PageFile PageFile) f = .ok f f := rfl
  rw [readChain, Act.bind_ok hget]
  rfl

/-- A load reads no more pages than its directory may have, and one for its tail. -/
theorem reads_load (kind : Kind) (d : Descriptor) (f : PageFile) :
    (Act.after (load kind d) f).reads ≤ f.reads + chainBound f + 1 := by
  rw [load_eq]
  refine Act.after_bind_of (P := fun s : PageFile => s.reads ≤ f.reads + chainBound f)
    (Q := fun s : PageFile => s.reads ≤ f.reads + chainBound f + 1) ?_ (fun s h => by omega) ?_
  · -- the directory is read along its chain, and a round of that reads one page
    rw [loadDirectory]
    split
    · exact Nat.le_add_right _ _
    · refine Act.after_bind_of (P := fun s : PageFile => s.reads ≤ f.reads + chainBound f)
        (Q := fun s : PageFile => s.reads ≤ f.reads + chainBound f) ?_ (fun s h => h) ?_
      · rw [Act.after_congr (readChain_eq _ f)]
        exact ((readsAtMost_readChainWithin _ _).bind (l := 0) fun answer => by
          cases answer with
          | none => exact .throw _
          | some bytes => exact .pure _) f
      · intro bytes s h
        cases directoryOf? bytes with
        | none => exact h
        | some directory => exact h
  · intro directory s h
    -- one page more: the last one, that is still open
    have hrest := readsAtMost_finishLoad kind d directory s
    omega

/-- The load of a directory that is never read to its end. -/
theorem Circles.outcome_load {d : Descriptor} (h : Circles d.directory.toNat f) (kind : Kind) :
    Act.outcome (load kind d) f = .error (.corrupt (.unendingChain d.directory.toNat)) := by
  obtain ⟨next, f', hround, -⟩ := h.follow?_eq
  have hd : d.directory ≠ 0 := fun heq => (follow?_cases hround).1 (congrArg UInt32.toNat heq)
  obtain ⟨g, hrun, -⟩ := h.endless (chainBound f)
  have hchain : readChain d.directory.toNat f =
      .error (.corrupt (.unendingChain d.directory.toNat)) g := by
    rw [readChain_eq, Act.bind_ok hrun]
    rfl
  have hdirectory : loadDirectory d f =
      .error (.corrupt (.unendingChain d.directory.toNat)) g := by
    rw [loadDirectory, if_neg hd, Act.bind_error hchain]
  rw [load_eq, Act.outcome_error (Act.bind_error hdirectory)]

/-- A load is done, with a list or an error, exactly if the directory does not come to a page whose
links lead back to it. If it does not, its chain is read within a number of pages that the file and its
cache bound, and room for more pages changes nothing. If it does, then after any number of pages another
one is due, and all of them have been given back.

For the model the reading is cut off after `chainBound` rounds, with an error of its own. The theorem
says when this is the error of a reading that would go on for ever. -/
theorem load_ends_iff (kind : Kind) (d : Descriptor) (f : PageFile) :
    ((∃ n, EndsWithin n d.directory.toNat f) ↔ ¬ Circles d.directory.toNat f) ∧
    (¬ Circles d.directory.toNat f →
      EndsWithin (chainBound f) d.directory.toNat f ∧
      (∀ n, chainBound f ≤ n →
        readChainWithin n d.directory.toNat f = readChainWithin (chainBound f) d.directory.toNat f) ∧
      (Act.after (load kind d) f).reads ≤ f.reads + chainBound f + 1) ∧
    (Circles d.directory.toNat f →
      Act.outcome (load kind d) f = .error (.corrupt (.unendingChain d.directory.toNat)) ∧
      ∀ n, ∃ f', readChainWithin n d.directory.toNat f = .ok none f' ∧ f'.reads = f.reads + n ∧
        f'.free.length = f.free.length + n) := by
  refine ⟨⟨?_, fun h => ⟨_, endsWithin_chainBound h⟩⟩, fun h => ?_,
    fun h => ⟨h.outcome_load kind, h.endless⟩⟩
  · rintro ⟨n, hends⟩ hcircles
    obtain ⟨f', hrun, -⟩ := hcircles.endless n
    exact hends (Act.outcome_ok hrun)
  · have hends := endsWithin_chainBound h
    exact ⟨hends, fun n hn => hends.readChainWithin_eq hn, reads_load kind d f⟩

/-- A file with a page that holds nothing but a link. -/
def linkedTo (next : UInt8) (fresh : PageFile) : PageFile :=
  Act.after (PageFile.write 1 [next, 0, 0, 0]) (Act.after PageFile.allocate fresh)

/-- An empty list whose directory is said to begin on page 1. -/
def startsAtOne : Descriptor where
  length := 0
  pageCount := 0
  directory := 1
  tailPage := 0
  tailLength := 0
  lastKey := none

/-- The file of one page, linked to the given one, is sound and has just these bytes on it. -/
theorem linkedTo_spec (hf : f.Sound) (next : UInt8) :
    (linkedTo next f).Sound ∧ (linkedTo next f).disk.pages 1 = some [next, 0, 0, 0] := by
  obtain ⟨id, f₁, hallocate, hf₁, -⟩ := PageFile.allocate_spec hf
  have hone : (1 : PageId) ≠ noPage := by decide
  have hfour : 4 ≤ 248 := by decide
  have hsize : [next, 0, 0, 0].length ≤ f₁.disk.capacity := Nat.le_trans hfour hf₁.capacity_bounds.1
  obtain ⟨f₂, hwrite, hf₂, hpage, -⟩ := PageFile.write_spec hf₁ hone hsize
  rw [linkedTo, Act.after_ok hallocate, Act.after_ok hwrite]
  exact ⟨hf₂, hpage⟩

/-- A round over the page goes to its link, and then the cache knows nothing of the page. -/
theorem follow?_linkedTo (hf : f.Sound) (next : UInt8) :
    ∃ f', follow? (1, linkedTo next f) = some (next.toNat, f') ∧ f'.cache.find? 1 = none ∧
      f'.load 1 = .ok [next, 0, 0, 0] := by
  obtain ⟨hsound, hpage⟩ := linkedTo_spec hf next
  obtain ⟨f₁, hread, hf₁, hdisk₁⟩ := PageFile.read_spec hsound hpage
  have hrelease := PageFile.release_run 1 f₁
  rw [if_neg (show (1 : PageId) ≠ noPage by decide)] at hrelease
  have hnext : numberAt [next, 0, 0, 0] 0 4 = next.toNat := by
    simp [numberAt, ofLittleEndian]
  refine ⟨{ f₁ with cache := f₁.cache.erase 1, free := 1 :: f₁.free }, ?_, ?_, ?_⟩
  · rw [follow?, if_neg (by decide), hread]
    show (if 4 < 4 then none else some (numberAt [next, 0, 0, 0] 0 4, _)) = _
    rw [if_neg (by decide), hnext, Act.after_ok hrelease]
  · exact (Recency.find?_erase _ 1 1).trans (if_pos rfl)
  · have hkept : f₁.disk.pages 1 = some [next, 0, 0, 0] := hdisk₁ ▸ hpage
    exact PageFile.disk_pages_eq_some.mp hkept

/-- A page whose link leads to itself is read from the cache once, and then from the file for ever. -/
theorem circles_linkedTo (hf : f.Sound) : Circles 1 (linkedTo 1 f) := by
  obtain ⟨f', hround, huncached, hload⟩ := follow?_linkedTo hf 1
  exact .later hround (.circuit (.single ⟨by decide, huncached, _, hload, by decide, by decide⟩))

/-- A page that links to no page ends its chain. -/
theorem not_circles_linkedTo (hf : f.Sound) : ¬ Circles 1 (linkedTo 0 f) := by
  intro h
  obtain ⟨f', hround, -⟩ := follow?_linkedTo hf 0
  obtain ⟨next, f'', hround', hnext⟩ := h.follow?_eq
  cases hround.symm.trans hround'
  obtain ⟨_, _, hend, -⟩ := hnext.follow?_eq
  exact absurd hend (by simp [follow?, noPage])

/-- The load of a chain of one page is done; that of a page which links to itself is not. -/
theorem load_ends_iff_single :
    ∃ fresh, PageFile.create 256 16 = .ok fresh ∧
      EndsWithin (chainBound (linkedTo 0 fresh)) 1 (linkedTo 0 fresh) ∧
      Act.outcome (load .plain startsAtOne) (linkedTo 1 fresh) =
        .error (.corrupt (.unendingChain 1)) := by
  obtain ⟨fresh, hfresh⟩ : ∃ fresh, PageFile.create 256 16 = .ok fresh := ⟨_, rfl⟩
  have hsound := (PageFile.create_spec hfresh).1
  exact ⟨fresh, hfresh, ((load_ends_iff .plain startsAtOne _).2.1 (not_circles_linkedTo hsound)).1,
    ((load_ends_iff .plain startsAtOne _).2.2 (circles_linkedTo hsound)).1⟩

/-- A load of a descriptor that points at a page whose link leads to itself: however many pages are
read, the reading of the directory is not done. -/
theorem load_never_ends :
    ∃ fresh, PageFile.create 256 16 = .ok fresh ∧
      Act.outcome (PageFile.read 1) (linkedTo 1 fresh) = .ok [1, 0, 0, 0] ∧
      ∀ n, Act.outcome (readChainWithin n startsAtOne.directory.toNat) (linkedTo 1 fresh) =
        .ok none := by
  obtain ⟨fresh, hfresh⟩ : ∃ fresh, PageFile.create 256 16 = .ok fresh := ⟨_, rfl⟩
  have hsound := (PageFile.create_spec hfresh).1
  obtain ⟨hlinked, hpage⟩ := linkedTo_spec hsound 1
  obtain ⟨f', hread, -⟩ := PageFile.read_spec hlinked hpage
  refine ⟨fresh, hfresh, Act.outcome_ok hread, fun n => ?_⟩
  obtain ⟨g, hrun, -⟩ := (circles_linkedTo hsound).endless n
  exact Act.outcome_ok hrun

end Store

end EventIndex
