import Mathlib
import EventIndex.Proofs.Cursor.Conjunction
import EventIndex.Proofs.Cursor.Listed

/-! # Intersections as cursors

An intersection of several heads is a cursor over `meets`, which has one tuple for each result. Its gap
lies at first behind all results that some head has reached: `opens_meets`. Whether roles must match or
not, every search it makes ends by itself.

- Without roles the results are the keys that all heads have, each with the first tuple of the first head
  (`opens_intersection`).
- With roles the results are the keys for which a tuple of the first head has a *partner* in each of the
  others (`opens_matching`). The partners are not compared with each other. For two heads there is
  nothing to compare; for more, a key may be returned although no choice of one tuple from each head is
  compatible in pairs (`returns_incompatible`).
-/

namespace EventIndex

open Cursor Heads EventIndex.Tuple

namespace Conjunction

variable {C : Type} [Cursor C] {ds : Disks} {heads : List C} {inputs : List (List Tuple × Nat)}
  {lists others : List (List Tuple)} {us : List Tuple} {t u : Tuple} {key : UInt64}
  {matchRoles : Bool}

/-! ## Opening -/

/-- The searches from the present boundary, both ways, end by themselves, and the bound on their rounds
does not cut them off. -/
structure SearchesEnd (x : Conjunction C) (pages : PageFile) : Prop where
  forward : ∃ found s, Ends (roundForward x.matchRoles) x.boundary ⟨x.heads, pages⟩ found s ∧
    searchForward x.matchRoles (Heads.extent x.heads + 1) x.boundary ⟨x.heads, pages⟩ = .ok found s
  backward : ∃ found s, Ends (roundBackward x.matchRoles) x.boundary ⟨x.heads, pages⟩ found s ∧
    searchBackward x.matchRoles (Heads.extent x.heads + 1) x.boundary ⟨x.heads, pages⟩ = .ok found s

/-- However the intersection is moved that an action opens, the searches of the next step end. -/
def AlwaysEnds (ds : Disks) (opened : Act PageFile (Conjunction C)) : Prop :=
  ∀ pages : PageFile, pages.Sound → ds pages.disk → ∀ moves : List Move,
    ∃ x pages₁ found x' pages', opened pages = .ok x pages₁ ∧
      Move.walk moves ⟨x, pages₁⟩ = .ok found ⟨x', pages'⟩ ∧ x'.SearchesEnd pages'

theorem meets_nil (matchRoles : Bool) : meets matchRoles [] = [] := by
  rw [meets, keysOf, List.flatten_nil, List.map_nil, inKeyOrder, sortedKeys, List.mergeSort_nil,
    List.dedup_nil, List.filterMap_nil]

theorem Meets.searchesEnd {x : Conjunction C} {ts : List Tuple} {boundary : UInt64}
    (h : Meets ds x ts boundary) (hne : x.heads ≠ []) {pages : PageFile} (hpages : pages.Sound)
    (hdisk : ds pages.disk) : x.SearchesEnd pages := by
  obtain ⟨lists, hshow, hm⟩ := h.shown
  have hlists : lists ≠ [] := by
    rintro rfl
    exact hne (List.eq_nil_of_length_eq_zero hshow.length_eq)
  constructor
  · obtain ⟨heads', hends, -⟩ := ends_searchForward hm hlists hshow x.boundary
    obtain ⟨pages', hend, hrun, -, -⟩ := hends pages hpages hdisk
    refine ⟨_, _, hend, ?_⟩
    rw [searchForward_eq]
    exact hrun _ (Nat.le_refl _)
  · obtain ⟨heads', hends, -⟩ := ends_searchBackward hm hlists hshow x.boundary
    obtain ⟨pages', hend, hrun, -, -⟩ := hends pages hpages hdisk
    refine ⟨_, _, hend, ?_⟩
    rw [searchBackward_eq]
    exact hrun _ (Nat.le_refl _)

/-- An intersection of other than one head goes through its results, from behind those that a head has
reached. -/
theorem opens_meets (h : Stand ds heads inputs)
    (hmax : ∀ input ∈ inputs, ∀ t ∈ input.1, t.key ≠ maxKey) (hlen : heads.length ≠ 1)
    (matchRoles : Bool) :
    Opens ds (ofHeads heads matchRoles) (meets matchRoles (inputs.map Prod.fst))
        ((meets matchRoles (inputs.map Prod.fst)).countP fun t => reaches inputs t.key) ∧
      (heads ≠ [] → AlwaysEnds ds (ofHeads heads matchRoles)) := by
  have hinputs : inputs.length = heads.length := (List.Forall₂.length_eq h).symm
  obtain ⟨x, hread, rfl, h', hboundary⟩ := reads_opened h matchRoles
  obtain ⟨hmeets, hbelow⟩ := meets_of_stand h' hmax (hinputs ▸ hlen)
  have hmimicry := (bounded_meets (C := C) ds x.heads.length).mimicry
  constructor
  · have hgap : place (meets x.matchRoles (inputs.map Prod.fst)) x.boundary =
        (meets x.matchRoles (inputs.map Prod.fst)).countP fun t => reaches inputs t.key := by
      refine List.countP_congr fun t _ => ?_
      rw [decide_eq_true_eq]
      exact hboundary hmax t.key
    rw [← hgap]
    exact .of_shows hread (hmimicry.shows ⟨x.boundary, ⟨⟨hmeets, rfl⟩, hbelow⟩, rfl⟩)
  · intro hne pages hpages hdisk moves
    obtain ⟨pages₁, hopen, hpages₁, hdisk₁⟩ := hread pages hpages hdisk
    obtain ⟨x', p', hwalk, ⟨b', ⟨⟨hmeets', hcount⟩, -⟩, -⟩⟩ :=
      hmimicry.walk ⟨x.boundary, ⟨⟨hmeets, rfl⟩, hbelow⟩, rfl⟩ moves
    obtain ⟨pages', hrun, hpages', hdisk'⟩ := hwalk pages₁ hpages₁ (hdisk₁.symm ▸ hdisk)
    refine ⟨x, pages₁, _, x', pages', hopen, hrun, hmeets'.searchesEnd ?_ hpages' ?_⟩
    · -- the heads are as many as before
      intro hnil
      rw [hnil, List.length_nil, List.Forall₂.length_eq h', hinputs] at hcount
      exact hne (List.eq_nil_of_length_eq_zero hcount.symm)
    · rw [hdisk', hdisk₁]
      exact hdisk

/-- An intersection of one head is a cursor like this head. -/
theorem opens_single {c : C} {p : Nat} (h : Shows ds c us p) (matchRoles : Bool) :
    Opens ds (ofHeads [c] matchRoles) us p := by
  have hstand : Stand ds [c] [(us, p)] := .cons h .nil
  obtain ⟨x, hread, -, h', -⟩ := reads_opened hstand matchRoles
  rcases hheads : x.heads with _ | ⟨c', _ | _⟩ <;> rw [hheads] at h' <;>
    rcases h' with _ | ⟨hc, ⟨⟩⟩
  exact .of_shows hread (shows_single hheads hc)

/-! ## Without roles -/

/-- One tuple for each key that all lists have, the first of the first list, in the order of keys. -/
structure IsIntersection (lists : List (List Tuple)) (ts : List Tuple) : Prop where
  ordered : ts.Pairwise fun t u => t.key < u.key
  keys : ∀ key, (∃ t ∈ ts, t.key = key) ↔ ∀ us ∈ lists, ∃ u ∈ us, u.key = key
  first : ∀ t ∈ ts, ∃ us, lists.head? = some us ∧ firstAt t.key us = some t

theorem isIntersection_meets (hne : lists ≠ []) : IsIntersection lists (meets false lists) where
  ordered := (merges_meets false lists).strict
  keys := by
    intro key
    rw [(merges_meets false lists).exists_key_iff fun t ht => (meetAt_mem ht).1, meetAt_isSome_iff]
    exact and_iff_right hne
  first := by
    intro t ht
    have hpick := (merges_meets false lists).pick_eq ht
    rw [meetAt, if_neg Bool.false_ne_true] at hpick
    split at hpick
    · exact Option.bind_eq_some_iff.mp hpick
    · cases hpick

/-- There is no more than one such list. -/
theorem IsIntersection.unique {ts us : List Tuple} (ht : IsIntersection lists ts)
    (hu : IsIntersection lists us) : ts = us := by
  have hsub : ∀ {ts us}, IsIntersection lists ts → IsIntersection lists us → ∀ t ∈ ts, t ∈ us := by
    intro ts us ht hu t htmem
    obtain ⟨u, humem, hkey⟩ := (hu.keys t.key).mpr ((ht.keys t.key).mp ⟨t, htmem, rfl⟩)
    obtain ⟨vs, hhead, hfirst⟩ := ht.first t htmem
    obtain ⟨vs', hhead', hfirst'⟩ := hu.first u humem
    rw [hkey, ← Option.some.inj (hhead.symm.trans hhead'), hfirst, Option.some.injEq] at hfirst'
    rwa [hfirst']
  exact eq_of_strict ht.ordered hu.ordered fun t => ⟨hsub ht hu t, hsub hu ht t⟩

/-- The intersection of several cursors is a cursor over the tuples of their common keys. It starts behind
the results that a head has reached, and its searches end. The intersection of one cursor is that cursor,
and the one of no cursors is empty.

`IsIntersection` and `reaches` speak of the lists alone. The largest key is excluded, because the
boundary of a merge cannot be moved past it. -/
theorem opens_intersection (h : Stand ds heads inputs) :
    (2 ≤ heads.length → (∀ input ∈ inputs, ∀ t ∈ input.1, t.key ≠ maxKey) →
      ∃ ts, IsIntersection (inputs.map Prod.fst) ts ∧
        Opens ds (ofHeads heads false) ts (ts.countP fun t => reaches inputs t.key) ∧
        AlwaysEnds ds (ofHeads heads false)) ∧
    (∀ c, heads = [c] → ∀ pages : PageFile, pages.Sound → ds pages.disk → ∀ moves : List Move,
      Act.outcome (ofHeads [c] false >>= fun x => Over.runOn x (Move.walk moves)) pages =
        Act.outcome (Over.runOn c (Move.walk moves)) pages) ∧
    (heads = [] → Opens ds (ofHeads heads false) [] 0) := by
  refine ⟨?_, ?_, ?_⟩
  · intro hlen hmax
    -- two heads or more: the merged list is the intersection
    have hinputs : inputs.length = heads.length := (List.Forall₂.length_eq h).symm
    have hlists : inputs.map Prod.fst ≠ [] := by
      intro hnil
      rw [List.map_eq_nil_iff.mp hnil, List.length_nil] at hinputs
      omega
    obtain ⟨hopens, hends⟩ := opens_meets h hmax (by omega) false
    refine ⟨_, isIntersection_meets hlists, hopens, hends ?_⟩
    rintro rfl
    cases hlen
  · rintro c rfl pages hpages hdisk moves
    rcases h with _ | ⟨hc, -⟩
    -- a single head is handed every move
    rw [(opens_single hc false).walks pages hpages hdisk moves, hc.outcome_walk hpages hdisk]
  · rintro rfl
    rcases h with _ | _
    have hnone : Stand ds ([] : List C) [] := .nil
    obtain ⟨hopens, -⟩ := opens_meets hnone (by simp) (by simp) false
    rwa [List.map_nil, meets_nil, List.countP_nil] at hopens

/-- Two heads with the keys 4 and 7 in common. The first one stands behind key 4. -/
theorem opens_intersection_small :
    Opens (fun _ => True)
      (ofHeads [Listed.standing [plain 1, plain 4, plain 4, plain 7] 3,
        Listed.standing [plain 2, plain 4, plain 7, plain 9] 1] false)
      [plain 4, plain 7] 1 := by
  have hstand : Stand (fun _ => True)
      [Listed.standing [plain 1, plain 4, plain 4, plain 7] 3,
        Listed.standing [plain 2, plain 4, plain 7, plain 9] 1]
      [([plain 1, plain 4, plain 4, plain 7], 3), ([plain 2, plain 4, plain 7, plain 9], 1)] :=
    .cons (Listed.shows _ (by decide) (by decide)) (.cons (Listed.shows _ (by decide) (by decide)) .nil)
  obtain ⟨ts, hts, hopens, -⟩ := (opens_intersection hstand).1 (by decide) (by decide)
  have hresult : meets false [[plain 1, plain 4, plain 4, plain 7], [plain 2, plain 4, plain 7, plain 9]] =
      [plain 4, plain 7] := by cbv
  have heq : ts = [plain 4, plain 7] :=
    (hts.unique (isIntersection_meets (List.cons_ne_nil _ _))).trans hresult
  subst heq
  exact hopens

/-! ## With matching roles -/

/-- Every list has a tuple with the key of `t` and a role that is compatible with the one of `t`. -/
def HasPartners (lists : List (List Tuple)) (t : Tuple) : Prop :=
  ∀ us ∈ lists, ∃ u ∈ us, u.key = t.key ∧ t.compatible u = true

/-- One tuple for each key for which a tuple of the first list has partners in all others: the first such
tuple, in the order of keys. -/
structure IsMatching (first : List Tuple) (others : List (List Tuple)) (ts : List Tuple) : Prop where
  ordered : ts.Pairwise fun t u => t.key < u.key
  keys : ∀ key, (∃ t ∈ ts, t.key = key) ↔ ∃ t ∈ first, t.key = key ∧ HasPartners others t
  /-- No tuple with this key and with partners comes before it. -/
  chosen : ∀ t ∈ ts, ∃ before after, first = before ++ t :: after ∧ HasPartners others t ∧
    ∀ u ∈ before, u.key = t.key → ¬ HasPartners others u

/-- One tuple with a key is chosen from each list, so that each two of them are compatible, and `t` is the
one of the first list. -/
def PairwiseChoice (lists : List (List Tuple)) (key : UInt64) (t : Tuple) : Prop :=
  ∃ chosen, List.Forall₂ (fun us u => u ∈ us ∧ u.key = key) lists (t :: chosen) ∧
    (t :: chosen).Pairwise fun t u => t.compatible u = true

/-- Who takes part in a compatible choice has partners. -/
theorem PairwiseChoice.hasPartners (h : PairwiseChoice (us :: others) key t) :
    t ∈ us ∧ t.key = key ∧ HasPartners others t := by
  obtain ⟨chosen, hall, hpairs⟩ := h
  rcases hall with _ | ⟨⟨ht, rfl⟩, hrest⟩
  refine ⟨ht, rfl, ?_⟩
  intro vs hvs
  obtain ⟨i, hi⟩ := List.mem_iff_getElem?.mp hvs
  obtain ⟨hlt, rfl⟩ := List.getElem?_eq_some_iff.mp hi
  have hlt' : i < chosen.length := hrest.length_eq ▸ hlt
  obtain ⟨hmem, hkey⟩ := (List.forall₂_iff_get.mp hrest).2 i hlt hlt'
  exact ⟨chosen[i], hmem, hkey, (List.pairwise_cons.mp hpairs).1 _ (List.getElem_mem hlt')⟩

/-- With two lists, a partner is all that a compatible choice takes. -/
theorem HasPartners.pairwiseChoice {vs : List Tuple} (ht : t ∈ us) (h : HasPartners [vs] t) :
    PairwiseChoice [us, vs] t.key t := by
  obtain ⟨u, hu, hkey, hcompatible⟩ := h _ (List.mem_singleton_self _)
  refine ⟨[u], .cons ⟨ht, rfl⟩ (.cons ⟨hu, hkey⟩ .nil), ?_⟩
  exact List.pairwise_pair.mpr hcompatible

theorem all_any_runOf_iff (ht : t.key = key) :
    ((others.map (runOf key)).all fun run => run.any t.compatible) = true ↔ HasPartners others t := by
  subst ht
  simp only [List.all_eq_true, List.mem_map, List.any_eq_true, HasPartners]
  constructor
  · intro h us hus
    obtain ⟨u, hu, hcompatible⟩ := h _ ⟨us, hus, rfl⟩
    obtain ⟨hmem, hkey⟩ := mem_runOf.mp hu
    exact ⟨u, hmem, hkey, hcompatible⟩
  · rintro h _ ⟨us, hus, rfl⟩
    obtain ⟨u, hmem, hkey, hcompatible⟩ := h us hus
    exact ⟨u, mem_runOf.mpr ⟨hmem, hkey⟩, hcompatible⟩

theorem meetAt_true_eq_some_iff :
    meetAt true (us :: others) key = some t ↔ t.key = key ∧ HasPartners others t ∧
      ∃ before after, us = before ++ t :: after ∧
        ∀ u ∈ before, u.key = key → ¬ HasPartners others u := by
  show ((us.filter fun t => t.key = key).find? fun t =>
    (others.map (runOf key)).all fun run => run.any t.compatible) = some t ↔ _
  -- the first tuple of the run that has partners, as a search in the whole list
  rw [List.find?_filter, List.find?_eq_some_iff_append]
  constructor
  · rintro ⟨ht, before, after, rfl, hbefore⟩
    simp only [decide_eq_true_eq] at ht
    refine ⟨ht.1, (all_any_runOf_iff ht.1).mp ht.2, before, after, rfl, ?_⟩
    intro u hu hkey hpartners
    have hnot := hbefore u hu
    simp only [Bool.not_eq_true', decide_eq_false_iff_not] at hnot
    exact hnot ⟨decide_eq_true hkey, (all_any_runOf_iff hkey).mpr hpartners⟩
  · rintro ⟨hkey, hpartners, before, after, rfl, hbefore⟩
    refine ⟨?_, before, after, rfl, ?_⟩
    · exact decide_eq_true ⟨decide_eq_true hkey, (all_any_runOf_iff hkey).mpr hpartners⟩
    · intro u hu
      simp only [Bool.not_eq_true', decide_eq_false_iff_not, decide_eq_true_eq]
      rintro ⟨hukey, hall⟩
      exact hbefore u hu hukey ((all_any_runOf_iff hukey).mp hall)

theorem isMatching_meets : IsMatching us others (meets true (us :: others)) where
  ordered := (merges_meets true _).strict
  keys := by
    intro key
    rw [(merges_meets true _).exists_key_iff fun t ht => (meetAt_mem ht).1]
    constructor
    · intro hsome
      obtain ⟨t, ht⟩ := Option.isSome_iff_exists.mp hsome
      obtain ⟨hkey, hpartners, before, after, rfl, -⟩ := meetAt_true_eq_some_iff.mp ht
      exact ⟨t, by simp, hkey, hpartners⟩
    · rintro ⟨t, ht, rfl, hpartners⟩
      refine List.find?_isSome.mpr ⟨t, mem_runOf.mpr ⟨ht, rfl⟩, ?_⟩
      exact (all_any_runOf_iff rfl).mpr hpartners
  chosen := by
    intro t ht
    obtain ⟨-, hpartners, before, after, hsplit, hbefore⟩ :=
      meetAt_true_eq_some_iff.mp ((merges_meets true _).pick_eq ht)
    exact ⟨before, after, hsplit, hpartners, hbefore⟩

/-- There is no more than one such list. -/
theorem IsMatching.unique {ts vs : List Tuple} (ht : IsMatching us others ts)
    (hv : IsMatching us others vs) : ts = vs := by
  have hmem : ∀ {ts}, IsMatching us others ts → ∀ t, t ∈ ts ↔ meetAt true (us :: others) t.key = some t := by
    intro ts ht t
    have hpick : ∀ u ∈ ts, meetAt true (us :: others) u.key = some u := by
      intro u hu
      obtain ⟨before, after, hsplit, hpartners, hbefore⟩ := ht.chosen u hu
      exact meetAt_true_eq_some_iff.mpr ⟨rfl, hpartners, before, after, hsplit, hbefore⟩
    refine ⟨hpick t, ?_⟩
    intro htpick
    obtain ⟨-, hpartners, before, after, hsplit, -⟩ := meetAt_true_eq_some_iff.mp htpick
    obtain ⟨u, hu, hkey⟩ := (ht.keys t.key).mpr ⟨t, by simp [hsplit], rfl, hpartners⟩
    have hupick := hpick u hu
    rw [hkey, htpick, Option.some.injEq] at hupick
    rwa [hupick]
  exact eq_of_strict ht.ordered hv.ordered fun t => (hmem ht t).trans (hmem hv t).symm

/-- The intersection of several cursors with matching roles is a cursor over the keys for which a tuple of
the first one has partners in the others. These are at least the keys with a choice that is compatible in
pairs, and they are just these keys when there are two cursors.

With three heads or more the partners need not be compatible with each other, since each of them is
compared with the tuple of the first head only (`IsMatching`). -/
theorem opens_matching {first : List Tuple × Nat} (h : Stand ds heads (first :: inputs))
    (hlen : 2 ≤ heads.length) (hmax : ∀ input ∈ first :: inputs, ∀ t ∈ input.1, t.key ≠ maxKey) :
    ∃ ts, IsMatching first.1 (inputs.map Prod.fst) ts ∧
      Opens ds (ofHeads heads true) ts (ts.countP fun t => reaches (first :: inputs) t.key) ∧
      AlwaysEnds ds (ofHeads heads true) ∧
      (∀ key t, PairwiseChoice ((first :: inputs).map Prod.fst) key t → ∃ t ∈ ts, t.key = key) ∧
      (heads.length = 2 → ∀ t ∈ ts, PairwiseChoice ((first :: inputs).map Prod.fst) t.key t) := by
  obtain ⟨hopens, hends⟩ := opens_meets h hmax (by omega) true
  have hmatching : IsMatching first.1 (inputs.map Prod.fst)
      (meets true ((first :: inputs).map Prod.fst)) := isMatching_meets
  refine ⟨_, hmatching, hopens, hends ?_, ?_, ?_⟩
  · rintro rfl
    cases hlen
  · intro key t hchoice
    -- tuples that match pairwise match that of the first head
    obtain ⟨ht, hkey, hpartners⟩ := hchoice.hasPartners
    exact (hmatching.keys key).mpr ⟨t, ht, hkey, hpartners⟩
  · intro htwo t ht
    -- with two heads there is no other pair
    obtain ⟨before, after, hsplit, hpartners, -⟩ := hmatching.chosen t ht
    have hone : inputs.length = 1 := by
      have hcount := List.Forall₂.length_eq h
      rw [htwo, List.length_cons] at hcount
      omega
    obtain ⟨second, rfl⟩ := List.length_eq_one_iff.mp hone
    refine HasPartners.pairwiseChoice ?_ hpartners
    rw [hsplit]
    exact List.mem_append_right _ List.mem_cons_self

/-- Two heads, where the wildcard at key 1 meets a role and the two roles at key 2 do not agree. -/
theorem opens_matching_small :
    ∃ ts, IsMatching [tagged 1 .any, tagged 2 .target] [[tagged 1 .value, tagged 2 .value]] ts ∧
      Opens (fun _ => True)
        (ofHeads [Listed.standing [tagged 1 .any, tagged 2 .target] 1,
          Listed.standing [tagged 1 .value, tagged 2 .value] 0] true) ts 1 ∧
      ∀ t ∈ ts, PairwiseChoice
        [[tagged 1 .any, tagged 2 .target], [tagged 1 .value, tagged 2 .value]] t.key t := by
  have hstand : Stand (fun _ => True)
      [Listed.standing [tagged 1 .any, tagged 2 .target] 1,
        Listed.standing [tagged 1 .value, tagged 2 .value] 0]
      [([tagged 1 .any, tagged 2 .target], 1), ([tagged 1 .value, tagged 2 .value], 0)] :=
    .cons (Listed.shows _ (by decide) (by decide)) (.cons (Listed.shows _ (by decide) (by decide)) .nil)
  obtain ⟨ts, hts, hopens, -, -, hpair⟩ := opens_matching hstand (by decide) (by decide)
  have hresult : meets true [[tagged 1 .any, tagged 2 .target], [tagged 1 .value, tagged 2 .value]] =
      [tagged 1 .any] := by cbv
  have heq : ts = [tagged 1 .any] := (hts.unique isMatching_meets).trans hresult
  subst heq
  exact ⟨_, hts, hopens, hpair rfl⟩

/-- Both `target` and `value` are compatible with `any`, and not with each other. Their intersection has
the key that all three share, going forward and going backward. -/
theorem returns_incompatible :
    (∃ fresh, PageFile.create 256 16 = .ok fresh ∧
      Act.outcome (ofHeads [Listed.standing [tagged 1 .any] 0, Listed.standing [tagged 1 .target] 0,
          Listed.standing [tagged 1 .value] 0] true >>=
            fun x => Over.runOn x (Move.walk [.next, .previous])) fresh =
        .ok [some (tagged 1 .any), some (tagged 1 .any)]) ∧
      ∀ t, ¬ PairwiseChoice [[tagged 1 .any], [tagged 1 .target], [tagged 1 .value]] 1 t := by
  constructor
  · refine ⟨_, rfl, ?_⟩
    cbv
  · rintro t ⟨chosen, hall, hpairs⟩
    rcases hall with _ | ⟨-, _ | ⟨⟨hu, -⟩, _ | ⟨⟨hv, -⟩, ⟨⟩⟩⟩⟩
    rw [List.mem_singleton.mp hu, List.mem_singleton.mp hv] at hpairs
    have hpair := (List.pairwise_cons.mp (List.pairwise_cons.mp hpairs).2).1 _ (List.mem_singleton_self _)
    revert hpair
    decide

end Conjunction

end EventIndex
