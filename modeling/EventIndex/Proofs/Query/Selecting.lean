import EventIndex.Proofs.Query.Opening

/-! # Selecting events

The cursor of a condition shows one tuple for each event that satisfies it, in order. `gives_cursor`
proves this along the tree: of a leaf from the lists that it opens, one theorem for each way of
opening them, and of `all` and `any` from what the operands show.

A leaf is opened in one of four ways: one list with roles, one list without them, two lists without
roles, or two lists whose roles have to match. For each way there is a lemma that says which events the
cursor selects; the conditions above the leaves follow by induction on the tree.

Main results:

* `gives_leafCursor`: the cursor of a leaf selects the events that satisfy it.
* `chooses_all`, `chooses_any`: intersections and unions of lists that choose events.
* `gives_cursor`: the cursor of a condition selects the events that satisfy it.
-/

namespace EventIndex

open Cursor

variable {b : Book} {ds : Disks} {start : EventId}

/-! ## Leaves -/

namespace Book.Complete

theorem kind_of_set (hb : b.Complete) {d : Dimension} {set : SetId} (h : d.set? = some set) :
    b.kind? set = some d.kind := (hb.kind?_eq set).trans (Dimension.shape_of_set h)

theorem kind_of_objectSet (hb : b.Complete) (half : Half) :
    b.kind? (objectSet half) = some .role := by
  rw [hb.kind?_eq]
  cases half <;> rfl

theorem kind_of_arrayIndexSet (hb : b.Complete) (half : Half) :
    b.kind? (arrayIndexSet half) = some .plain := by
  rw [hb.kind?_eq]
  cases half <;> rfl

/-- A plain list has each event once. -/
theorem strict (hb : b.Complete) {set : SetId} (h : b.kind? set = some .plain) (value : ValueId) :
    (b.lists set value).Pairwise fun t u => t.key < u.key := by
  refine (hb.ordered set value .plain h).follows.imp fun hfollow => ?_
  rcases hfollow with hlt | ⟨-, hequal⟩
  · exact hlt
  · cases hequal

theorem sorted (hb : b.Complete) {set : SetId} {k : Kind} (h : b.kind? set = some k)
    (value : ValueId) : Sorted (b.lists set value) :=
  (hb.ordered set value k h).follows.imp fun hfollow => hfollow.le

end Book.Complete

theorem exists_key_map_widen {ts : List Tuple} {event : EventId} :
    (∃ t ∈ ts.map Tuple.widen, t.key = event) ↔ ∃ t ∈ ts, t.key = event := by
  constructor
  · rintro ⟨_, ht, hkey⟩
    obtain ⟨t, hmem, rfl⟩ := List.mem_map.mp ht
    exact ⟨t, hmem, hkey⟩
  · rintro ⟨t, ht, hkey⟩
    exact ⟨t.widen, List.mem_map_of_mem ht, hkey⟩

namespace Plan

variable {l : Leaf} {set : SetId}

/-- A list is asked for a leaf. -/
theorem gives_lookUp (hl : l.isValid = true) (hset : l.dimension.set? = some set) :
    Gives b ds (lookUp set l) (Views (b.lists set l.value.toUInt32)) := by
  refine (Gives.check (l.valueId_of_isValid hl (Dimension.isSplit_of_set hset))).bind ?_
    fun _ => QueryAct.grows_ofAct (Engine.grows_lookUp _ _)
  rintro _ ds' - rfl
  exact .lookUp (Dimension.set_lt hset) _

/-- On a dimension with roles, an event counts once if one of its roles is accepted. -/
theorem gives_leafCursor_tagged (hb : b.Complete) (hl : l.isValid = true)
    (hset : l.dimension.set? = some set) (htagged : l.dimension.isRoleTagged = true) :
    Gives b ds (leafCursor start l) (b.Selects fun event => l.holds b.lists event) := by
  have hact : leafCursor start l = do
      let c ← taggedCursor start l.allowedRoles (← lookUp set l)
      return c.distinct := by
    unfold leafCursor
    split
    · rename_i hd
      rw [hd] at hset
      cases hset
    · rename_i hd
      rw [hd] at hset
      cases hset
    · simp only [hset, htagged, if_true]
  rw [hact]
  have hkind : b.kind? set = some .role := by
    rw [hb.kind_of_set hset, Dimension.kind, if_pos htagged]
  -- the filter comes before the duplicates go: an event counts if any of its roles is accepted
  obtain ⟨ts, hts⟩ : ∃ ts, ts = (b.lists set l.value.toUInt32).filter l.accepts := ⟨_, rfl⟩
  have hsorted : Sorted ts := hts ▸ (hb.sorted hkind _).filter _
  refine (gives_lookUp hl hset).bind (fun v ds₁ _ hv => ?_) fun v =>
    (grows_taggedCursor _ _ _).bind fun _ => .pure _
  refine (gives_taggedCursor hv l).bind (fun x ds₂ _ hx => ?_) fun _ => .pure _
  rw [← hts] at hx
  refine .pure fun ds₃ hds₃ => ⟨Distinct.firsts ts, _,
    (AnyCursor.shows_distinct hx (Distinct.between_place hsorted start)).mono hds₃.sub,
    Distinct.firsts_pairwise ts, fun event => ?_, fun t ht => ?_⟩
  · rw [Distinct.exists_mem_firsts_iff hsorted, hts, l.holds_iff_of_set hset]
  · have hmem := (Distinct.firsts_sublist ts).mem ht
    rw [hts] at hmem
    exact hb.dated set _ .role hkind t (List.mem_filter.mp hmem).1

/-- On a dimension without roles and with whole keys, an event counts if it is in the list. -/
theorem gives_leafCursor_plain (hb : b.Complete) (hl : l.isValid = true)
    (hset : l.dimension.set? = some set) (htagged : l.dimension.isRoleTagged = false) :
    Gives b ds (leafCursor start l) (b.Selects fun event => l.holds b.lists event) := by
  -- a dimension without roles has none in its condition either
  have hnone := l.role_of_isValid hl htagged
  have hreject : l.rejectRole = .ok () := by
    simp only [Leaf.rejectRole, Option.isNone_iff_eq_none.mp hnone]
  have hact : leafCursor start l = (do
      check l.rejectRole
      plainCursor start (← lookUp set l)) := by
    unfold leafCursor
    split
    · rename_i hd
      rw [hd] at hset
      cases hset
    · rename_i hd
      rw [hd] at hset
      cases hset
    · simp only [hset, htagged, Bool.false_eq_true, if_false]
  rw [hact]
  have hkind : b.kind? set = some .plain := by
    rw [hb.kind_of_set hset, Dimension.kind, htagged, if_neg Bool.false_ne_true]
  refine (Gives.check hreject).bind (fun _ ds₁ _ _ => ?_) fun _ =>
    (grows_lookUp _ _).bind fun _ => grows_plainCursor _ _
  refine (gives_lookUp hl hset).bind (fun v ds₂ _ hv => ?_) fun _ => grows_plainCursor _ _
  refine (gives_plainCursor hv).mono fun x ds₃ _ hx => ⟨_, _, hx, ?_, fun event => ?_, ?_⟩
  · exact List.pairwise_map.mpr (hb.strict hkind _)
  · rw [exists_key_map_widen, l.holds_iff_of_set hset, l.filter_accepts hnone]
  · rintro _ ht
    obtain ⟨t, hmem, rfl⟩ := List.mem_map.mp ht
    exact hb.dated set _ .plain hkind t hmem

/-- An event counts under an array index if it is in the lists of both halves. -/
theorem gives_leafCursor_arrayIndex (hb : b.Complete) (hl : l.isValid = true)
    (hd : l.dimension = .arrayIndex) :
    Gives b ds (leafCursor start l) (b.Selects fun event => l.holds b.lists event) := by
  have hnone := l.role_of_isValid hl (by rw [hd]; rfl)
  have hreject : l.rejectRole = .ok () := by
    simp only [Leaf.rejectRole, Option.isNone_iff_eq_none.mp hnone]
  obtain ⟨even, odd, hsplit⟩ := l.split?_of_isValid hl (by rw [hd]; rfl)
  have hact : leafCursor start l = (do
      check l.rejectRole
      let halves ← QueryAct.ofAct (Engine.lookUpHalves arrayIndexSet l.value)
      meet (← cursorsOf (plainCursor start) halves) false) := by
    simp only [leafCursor, hd]
  rw [hact]
  have hgrows (views : List Snapshot) : Act.Grows Engine.pageCount (do
      meet (← cursorsOf (plainCursor start) views) false) :=
    (grows_cursorsOf (grows_plainCursor start) views).bind fun _ => grows_meet _ _
  -- both lists are looked up before a cursor is opened
  refine (Gives.check hreject).bind (fun _ ds₁ _ _ => ?_) fun _ =>
    (grows_lookUpHalves _ _).bind hgrows
  refine (Gives.lookUpHalves arrayIndexSet_lt hsplit).bind ?_ hgrows
  rintro _ ds₂ - ⟨v, w, rfl, hv, hw⟩
  refine (gives_cursorsOf (g := List.map Tuple.widen) (fun _ _ _ h => gives_plainCursor h)
    (grows_plainCursor start) hv hw).bind (fun cs ds₃ _ hcs => ?_) fun _ => grows_meet _ _
  have hdated : ∀ us ∈ [(b.lists (arrayIndexSet .even) even).map Tuple.widen,
      (b.lists (arrayIndexSet .odd) odd).map Tuple.widen], ∀ u ∈ us,
      u.key.toNat < b.stamps.length := by
    intro us hus u hu
    simp only [List.mem_cons, List.not_mem_nil, or_false] at hus
    rcases hus with rfl | rfl <;> obtain ⟨t, ht, rfl⟩ := List.mem_map.mp hu
    · exact hb.dated _ _ _ (hb.kind_of_arrayIndexSet .even) t ht
    · exact hb.dated _ _ _ (hb.kind_of_arrayIndexSet .odd) t ht
  refine (gives_meet hb hcs hdated false).mono fun x ds₄ _ ⟨ts, p, hshows, hts⟩ => ⟨ts, p, hshows, ?_⟩
  refine Book.chooses_of_merges (show Merges _ ts from hts)
    (fun key t => Conjunction.meetAt_mem) hdated fun event => ?_
  rw [Conjunction.meetAt_isSome_iff, l.holds_iff_of_arrayIndex hd hsplit, l.filter_accepts hnone,
    l.filter_accepts hnone]
  simp only [ne_eq, reduceCtorEq, not_false_eq_true, true_and, List.forall_mem_cons,
    exists_key_map_widen, List.not_mem_nil, false_implies, implies_true, and_true]

/-- An event counts under an object if the lists of both halves have compatible tuples of it. -/
theorem gives_leafCursor_object (hb : b.Complete) (hl : l.isValid = true)
    (hd : l.dimension = .object) :
    Gives b ds (leafCursor start l) (b.Selects fun event => l.holds b.lists event) := by
  obtain ⟨even, odd, hsplit⟩ := l.split?_of_isValid hl (by rw [hd]; rfl)
  have hact : leafCursor start l = (do
      let halves ← QueryAct.ofAct (Engine.lookUpHalves objectSet l.value)
      meet (← cursorsOf (taggedCursor start l.allowedRoles) halves) true) := by
    simp only [leafCursor, hd]
  rw [hact]
  refine (Gives.lookUpHalves objectSet_lt hsplit).bind ?_ fun views =>
    (grows_cursorsOf (grows_taggedCursor start _) views).bind fun _ => grows_meet _ _
  rintro _ ds₁ - ⟨v, w, rfl, hv, hw⟩
  refine (gives_cursorsOf (g := List.filter l.accepts) (fun _ _ _ h => gives_taggedCursor h l)
    (grows_taggedCursor start _) hv hw).bind (fun cs ds₂ _ hcs => ?_) fun _ => grows_meet _ _
  -- both halves hold numbers of events, so the merge stays below the greatest key
  have hdated : ∀ us ∈ [(b.lists (objectSet .even) even).filter l.accepts,
      (b.lists (objectSet .odd) odd).filter l.accepts], ∀ u ∈ us,
      u.key.toNat < b.stamps.length := by
    intro us hus u hu
    simp only [List.mem_cons, List.not_mem_nil, or_false] at hus
    rcases hus with rfl | rfl <;> have hmem := (List.mem_filter.mp hu).1
    · exact hb.dated _ _ _ (hb.kind_of_objectSet .even) u hmem
    · exact hb.dated _ _ _ (hb.kind_of_objectSet .odd) u hmem
  refine (gives_meet hb hcs hdated true).mono fun x ds₃ _ ⟨ts, p, hshows, hts⟩ => ⟨ts, p, hshows, ?_⟩
  refine Book.chooses_of_merges (show Merges _ ts from hts)
    (fun key t => Conjunction.meetAt_mem) hdated fun event => ?_
  rw [Conjunction.meetAt_pair_isSome_iff, l.holds_iff_of_object hd hsplit]

/-- The cursor of a leaf selects the events that satisfy it. -/
theorem gives_leafCursor (hb : b.Complete) (hl : l.isValid = true) :
    Gives b ds (leafCursor start l) (b.Selects fun event => l.holds b.lists event) := by
  by_cases hobject : l.dimension = .object
  · exact gives_leafCursor_object hb hl hobject
  by_cases harray : l.dimension = .arrayIndex
  · exact gives_leafCursor_arrayIndex hb hl harray
  obtain ⟨set, hset⟩ : ∃ set, l.dimension.set? = some set := by
    cases hd : l.dimension <;> first | exact ⟨_, rfl⟩ | contradiction
  cases htagged : l.dimension.isRoleTagged with
  | true => exact gives_leafCursor_tagged hb hl hset htagged
  | false => exact gives_leafCursor_plain hb hl hset htagged

end Plan

/-! ## Trees -/

namespace Book

/-- A list chooses the events that satisfy a condition. -/
def ChoosesFor (b : Book) (c : Condition) (ts : List Tuple) : Prop :=
  b.Chooses (fun event => c.holds b.lists event) ts

variable {cs : List Condition} {lists : List (List Tuple)} {ts : List Tuple}

/-- The lists of several conditions have dates. -/
theorem dated_of_forall₂ (h : List.Forall₂ b.ChoosesFor cs lists) :
    ∀ us ∈ lists, ∀ u ∈ us, u.key.toNat < b.stamps.length := by
  induction h with
  | nil => simp
  | cons hts _ ih => exact List.forall_mem_cons.mpr ⟨hts.dated, ih⟩

/-- All lists have an event just when it satisfies all conditions. -/
theorem forall_exists_iff (h : List.Forall₂ b.ChoosesFor cs lists) (event : EventId) :
    (∀ us ∈ lists, ∃ t ∈ us, t.key = event) ↔ ∀ c ∈ cs, c.holds b.lists event = true := by
  induction h with
  | nil => simp
  | cons hts _ ih => rw [List.forall_mem_cons, List.forall_mem_cons, hts.exists_iff event, ih]

/-- Some list has an event just when it satisfies some condition. -/
theorem exists_exists_iff (h : List.Forall₂ b.ChoosesFor cs lists) (event : EventId) :
    (∃ us ∈ lists, ∃ t ∈ us, t.key = event) ↔ ∃ c ∈ cs, c.holds b.lists event = true := by
  induction h with
  | nil => simp
  | cons hts _ ih => rw [List.exists_mem_cons_iff, List.exists_mem_cons_iff, hts.exists_iff event, ih]

/-- An intersection chooses the events that satisfy all conditions. -/
theorem chooses_all (h : List.Forall₂ b.ChoosesFor cs lists)
    (hts : Conjunction.Intersects false lists ts) : b.ChoosesFor (.all cs) ts := by
  have hne : lists ≠ [] ↔ cs ≠ [] := by
    rw [not_iff_not, ← List.length_eq_zero_iff, ← List.length_eq_zero_iff, h.length_eq]
  have hP : ∀ event, (Conjunction.meetAt false lists event).isSome = true ↔
      (Condition.all cs).holds b.lists event = true := by
    intro event
    rw [Conjunction.meetAt_isSome_iff, forall_exists_iff h event, hne, Condition.holds, Condition.eval,
      Bool.and_eq_true, Condition.evalAll_iff, Bool.not_eq_true', List.isEmpty_eq_false_iff]
    rfl
  unfold Conjunction.Intersects at hts
  split at hts
  · -- a single operand is passed on
    rw [hts]
    rcases h with _ | ⟨hfirst, ⟨⟩⟩
    refine hfirst.congr fun event => ?_
    rw [Condition.holds, Condition.holds, Condition.eval, Condition.evalAll, Condition.evalAll,
      Bool.and_true]
    rfl
  · exact chooses_of_merges hts (fun key t => Conjunction.meetAt_mem) (dated_of_forall₂ h) hP

/-- A union chooses the events that satisfy some condition. -/
theorem chooses_any (h : List.Forall₂ b.ChoosesFor cs lists)
    (hts : Disjunction.Unites lists ts) : b.ChoosesFor (.any cs) ts := by
  have hP : ∀ event, (Disjunction.joinAt lists event).isSome = true ↔
      (Condition.any cs).holds b.lists event = true := by
    intro event
    rw [Disjunction.joinAt_isSome_iff, exists_exists_iff h event, Condition.holds, Condition.eval,
      Condition.evalAny_iff]
    rfl
  unfold Disjunction.Unites at hts
  split at hts
  · -- a single operand is passed on
    rw [hts]
    rcases h with _ | ⟨hfirst, ⟨⟩⟩
    refine hfirst.congr fun event => ?_
    rw [Condition.holds, Condition.holds, Condition.eval, Condition.evalAny, Condition.evalAny,
      Bool.or_false]
  · exact chooses_of_merges hts (fun key t => Disjunction.joinAt_mem) (dated_of_forall₂ h) hP

/-- Cursors that select the events of several conditions show lists that choose them. -/
theorem exists_lists {xs : List AnyCursor} {ds : Disks}
    (h : List.Forall₂ (fun (c : Condition) x => b.Selects (fun event => c.holds b.lists event) ds x)
      cs xs) :
    ∃ lists, AnyCursor.AllShow ds xs lists ∧ List.Forall₂ b.ChoosesFor cs lists := by
  induction h with
  | nil => exact ⟨[], .nil, .nil⟩
  | cons hx _ ih =>
    obtain ⟨ts, p, hshows, hts⟩ := hx
    obtain ⟨lists, hall, hlists⟩ := ih
    exact ⟨ts :: lists, .cons ⟨p, hshows⟩ hall, .cons hts hlists⟩

end Book

namespace Plan

mutual

/-- The cursor of a condition selects the events that satisfy it. -/
theorem gives_cursor (hb : b.Complete) (ds : Disks) : (c : Condition) → c.isValid = true →
    Gives b ds (cursor start c) (b.Selects fun event => c.holds b.lists event)
  | .leaf l, hc => by
    rw [cursor]
    rw [Condition.isValid] at hc
    simp only [Condition.holds, Condition.eval]
    exact gives_leafCursor hb hc
  | .all operands, hc => by
    rw [cursor]
    rw [Condition.isValid] at hc
    refine (gives_cursors hb ds operands hc).bind (fun xs ds₁ _ hxs => ?_) fun _ => grows_meet _ _
    obtain ⟨lists, hall, hlists⟩ := Book.exists_lists hxs
    refine (gives_meet hb hall (Book.dated_of_forall₂ hlists) false).mono ?_
    exact fun x ds₂ _ ⟨ts, p, hshows, hts⟩ => ⟨ts, p, hshows, Book.chooses_all hlists hts⟩
  | .any operands, hc => by
    rw [cursor]
    rw [Condition.isValid] at hc
    refine (gives_cursors hb ds operands hc).bind (fun xs ds₁ _ hxs => ?_) fun _ => grows_join _
    obtain ⟨lists, hall, hlists⟩ := Book.exists_lists hxs
    refine (gives_join hb hall (Book.dated_of_forall₂ hlists)).mono ?_
    exact fun x ds₂ _ ⟨ts, p, hshows, hts⟩ => ⟨ts, p, hshows, Book.chooses_any hlists hts⟩

theorem gives_cursors (hb : b.Complete) (ds : Disks) : (cs : List Condition) →
    Condition.areValid cs = true →
    Gives b ds (cursors start cs) fun ds' xs =>
      List.Forall₂ (fun (c : Condition) x => b.Selects (fun event => c.holds b.lists event) ds' x)
        cs xs
  | [], _ => by
    rw [cursors]
    exact .pure fun _ _ => .nil
  | c :: cs, hcs => by
    rw [cursors]
    rw [Condition.areValid, Bool.and_eq_true] at hcs
    refine (gives_cursor hb ds c hcs.1).bind (fun x ds₁ _ hx => ?_) fun _ =>
      (grows_cursors start cs).bind fun _ => .pure _
    refine (gives_cursors hb ds₁ cs hcs.2).bind (fun xs ds₂ hds₂ hxs => ?_) fun _ => .pure _
    refine .pure fun ds₃ hds₃ => .cons (hx.narrow (hds₃.trans hds₂)) ?_
    exact hxs.imp fun _ _ hsel => hsel.narrow hds₃

end

end Plan

end EventIndex
