import Mathlib.Algebra.Order.BigOperators.Group.List
import Mathlib.Algebra.Order.Group.Nat
import EventIndex.Proofs.Cursor.Merging
import EventIndex.Proofs.Cursor.Rounds

/-! # What an intersection shows

`meetAt` is the tuple that an intersection has for a key, if any. A search goes on to the greatest of
the next keys of all heads until they agree on a key with such a tuple; each round takes some head
past a tuple, so that the number of tuples bounds the number of rounds.

The rounds are proved one by one. `RoundForward` and `RoundBack` are what is known when all heads have
answered; a round that is not the last goes on to a goal that leaves fewer tuples to pass, and nothing
is met in between.

Main results:

* `reads_pick`: at a key that all heads have, the tuple that is met is found.
* `reads_roundForward`, `reads_roundBackward`: one round either way.
* `ends_searchForward`, `ends_searchBackward`: as many rounds as are needed.
* `bounded_meets`: an intersection of several heads shows the merged list.
* `reads_ofHeads`: what an intersection shows when it is opened, also over one head or none.
-/

namespace EventIndex

open Cursor

namespace Conjunction

open Heads

variable {C : Type} [Cursor C] {ds : Disks} {c : C} {heads : List C} {matchRoles : Bool}
  {lists : List (List Tuple)} {us ts : List Tuple} {t : Tuple} {key goal : UInt64} {fuel q : Nat}

/-! ## The tuple for a key -/

/-- The tuples of a list with a key. -/
def runOf (key : UInt64) (ts : List Tuple) : List Tuple := ts.filter fun t => t.key = key

/-- The tuple that an intersection has for a key. -/
def meetAt (matchRoles : Bool) (lists : List (List Tuple)) (key : UInt64) : Option Tuple :=
  if matchRoles then firstMatch (lists.map (runOf key))
  else if lists.all fun ts => (firstAt key ts).isSome then lists.head?.bind (firstAt key) else none

/-- A key that no tuple has is without a run. -/
theorem runOf_eq_nil (h : ∀ t ∈ ts, t.key ≠ key) : runOf key ts = [] := by
  simpa [runOf] using h

theorem mem_runOf : t ∈ runOf key ts ↔ t ∈ ts ∧ t.key = key := by
  simp [runOf]

/-- There is no tuple for a key that some head lacks. -/
theorem meetAt_eq_none_of_lacks (hts : ts ∈ lists) (h : ∀ t ∈ ts, t.key ≠ key) :
    meetAt matchRoles lists key = none := by
  cases matchRoles with
  | true =>
    show firstMatch (lists.map (runOf key)) = none
    cases lists with
    | nil => rfl
    | cons first others =>
      rcases List.mem_cons.mp hts with rfl | hts
      · -- the first list lacks the key: there is no tuple to compare the others with
        rw [List.map_cons, runOf_eq_nil h]
        rfl
      · -- another list lacks it: no tuple of the first agrees with its empty run
        refine List.find?_eq_none.mpr fun u _ hall => ?_
        have hmem : runOf key ts ∈ others.map (runOf key) := List.mem_map_of_mem hts
        have hany := List.all_eq_true.mp hall _ hmem
        rw [runOf_eq_nil h] at hany
        cases hany
  | false =>
    rw [meetAt, if_neg Bool.false_ne_true]
    refine if_neg fun hall => ?_
    have hsome := List.all_eq_true.mp hall ts hts
    rw [firstAt_eq_none_iff.mpr h] at hsome
    cases hsome

/-- The tuple for a key is one of the first head. -/
theorem meetAt_mem (h : meetAt matchRoles lists key = some t) :
    t.key = key ∧ ∃ ts ∈ lists, t ∈ ts := by
  cases lists with
  | nil => cases matchRoles <;> cases h
  | cons first others =>
    cases matchRoles with
    | true =>
      have hmem : t ∈ runOf key first := List.mem_of_find?_eq_some h
      obtain ⟨ht, hkey⟩ := mem_runOf.mp hmem
      exact ⟨hkey, first, List.mem_cons_self, ht⟩
    | false =>
      rw [meetAt, if_neg Bool.false_ne_true] at h
      split at h
      · exact ⟨key_of_firstAt h, first, List.mem_cons_self, mem_of_firstAt h⟩
      · cases h

/-- Without roles, there is a tuple for a key that all heads have. -/
theorem meetAt_isSome_iff :
    (meetAt false lists key).isSome = true ↔
      lists ≠ [] ∧ ∀ ts ∈ lists, ∃ t ∈ ts, t.key = key := by
  have hfirst (ts : List Tuple) : (firstAt key ts).isSome = true ↔ ∃ t ∈ ts, t.key = key := by
    simp [firstAt]
  rw [meetAt, if_neg Bool.false_ne_true]
  constructor
  · intro h
    split at h
    · rename_i hall
      refine ⟨?_, fun ts hts => (hfirst ts).mp (List.all_eq_true.mp hall ts hts)⟩
      rintro rfl
      cases h
    · cases h
  · rintro ⟨hne, hall⟩
    rw [if_pos (List.all_eq_true.mpr fun ts hts => (hfirst ts).mpr (hall ts hts))]
    cases lists with
    | nil => exact absurd rfl hne
    | cons first others => exact (hfirst first).mpr (hall first List.mem_cons_self)

/-- With roles, two heads have a tuple for a key when both have one and the two are compatible. -/
theorem meetAt_pair_isSome_iff :
    (meetAt true [us, ts] key).isSome = true ↔
      ∃ u ∈ us, u.key = key ∧ ∃ t ∈ ts, t.key = key ∧ u.compatible t = true := by
  simp [meetAt, firstMatch, runOf]

/-! ## Looking at one key -/

/-- From a head at some place the tuples are collected that follow with the key, and no others. -/
theorem reads_collectRun (key : UInt64) (h : Shows ds c us q) (hfuel : us.length ≤ q + fuel) :
    ∃ c' q', Over.Reads ds (collectRun key fuel) c ((us.drop q).takeWhile (·.key = key)) c' ∧
      Shows ds c' us q' := by
  -- each step leaves one tuple less to take, so the fuel lasts to the end of the list
  induction fuel generalizing c q with
  | zero =>
    rw [Nat.add_zero] at hfuel
    rw [List.drop_of_length_le hfuel]
    exact ⟨c, q, .pure c _, h⟩
  | succ fuel ih =>
    obtain ⟨c₁, hrun₁, h₁⟩ := h.peekNext
    cases hget : us[q]? with
    | none =>
      rw [hget] at hrun₁
      rw [List.drop_of_length_le (List.getElem?_eq_none_iff.mp hget)]
      exact ⟨c₁, q, hrun₁.bind (.pure c₁ _), h₁⟩
    | some t =>
      obtain ⟨hlt, ht⟩ := List.getElem?_eq_some_iff.mp hget
      rw [hget] at hrun₁
      rw [List.drop_eq_getElem_cons hlt, ht]
      by_cases hkey : t.key = key
      · obtain ⟨c₂, hrun₂, h₂⟩ := h₁.next
        rw [Nat.min_eq_left hlt] at h₂
        obtain ⟨c₃, q', hrun₃, h₃⟩ := ih h₂ (by omega)
        refine ⟨c₃, q', hrun₁.bind ?_, h₃⟩
        rw [List.takeWhile_cons_of_pos (by simpa using hkey)]
        simp only [hkey, ne_eq, not_true, if_false]
        exact hrun₂.bind (hrun₃.bind (.pure c₃ _))
      · refine ⟨c₁, q, hrun₁.bind ?_, h₁⟩
        rw [List.takeWhile_cons_of_neg (by simpa using hkey)]
        simp only [ne_eq, hkey, not_false_eq_true, if_true]
        exact .pure c₁ _

/-- In a list with no smaller key the run of a key stands in front. -/
theorem runOf_eq_takeWhile_of_le (hs : Sorted us) (hle : ∀ u ∈ us, key ≤ u.key) :
    runOf key us = us.takeWhile (·.key = key) := by
  induction us with
  | nil => rfl
  | cons u us ih =>
    obtain ⟨hfirst, hrest⟩ := List.pairwise_cons.mp hs
    by_cases hkey : u.key = key
    · rw [runOf, List.filter_cons_of_pos (by simpa using hkey),
        List.takeWhile_cons_of_pos (by simpa using hkey)]
      exact congrArg (u :: ·) (ih hrest fun v hv => hle v (List.mem_cons_of_mem _ hv))
    · -- the first key is greater already
      rw [List.takeWhile_cons_of_neg (by simpa using hkey)]
      have hlt : key < u.key :=
        UInt64.lt_of_le_of_ne (hle u List.mem_cons_self) (Ne.symm hkey)
      refine runOf_eq_nil fun v hv => ?_
      rcases List.mem_cons.mp hv with rfl | hv
      · exact hkey
      · exact (UInt64.ne_of_lt (UInt64.lt_of_lt_of_le hlt (hfirst v hv))).symm

/-- In a sorted list the run of a key follows its place. -/
theorem runOf_eq_takeWhile (hs : Sorted us) (key : UInt64) :
    runOf key us = (us.drop (place us key)).takeWhile (·.key = key) := by
  rw [← runOf_eq_takeWhile_of_le (hs.sublist (List.drop_sublist _ _))
    fun u hu => le_key_of_mem_drop_place hs hu]
  conv_lhs => rw [← List.take_append_drop (place us key) us]
  rw [runOf, List.filter_append]
  have hnone : runOf key (us.take (place us key)) = [] :=
    runOf_eq_nil fun u hu => UInt64.ne_of_lt (key_lt_of_mem_take_place hs hu)
  rw [runOf] at hnone
  rw [hnone, List.nil_append]
  rfl

/-- Every head is asked for its run at a key and is left at the key's place, ready to be asked again. -/
theorem runAt_answers (ds : Disks) (key : UInt64) : Answers (C := C) ds (runAt key) (runOf key) := by
  intro c ts p h
  obtain ⟨c₁, hrun₁, h₁⟩ := h.seek key
  have hextent := h₁.extent
  obtain ⟨c₂, q, hrun₂, h₂⟩ := reads_collectRun key h₁
    (show ts.length ≤ place ts key + (Cursor.extent c₁ + 1) by omega)
  obtain ⟨c₃, hrun₃, h₃⟩ := h₂.seek key
  rw [← runOf_eq_takeWhile h.sorted] at hrun₂
  exact ⟨c₃, _, hrun₁.bind ((Over.Reads.current c₁).bind
    (hrun₂.bind (hrun₃.bind (.pure c₃ _)))), h₃⟩

/-- For a key that all heads have, the tuple is found. -/
theorem reads_pick (matchRoles : Bool) (h : AllShow ds heads lists) (hkeys : ∀ ts ∈ lists, ∃ t ∈ ts, t.key = key) :
    ∃ heads', Over.Reads ds (pick matchRoles key) heads (meetAt matchRoles lists key) heads' ∧
      AllShow ds heads' lists := by
  cases matchRoles with
  | true =>
    obtain ⟨heads', hrun, h'⟩ := h.each_map (runAt_answers ds key)
    exact ⟨heads', hrun.bind (.pure heads' _), h'⟩
  | false =>
    obtain ⟨heads', hrun, h'⟩ := h.at_ (ahead_answers ds key) 0
    -- without roles the first head answers for all, for all of them have the key
    have hall : (lists.all fun ts => (firstAt key ts).isSome) = true := by
      refine List.all_eq_true.mpr fun ts hts => Option.isSome_iff_ne_none.mpr fun hnone => ?_
      obtain ⟨t, ht, hkey⟩ := hkeys ts hts
      exact firstAt_eq_none_iff.mp hnone t ht hkey
    refine ⟨heads', ?_, h'⟩
    have heq : meetAt false lists key = lists[0]?.bind (firstFrom · key) := by
      rw [meetAt, if_neg Bool.false_ne_true, if_pos hall, ← List.head?_eq_getElem?]
      cases lists with
      | nil => rfl
      | cons ts lists =>
        obtain ⟨t, ht, rfl⟩ := hkeys ts List.mem_cons_self
        exact (firstFrom_eq_firstAt (h.sorted List.mem_cons_self) ht).symm
    rw [heq]
    exact hrun

/-! ## The keys found at the heads -/

/-- Choosing one of two values again and again gives one of them all, and the best. -/
theorem foldl_choose {op : UInt64 → UInt64 → UInt64} {R : UInt64 → UInt64 → Prop}
    (hop : ∀ a b, (op a b = a ∨ op a b = b) ∧ R (op a b) a ∧ R (op a b) b)
    (hrefl : ∀ a, R a a) (htrans : ∀ {a b c}, R a b → R b c → R a c)
    (keys : List UInt64) (b : UInt64) :
    (keys.foldl op b = b ∨ keys.foldl op b ∈ keys) ∧ R (keys.foldl op b) b ∧
      ∀ k ∈ keys, R (keys.foldl op b) k := by
  induction keys generalizing b with
  | nil => exact ⟨.inl rfl, hrefl b, by simp⟩
  | cons k keys ih =>
    obtain ⟨hmem, hbest, hall⟩ := ih (op b k)
    obtain ⟨hchoice, hleft, hright⟩ := hop b k
    rw [List.foldl_cons]
    refine ⟨?_, htrans hbest hleft, List.forall_mem_cons.mpr ⟨htrans hbest hright, hall⟩⟩
    rcases hmem with hmem | hmem
    · rcases hchoice with heq | heq
      · exact .inl (hmem.trans heq)
      · exact .inr (List.mem_cons.mpr (.inl (hmem.trans heq)))
    · exact .inr (List.mem_cons_of_mem k hmem)

/-- A fold with the minimum gives the least of the keys and the bound, and it is one of them. -/
theorem foldl_min_spec (keys : List UInt64) (b : UInt64) :
    (keys.foldl min b = b ∨ keys.foldl min b ∈ keys) ∧ keys.foldl min b ≤ b ∧
      ∀ k ∈ keys, keys.foldl min b ≤ k := by
  refine foldl_choose (R := (· ≤ ·)) (fun a b => ?_) UInt64.le_refl UInt64.le_trans keys b
  show (ite (a ≤ b) a b = a ∨ ite (a ≤ b) a b = b) ∧ ite (a ≤ b) a b ≤ a ∧ ite (a ≤ b) a b ≤ b
  split
  · exact ⟨.inl rfl, UInt64.le_refl _, ‹_›⟩
  · exact ⟨.inr rfl, UInt64.le_of_lt (UInt64.not_le.mp ‹_›), UInt64.le_refl _⟩

/-- A fold with the maximum gives the greatest of the keys and the bound, and it is one of them. -/
theorem foldl_max_spec (keys : List UInt64) (b : UInt64) :
    (keys.foldl max b = b ∨ keys.foldl max b ∈ keys) ∧ b ≤ keys.foldl max b ∧
      ∀ k ∈ keys, k ≤ keys.foldl max b := by
  refine foldl_choose (R := (· ≥ ·)) (fun a b => ?_) UInt64.le_refl
    (fun hab hbc => UInt64.le_trans hbc hab) keys b
  show (ite (a ≤ b) b a = a ∨ ite (a ≤ b) b a = b) ∧ a ≤ ite (a ≤ b) b a ∧ b ≤ ite (a ≤ b) b a
  split
  · exact ⟨.inr rfl, ‹_›, UInt64.le_refl _⟩
  · exact ⟨.inl rfl, UInt64.le_refl _, UInt64.le_of_lt (UInt64.not_le.mp ‹_›)⟩

/-- The least of some keys is one of them: no key is above `maxKey`. -/
theorem least_mem {keys : List UInt64} (h : keys ≠ []) : keys.foldl min maxKey ∈ keys := by
  obtain ⟨hmem, -, hall⟩ := foldl_min_spec keys maxKey
  rcases hmem with hmem | hmem
  · -- then all keys are the largest
    obtain ⟨k, hk⟩ := List.exists_mem_of_ne_nil keys h
    have hle := hall k hk
    rw [hmem] at hle ⊢
    have hmax : k ≤ maxKey := by rw [maxKey]; grind
    exact UInt64.le_antisymm hmax hle ▸ hk
  · exact hmem

/-- The greatest of some keys is one of them: no key is below zero. -/
theorem greatest_mem {keys : List UInt64} (h : keys ≠ []) : keys.foldl max 0 ∈ keys := by
  obtain ⟨hmem, -, hall⟩ := foldl_max_spec keys 0
  rcases hmem with hmem | hmem
  · -- then all keys are zero
    obtain ⟨k, hk⟩ := List.exists_mem_of_ne_nil keys h
    have hle := hall k hk
    rw [hmem] at hle ⊢
    have hmin : 0 ≤ k := by grind
    exact UInt64.le_antisymm hle hmin ▸ hk
  · exact hmem

variable {found : List Tuple} {find : List Tuple → Option Tuple}

/-- The least and the greatest of the keys found at some heads. -/
theorem exists_least_greatest (hne : lists ≠ [])
    (hfound : List.Forall₂ (fun ts t => find ts = some t) lists found) :
    let low := (found.map Tuple.key).foldl min maxKey
    let high := (found.map Tuple.key).foldl max 0
    (∃ ts ∈ lists, ∃ t, find ts = some t ∧ t.key = low) ∧
      (∃ ts ∈ lists, ∃ t, find ts = some t ∧ t.key = high) ∧
      ∀ ts ∈ lists, ∃ t, find ts = some t ∧ low ≤ t.key ∧ t.key ≤ high := by
  intro low high
  -- every key that was found belongs to one of the lists
  have hlist : ∀ key ∈ found.map Tuple.key, ∃ ts ∈ lists, ∃ t, find ts = some t ∧ t.key = key := by
    intro key hkey
    obtain ⟨t, ht, rfl⟩ := List.mem_map.mp hkey
    obtain ⟨i, hi⟩ := List.mem_iff_getElem?.mp ht
    obtain ⟨hlt, rfl⟩ := List.getElem?_eq_some_iff.mp hi
    have hlt' : i < lists.length := hfound.length_eq ▸ hlt
    exact ⟨lists[i], List.getElem_mem hlt', found[i],
      (List.forall₂_iff_get.mp hfound).2 i hlt' hlt, rfl⟩
  have hkeys : found.map Tuple.key ≠ [] := by
    rw [ne_eq, List.map_eq_nil_iff, ← List.length_eq_zero_iff, ← hfound.length_eq,
      List.length_eq_zero_iff]
    exact hne
  refine ⟨hlist low (least_mem hkeys), hlist high (greatest_mem hkeys), fun ts hts => ?_⟩
  obtain ⟨i, hi⟩ := List.mem_iff_getElem?.mp hts
  obtain ⟨hlt, rfl⟩ := List.getElem?_eq_some_iff.mp hi
  have hlt' : i < found.length := hfound.length_eq ▸ hlt
  have hmem : found[i].key ∈ found.map Tuple.key := List.mem_map_of_mem (List.getElem_mem hlt')
  exact ⟨found[i], (List.forall₂_iff_get.mp hfound).2 i hlt hlt',
    (foldl_min_spec _ maxKey).2.2 _ hmem, (foldl_max_spec _ 0).2.2 _ hmem⟩

/-! ## Searching -/

/-- The tuples of all lists from a key on. -/
def tuplesFrom (lists : List (List Tuple)) (goal : UInt64) : Nat :=
  (lists.map fun ts => ts.length - place ts goal).sum

/-- The tuples of all lists below a key. -/
def tuplesBelow (lists : List (List Tuple)) (goal : UInt64) : Nat :=
  (lists.map fun ts => place ts goal).sum

/-- A search onwards has at most all tuples of the heads before it. -/
theorem tuplesFrom_le (lists : List (List Tuple)) (goal : UInt64) :
    tuplesFrom lists goal ≤ (lists.map List.length).sum :=
  List.sum_le_sum fun _ _ => Nat.sub_le _ _

/-- A search backwards has at most all tuples of the heads before it. -/
theorem tuplesBelow_le (lists : List (List Tuple)) (goal : UInt64) :
    tuplesBelow lists goal ≤ (lists.map List.length).sum :=
  List.sum_le_sum fun ts _ => place_le ts goal

/-- Going on past a tuple leaves fewer ahead. -/
theorem tuplesFrom_lt {goal' : UInt64} (hle : goal ≤ goal')
    (hpast : ∃ ts ∈ lists, place ts goal < place ts goal') :
    tuplesFrom lists goal' < tuplesFrom lists goal := by
  obtain ⟨ts, hts, hlt⟩ := hpast
  refine List.sum_lt_sum _ _ (fun us _ => ?_) ⟨ts, hts, ?_⟩
  · exact Nat.sub_le_sub_left (place_mono us hle) _
  · have := place_le ts goal'
    omega

/-- Going back past a tuple leaves fewer behind. -/
theorem tuplesBelow_lt {goal' : UInt64} (hle : goal' ≤ goal)
    (hpast : ∃ ts ∈ lists, place ts goal' < place ts goal) :
    tuplesBelow lists goal' < tuplesBelow lists goal :=
  List.sum_lt_sum _ _ (fun us _ => place_mono us hle) hpast

/-- Below the next key of any one list nothing is met. -/
theorem meetAt_eq_none_of_firstFrom (hs : Sorted us) (hus : us ∈ lists)
    (hfind : firstFrom us goal = some t) {key : UInt64} (hle : goal ≤ key) (hlt : key < t.key) :
    meetAt matchRoles lists key = none := by
  refine meetAt_eq_none_of_lacks hus fun u hu heq => ?_
  exact absurd (firstFrom_least hs hfind hu (heq ▸ hle)) (UInt64.not_le.mpr (heq ▸ hlt))

/-- Above the previous key of any one list nothing is met. -/
theorem meetAt_eq_none_of_lastBelow (hs : Sorted us) (hus : us ∈ lists)
    (hfind : lastBelow us goal = some t) {key : UInt64} (hlt : t.key < key) (hgoal : key < goal) :
    meetAt matchRoles lists key = none := by
  refine meetAt_eq_none_of_lacks hus fun u hu heq => ?_
  exact absurd (lastBelow_greatest hs hfind hu (heq ▸ hgoal)) (UInt64.not_le.mpr (heq ▸ hlt))

/-- What one round of a search forward knows: the least and the greatest of the next keys. -/
structure RoundForward (matchRoles : Bool) (lists : List (List Tuple)) (goal low high : UInt64) :
    Prop where
  least_le : low ≤ high
  goal_le : goal ≤ high
  /-- No result is left out by going on to the greatest key. -/
  skip : ∀ key, goal ≤ key → key < high → meetAt matchRoles lists key = none
  agree : low = high → ∀ ts ∈ lists, ∃ t ∈ ts, t.key = low
  progress : ∀ goal', goal ≤ goal' → low < goal' →
    tuplesFrom lists goal' < tuplesFrom lists goal

/-- The least and the greatest of the next keys, where every head has one, are what a round has to know. -/
theorem RoundForward.of_found (matchRoles : Bool) (hs : ∀ ts ∈ lists, Sorted ts) (hne : lists ≠ [])
    (hfound : List.Forall₂ (fun ts t => firstFrom ts goal = some t) lists found) :
    RoundForward matchRoles lists goal ((found.map Tuple.key).foldl min maxKey)
      ((found.map Tuple.key).foldl max 0) := by
  obtain ⟨⟨us, hus, t, hfind, hlow⟩, ⟨vs, hvs, u, hfind', hhigh⟩, hall⟩ :=
    exists_least_greatest hne hfound
  refine ⟨?_, ?_, ?_, fun hagree ts hts => ?_, fun goal' hle hlt => ?_⟩
  · obtain ⟨v, -, hlo, hhi⟩ := hall us hus
    exact UInt64.le_trans hlo hhi
  · rw [← hhigh]
    exact le_of_firstFrom (hs vs hvs) hfind'
  · rw [← hhigh]
    exact fun key => meetAt_eq_none_of_firstFrom (hs vs hvs) hvs hfind'
  · obtain ⟨v, hfind'', hlo, hhi⟩ := hall ts hts
    exact ⟨v, mem_of_firstFrom hfind'', UInt64.le_antisymm (hagree ▸ hhi) hlo⟩
  · refine tuplesFrom_lt hle ⟨us, hus, ?_⟩
    exact place_lt_place (hs us hus) (mem_of_firstFrom hfind) (le_of_firstFrom (hs us hus) hfind)
      (hlow ▸ hlt)

/-- When the heads agree on a key whose roles do not match, there is no result up to that key. -/
theorem RoundForward.skip_agreed (h : RoundForward matchRoles lists goal low low)
    (hpick : meetAt matchRoles lists low = none) {key : UInt64} (hge : goal ≤ key) (hle : key ≤ low) :
    meetAt matchRoles lists key = none := by
  rcases UInt64.lt_or_eq_of_le hle with hlt | rfl
  · exact h.skip key hge hlt
  · exact hpick

/-- There is no key after the last one. -/
theorem RoundForward.firstFrom_last (h : RoundForward matchRoles lists goal low low)
    (hm : Merges (meetAt matchRoles lists) ts) (hpick : meetAt matchRoles lists low = none)
    (hlast : low = maxKey) : firstFrom ts goal = none :=
  hm.firstFrom_eq_none fun key hge => h.skip_agreed hpick hge (hlast ▸ le_maxKey key)

/-- Where the heads agree on a key at which nothing is met, the search goes on one above it. The tuples at
that key are behind it then, so that fewer tuples are still to be passed. -/
theorem RoundForward.firstFrom_after (h : RoundForward matchRoles lists goal low low)
    (hm : Merges (meetAt matchRoles lists) ts) (hpick : meetAt matchRoles lists low = none)
    (hlast : low ≠ maxKey) :
    firstFrom ts goal = firstFrom ts (low + 1) ∧
      tuplesFrom lists (low + 1) < tuplesFrom lists goal := by
  have hless : low < low + 1 := by
    rw [maxKey] at hlast
    grind
  have hle : goal ≤ low + 1 := UInt64.le_trans h.goal_le (UInt64.le_of_lt hless)
  refine ⟨?_, h.progress _ hle hless⟩
  rw [firstFrom, firstFrom, hm.place_eq hle fun key hge hlt => h.skip_agreed hpick hge (by grind)]

/-- When the heads do not agree, those behind go on to the greatest key. -/
theorem RoundForward.firstFrom_greatest (h : RoundForward matchRoles lists goal low high)
    (hm : Merges (meetAt matchRoles lists) ts) (hne : low ≠ high) :
    firstFrom ts goal = firstFrom ts high ∧ tuplesFrom lists high < tuplesFrom lists goal := by
  have hlt := UInt64.lt_of_le_of_ne h.least_le hne
  refine ⟨?_, h.progress high h.goal_le hlt⟩
  rw [firstFrom, firstFrom, hm.place_eq h.goal_le h.skip]

/-- One round of a search forward. -/
def roundForward (matchRoles : Bool) (goal : UInt64) :
    Act (Over (List C)) (Option Tuple ⊕ UInt64) := do
  match ← Heads.eachSome (Heads.ahead goal) with
  | none => return .inl none
  | some found =>
    let low := (found.map Tuple.key).foldl min maxKey
    let high := (found.map Tuple.key).foldl max 0
    if low ≠ high then return .inr high
    else
      match ← pick matchRoles low with
      | some t => return .inl (some t)
      | none => if low = maxKey then return .inl none else return .inr (low + 1)

/-- The search onwards is the general one with its rounds. -/
theorem searchForward_eq (matchRoles : Bool) (fuel : Nat) (goal : UInt64) :
    searchForward (C := C) matchRoles fuel goal = searchBy (roundForward matchRoles) fuel goal := by
  induction fuel generalizing goal with
  | zero => rfl
  | succ fuel ih =>
    rw [searchForward, searchBy, roundForward, bind_assoc]
    refine congrArg _ (funext fun found => ?_)
    cases found with
    | none => rfl
    | some found =>
      dsimp only
      split
      · exact ih _
      · rw [bind_assoc]
        refine congrArg _ (funext fun picked => ?_)
        cases picked with
        | some t => rfl
        | none =>
          dsimp only
          split
          · rfl
          · exact ih _

/-- A round of a search forward finds the first result from its goal on, or gives a later goal that
leaves fewer tuples ahead and has the same first result. -/
theorem reads_roundForward (hm : Merges (meetAt matchRoles lists) ts) (hne : lists ≠ [])
    (goal : UInt64) (h : AllShow ds heads lists) :
    ∃ heads' r, Over.Reads ds (roundForward matchRoles goal) heads r heads' ∧
      AllShow ds heads' lists ∧
      match r with
      | .inl found => firstFrom ts goal = found
      | .inr goal' =>
        firstFrom ts goal = firstFrom ts goal' ∧ tuplesFrom lists goal' < tuplesFrom lists goal := by
  obtain ⟨heads₁, found, hrun₁, h₁, hfound⟩ := h.eachSome (ahead_answers ds goal)
  cases found with
  | none =>
    -- one head has come to its end
    obtain ⟨us, hus, hnone⟩ := hfound
    refine ⟨heads₁, .inl none, hrun₁.bind (.pure heads₁ _), h₁, ?_⟩
    refine hm.firstFrom_eq_none fun key hle => meetAt_eq_none_of_lacks hus fun u hu heq => ?_
    have hlt := lt_of_firstFrom_eq_none (h.sorted hus) hnone hu
    exact absurd (heq ▸ hle) (UInt64.not_le.mpr hlt)
  | some found =>
    have hround := RoundForward.of_found matchRoles (fun us hus => h.sorted hus) hne hfound
    generalize hlow : (found.map Tuple.key).foldl min maxKey = low at hround
    generalize hhigh : (found.map Tuple.key).foldl max 0 = high at hround
    by_cases hkey : low = high
    · subst hkey
      obtain ⟨heads₂, hrun₂, h₂⟩ := reads_pick matchRoles h₁ (hround.agree rfl)
      cases hpick : meetAt matchRoles lists low with
      | some t =>
        obtain rfl := (meetAt_mem hpick).1
        rw [hpick] at hrun₂
        refine ⟨heads₂, .inl (some t), hrun₁.bind ?_, h₂,
          hm.firstFrom_eq_some hpick hround.goal_le hround.skip⟩
        simp only [hlow, hhigh, ne_eq, not_true, if_false]
        exact hrun₂.bind (.pure heads₂ _)
      | none =>
        -- all heads have the key, but their roles do not match
        rw [hpick] at hrun₂
        by_cases hlast : low = maxKey
        · refine ⟨heads₂, .inl none, hrun₁.bind ?_, h₂, hround.firstFrom_last hm hpick hlast⟩
          simp only [hlow, hhigh, ne_eq, not_true, if_false]
          refine hrun₂.bind ?_
          simp only [hlast, if_true]
          exact .pure heads₂ _
        · refine ⟨heads₂, .inr (low + 1), hrun₁.bind ?_, h₂, hround.firstFrom_after hm hpick hlast⟩
          simp only [hlow, hhigh, ne_eq, not_true, if_false]
          refine hrun₂.bind ?_
          simp only [hlast, if_false]
          exact .pure heads₂ _
    · refine ⟨heads₁, .inr high, hrun₁.bind ?_, h₁, hround.firstFrom_greatest hm hkey⟩
      simp only [hlow, hhigh, ne_eq, hkey, not_false_eq_true, if_true]
      exact .pure heads₁ _

/-- The search onwards ends, with as many rounds as the heads have tuples and one more, at the first tuple
of the intersection from the goal on. -/
theorem ends_searchForward (hm : Merges (meetAt matchRoles lists) ts) (hne : lists ≠ [])
    (h : AllShow ds heads lists) (goal : UInt64) :
    ∃ heads', EndsReading ds (roundForward matchRoles) goal (Heads.extent heads + 1) heads
      (firstFrom ts goal) heads' ∧ AllShow ds heads' lists :=
  ends_of_closer (fun goal h => reads_roundForward hm hne goal h)
    (Nat.lt_succ_of_le (Nat.le_trans (tuplesFrom_le lists goal) h.extent)) h

/-- What one round of a search back knows: the least and the greatest of the last keys. -/
structure RoundBack (matchRoles : Bool) (lists : List (List Tuple)) (goal low high : UInt64) :
    Prop where
  least_le : low ≤ high
  lt_goal : high < goal
  /-- No result is left out by going back to the least key. -/
  skip : ∀ key, low < key → key < goal → meetAt matchRoles lists key = none
  agree : low = high → ∀ ts ∈ lists, ∃ t ∈ ts, t.key = low
  progress : ∀ goal', goal' ≤ high → tuplesBelow lists goal' < tuplesBelow lists goal

/-- The least and the greatest of the previous keys, where every head has one, are what a round has to know. -/
theorem RoundBack.of_found (matchRoles : Bool) (hs : ∀ ts ∈ lists, Sorted ts) (hne : lists ≠ [])
    (hfound : List.Forall₂ (fun ts t => lastBelow ts goal = some t) lists found) :
    RoundBack matchRoles lists goal ((found.map Tuple.key).foldl min maxKey)
      ((found.map Tuple.key).foldl max 0) := by
  obtain ⟨⟨us, hus, t, hfind, hlow⟩, ⟨vs, hvs, u, hfind', hhigh⟩, hall⟩ :=
    exists_least_greatest hne hfound
  have hlt : u.key < goal := lt_of_lastBelow (hs vs hvs) hfind'
  refine ⟨?_, hhigh ▸ hlt, ?_, fun hagree ts hts => ?_, fun goal' hle => ?_⟩
  · obtain ⟨v, -, hlo, hhi⟩ := hall us hus
    exact UInt64.le_trans hlo hhi
  · rw [← hlow]
    exact fun key => meetAt_eq_none_of_lastBelow (hs us hus) hus hfind
  · obtain ⟨v, hfind'', hlo, hhi⟩ := hall ts hts
    exact ⟨v, mem_of_lastBelow hfind'', UInt64.le_antisymm (hagree ▸ hhi) hlo⟩
  · rw [← hhigh] at hle
    refine tuplesBelow_lt (UInt64.le_trans hle (UInt64.le_of_lt hlt)) ⟨vs, hvs, ?_⟩
    exact place_lt_place (hs vs hvs) (mem_of_lastBelow hfind') hle hlt

/-- When the heads agree on a key whose roles do not match, there is no result from that key on. -/
theorem RoundBack.lastBelow_least (h : RoundBack matchRoles lists goal low low)
    (hm : Merges (meetAt matchRoles lists) ts) (hpick : meetAt matchRoles lists low = none) :
    lastBelow ts goal = lastBelow ts low ∧ tuplesBelow lists low < tuplesBelow lists goal := by
  refine ⟨?_, h.progress low (UInt64.le_refl _)⟩
  rw [lastBelow, lastBelow, hm.place_eq (UInt64.le_of_lt h.lt_goal) fun key hge hlt => ?_]
  rcases UInt64.lt_or_eq_of_le hge with hgt | rfl
  · exact h.skip key hgt hlt
  · exact hpick

/-- When the heads do not agree, those ahead go back behind the least key. -/
theorem RoundBack.lastBelow_after (h : RoundBack matchRoles lists goal low high)
    (hm : Merges (meetAt matchRoles lists) ts) (hne : low ≠ high) :
    lastBelow ts goal = lastBelow ts (low + 1) ∧
      tuplesBelow lists (low + 1) < tuplesBelow lists goal := by
  have hlt := UInt64.lt_of_le_of_ne h.least_le hne
  have hle : low + 1 ≤ high := by grind
  have hless : low < low + 1 := by grind
  have hgoal := UInt64.le_trans hle (UInt64.le_of_lt h.lt_goal)
  refine ⟨?_, h.progress (low + 1) hle⟩
  rw [lastBelow, lastBelow, hm.place_eq hgoal fun key hge hlt' => ?_]
  exact h.skip key (UInt64.lt_of_lt_of_le hless hge) hlt'

/-- One round of a search back. -/
def roundBackward (matchRoles : Bool) (goal : UInt64) :
    Act (Over (List C)) (Option Tuple ⊕ UInt64) := do
  match ← Heads.eachSome (Heads.behind goal) with
  | none => return .inl none
  | some found =>
    let low := (found.map Tuple.key).foldl min maxKey
    let high := (found.map Tuple.key).foldl max 0
    if low ≠ high then return .inr (low + 1)
    else
      match ← pick matchRoles low with
      | some t => return .inl (some t)
      | none => return .inr low

/-- The search backwards is the general one with its rounds. -/
theorem searchBackward_eq (matchRoles : Bool) (fuel : Nat) (goal : UInt64) :
    searchBackward (C := C) matchRoles fuel goal = searchBy (roundBackward matchRoles) fuel goal := by
  induction fuel generalizing goal with
  | zero => rfl
  | succ fuel ih =>
    rw [searchBackward, searchBy, roundBackward, bind_assoc]
    refine congrArg _ (funext fun found => ?_)
    cases found with
    | none => rfl
    | some found =>
      dsimp only
      split
      · exact ih _
      · rw [bind_assoc]
        refine congrArg _ (funext fun picked => ?_)
        cases picked with
        | some t => rfl
        | none => exact ih _

/-- A round of a search back finds the last result below its goal, or gives an earlier goal that leaves
fewer tuples behind and has the same last result. -/
theorem reads_roundBackward (hm : Merges (meetAt matchRoles lists) ts) (hne : lists ≠ [])
    (goal : UInt64) (h : AllShow ds heads lists) :
    ∃ heads' r, Over.Reads ds (roundBackward matchRoles goal) heads r heads' ∧
      AllShow ds heads' lists ∧
      match r with
      | .inl found => lastBelow ts goal = found
      | .inr goal' =>
        lastBelow ts goal = lastBelow ts goal' ∧
          tuplesBelow lists goal' < tuplesBelow lists goal := by
  obtain ⟨heads₁, found, hrun₁, h₁, hfound⟩ := h.eachSome (behind_answers ds goal)
  cases found with
  | none =>
    -- one head has come to its start
    obtain ⟨us, hus, hnone⟩ := hfound
    refine ⟨heads₁, .inl none, hrun₁.bind (.pure heads₁ _), h₁, ?_⟩
    refine hm.lastBelow_eq_none fun key hlt => meetAt_eq_none_of_lacks hus fun u hu heq => ?_
    have hle := le_of_lastBelow_eq_none (h.sorted hus) hnone hu
    exact absurd (heq ▸ hlt) (UInt64.not_lt.mpr hle)
  | some found =>
    have hround := RoundBack.of_found matchRoles (fun us hus => h.sorted hus) hne hfound
    generalize hlow : (found.map Tuple.key).foldl min maxKey = low at hround
    generalize hhigh : (found.map Tuple.key).foldl max 0 = high at hround
    by_cases hkey : low = high
    · subst hkey
      obtain ⟨heads₂, hrun₂, h₂⟩ := reads_pick matchRoles h₁ (hround.agree rfl)
      cases hpick : meetAt matchRoles lists low with
      | some t =>
        obtain rfl := (meetAt_mem hpick).1
        rw [hpick] at hrun₂
        refine ⟨heads₂, .inl (some t), hrun₁.bind ?_, h₂,
          hm.lastBelow_eq_some hpick hround.lt_goal hround.skip⟩
        simp only [hlow, hhigh, ne_eq, not_true, if_false]
        exact hrun₂.bind (.pure heads₂ _)
      | none =>
        -- all heads have the key, but their roles do not match
        rw [hpick] at hrun₂
        refine ⟨heads₂, .inr low, hrun₁.bind ?_, h₂, hround.lastBelow_least hm hpick⟩
        simp only [hlow, hhigh, ne_eq, not_true, if_false]
        exact hrun₂.bind (.pure heads₂ _)
    · refine ⟨heads₁, .inr (low + 1), hrun₁.bind ?_, h₁, hround.lastBelow_after hm hkey⟩
      simp only [hlow, hhigh, ne_eq, hkey, not_false_eq_true, if_true]
      exact .pure heads₁ _

/-- The search backwards ends, with as many rounds as the heads have tuples and one more, at the last tuple
of the intersection below the goal. -/
theorem ends_searchBackward (hm : Merges (meetAt matchRoles lists) ts) (hne : lists ≠ [])
    (h : AllShow ds heads lists) (goal : UInt64) :
    ∃ heads', EndsReading ds (roundBackward matchRoles) goal (Heads.extent heads + 1) heads
      (lastBelow ts goal) heads' ∧ AllShow ds heads' lists :=
  ends_of_closer (fun goal h => reads_roundBackward hm hne goal h)
    (Nat.lt_succ_of_le (Nat.le_trans (tuplesBelow_le lists goal) h.extent)) h

/-! ## All steps -/

/-- An intersection of heads other than one shows the merged list. -/
structure Meets (ds : Disks) (c : Conjunction C) (ts : List Tuple) (boundary : UInt64) : Prop where
  several : c.heads.length ≠ 1
  boundary_eq : c.boundary = boundary
  shown : ∃ lists, AllShow ds c.heads lists ∧ Merges (meetAt c.matchRoles lists) ts

variable {x : Conjunction C} {boundary : UInt64}

/-- Moving the boundary leaves the heads where they are: each look seeks anew. -/
theorem Meets.moveTo (h : Meets ds x ts boundary) (boundary' : UInt64) :
    Meets ds { x with boundary := boundary' } ts boundary' :=
  ⟨h.several, rfl, h.shown⟩

/-- The heads may move. -/
theorem Meets.withHeads (h : Meets ds x ts boundary) (hm : Merges (meetAt x.matchRoles lists) ts)
    (hlen : lists.length ≠ 1) (h' : AllShow ds heads lists) :
    Meets ds { x with heads } ts boundary :=
  ⟨h'.length_eq ▸ hlen, h.boundary_eq, lists, h', hm⟩

/-- A look finds nothing where there are no heads, and is a search of two or more. -/
theorem Meets.reads_look {search : Bool → Nat → UInt64 → Act (Over (List C)) (Option Tuple)}
    {single : Act (Over (List C)) (Option Tuple)} {answer : Option Tuple}
    (h : Meets ds x ts boundary)
    (hempty : Merges (meetAt x.matchRoles []) ts → answer = none)
    (hsearch : ∀ {lists}, Merges (meetAt x.matchRoles lists) ts → lists ≠ [] →
      AllShow ds x.heads lists →
      ∃ heads', Over.Reads ds (search x.matchRoles (Heads.extent x.heads + 1) boundary) x.heads
        answer heads' ∧ AllShow ds heads' lists) :
    ∃ x', Over.Reads ds (do
        let c ← Over.current
        match c.heads with
        | [] => return none
        | [_] => onHeads single
        | heads => onHeads (search c.matchRoles (Heads.extent heads + 1) c.boundary)) x answer x' ∧
      Meets ds x' ts boundary ∧ x'.heads.length = x.heads.length := by
  obtain ⟨lists, hshow, hm⟩ := h.shown
  have hlen : lists.length ≠ 1 := hshow.length_eq ▸ h.several
  rcases x with ⟨heads, m, b⟩
  obtain rfl : b = boundary := h.boundary_eq
  rcases heads with _ | ⟨c₁, _ | ⟨c₂, rest⟩⟩
  · -- without heads nothing is searched
    obtain rfl : lists = [] := List.eq_nil_of_length_eq_zero hshow.length_eq.symm
    rw [hempty hm]
    exact ⟨_, (Over.Reads.current _).bind (.pure _ _), h, rfl⟩
  · exact absurd rfl h.several
  · -- with two heads or more there is a search
    have hne : lists ≠ [] := by
      rintro rfl
      exact absurd hshow.length_eq (by simp)
    obtain ⟨heads', hrun, h'⟩ := hsearch hm hne hshow
    exact ⟨_, (Over.Reads.current _).bind hrun.through, h.withHeads hm hlen h',
      h'.length_eq.trans hshow.length_eq.symm⟩

/-- Of no lists nothing is met. -/
theorem meetAt_nil (matchRoles : Bool) (key : UInt64) : meetAt matchRoles [] key = none := by
  cases matchRoles <;> rfl

/-- A look onwards finds the first tuple of the intersection from the boundary on, or nothing where there
are no heads. -/
theorem Meets.reads_lookForward (h : Meets ds x ts boundary) :
    ∃ x', Over.Reads ds lookForward x (firstFrom ts boundary) x' ∧ Meets ds x' ts boundary ∧
      x'.heads.length = x.heads.length := by
  refine h.reads_look (fun hm => hm.firstFrom_eq_none fun key _ => meetAt_nil _ key) ?_
  intro lists hm hne hshow
  obtain ⟨heads', hends, h'⟩ := ends_searchForward hm hne hshow boundary
  refine ⟨heads', ?_, h'⟩
  rw [searchForward_eq]
  exact hends.reads (Nat.le_refl _)

/-- A look backwards finds the last tuple of the intersection below the boundary, or nothing where there are
no heads. -/
theorem Meets.reads_lookBackward (h : Meets ds x ts boundary) :
    ∃ x', Over.Reads ds lookBackward x (lastBelow ts boundary) x' ∧ Meets ds x' ts boundary ∧
      x'.heads.length = x.heads.length := by
  refine h.reads_look (fun hm => hm.lastBelow_eq_none fun key _ => meetAt_nil _ key) ?_
  intro lists hm hne hshow
  obtain ⟨heads', hends, h'⟩ := ends_searchBackward hm hne hshow boundary
  refine ⟨heads', ?_, h'⟩
  rw [searchBackward_eq]
  exact hends.reads (Nat.le_refl _)

/-- Intersections of a number of heads go with their merged lists. -/
theorem bounded_meets (ds : Disks) (n : Nat) :
    Bounded ds fun (x : Conjunction C) ts b => Meets ds x ts b ∧ x.heads.length = n := by
  apply (merging C).bounded
  case hseveral => exact fun ⟨h, _⟩ => h.several
  case hmove => exact fun b' ⟨h, hn⟩ => ⟨h.moveTo b', hn⟩
  case hstrict =>
    rintro x ts b ⟨h, -⟩
    obtain ⟨lists, -, hm⟩ := h.shown
    exact hm.strict
  case hextent =>
    rintro x ts b ⟨h, -⟩
    obtain ⟨lists, hshow, hm⟩ := h.shown
    -- each result has a key of its own, and that is a key of one of the lists
    have hle : ts.length ≤ (keysOf lists).length := hm.length_le fun t ht => by
      obtain ⟨-, us, hus, hmem⟩ := meetAt_mem (hm.pick_eq ht)
      exact key_mem_keysOf hus hmem
    rw [length_keysOf] at hle
    exact Nat.le_trans hle hshow.extent
  case hnext =>
    rintro x ts b ⟨h, hn⟩
    obtain ⟨x', hrun, h', hlen⟩ := h.reads_lookForward
    exact ⟨x', hrun, h', hlen.trans hn⟩
  case hprevious =>
    rintro x ts b ⟨h, hn⟩
    obtain ⟨x', hrun, h', hlen⟩ := h.reads_lookBackward
    exact ⟨x', hrun, h', hlen.trans hn⟩

/-- An intersection of one list shows that list, with all its runs, for it hands every call on to its head. -/
theorem shows_single {us : List Tuple} {p : Nat} (hheads : x.heads = [c]) (h : Shows ds c us p) :
    Shows ds x us p :=
  (merging C).shows_single rfl hheads h

/-! ## Opening -/

/-- The tuples of an intersection of several heads. -/
def meets (matchRoles : Bool) (lists : List (List Tuple)) : List Tuple :=
  inKeyOrder (keysOf lists) (meetAt matchRoles lists)

/-- The list of the intersection has just the tuples that are met, one for a key. -/
theorem merges_meets (matchRoles : Bool) (lists : List (List Tuple)) :
    Merges (meetAt matchRoles lists) (meets matchRoles lists) :=
  Merges.of_keys (fun key t hpick => (meetAt_mem hpick).1) fun key t hpick => by
    obtain ⟨rfl, us, hus, ht⟩ := meetAt_mem hpick
    exact key_mem_keysOf hus ht

variable {inputs : List (List Tuple × Nat)}

/-- An intersection is opened with its boundary behind the keys that its heads reach, except that the
largest key has no place behind it. -/
theorem reads_boundary (h : Stand ds heads inputs) (matchRoles : Bool) :
    ∃ x : Conjunction C, PageFile.Reads ds (ofHeads heads matchRoles) x ∧
      x.matchRoles = matchRoles ∧ Stand ds x.heads inputs ∧
      ∀ key, key < x.boundary ↔ reaches inputs key = true ∧ key ≠ maxKey := by
  obtain ⟨heads', boundary, hrun, h', hboundary⟩ := h.initialBoundary
  refine ⟨⟨heads', matchRoles, boundary⟩, fun f hf hd => ?_, rfl, h', hboundary⟩
  obtain ⟨f', hrun', hf', hd'⟩ := hrun f hf hd
  exact ⟨f', by simp only [ofHeads, hrun'], hf', hd'⟩

/-- Where no tuple has the largest key, the boundary lies behind all keys that the heads reach. -/
theorem reads_opened (h : Stand ds heads inputs) (matchRoles : Bool) :
    ∃ x : Conjunction C, PageFile.Reads ds (ofHeads heads matchRoles) x ∧
      x.matchRoles = matchRoles ∧ Stand ds x.heads inputs ∧
      ((∀ input ∈ inputs, ∀ t ∈ input.1, t.key ≠ maxKey) →
        ∀ key, key < x.boundary ↔ reaches inputs key = true) := by
  obtain ⟨x, hread, hroles, h', hboundary⟩ := reads_boundary h matchRoles
  refine ⟨x, hread, hroles, h', fun hmax key => (hboundary key).trans ?_⟩
  exact and_iff_left_of_imp (ne_maxKey_of_reaches hmax)

/-- Heads that stand in some lists make an intersection of these lists. -/
theorem Meets.of_stand {x : Conjunction C} (h : Stand ds x.heads inputs) (hlen : inputs.length ≠ 1) :
    Meets ds x (meets x.matchRoles (inputs.map Prod.fst)) x.boundary where
  several hone := hlen ((List.Forall₂.length_eq h).symm.trans hone)
  boundary_eq := rfl
  shown := ⟨_, h.allShow, merges_meets _ _⟩

/-- No result has the largest key when no tuple of the heads has it. -/
theorem meets_of_stand {x : Conjunction C} (h : Stand ds x.heads inputs)
    (hmax : ∀ input ∈ inputs, ∀ t ∈ input.1, t.key ≠ maxKey) (hlen : inputs.length ≠ 1) :
    Meets ds x (meets x.matchRoles (inputs.map Prod.fst)) x.boundary ∧
      ∀ t ∈ meets x.matchRoles (inputs.map Prod.fst), t.key ≠ maxKey := by
  refine ⟨.of_stand h hlen, fun t ht => ?_⟩
  obtain ⟨-, us, hus, hmem⟩ := meetAt_mem ((merges_meets _ _).pick_eq ht)
  obtain ⟨input, hinput, rfl⟩ := List.mem_map.mp hus
  exact hmax input hinput t hmem

/-- The list that an intersection shows: that of a single head, or the merged list. -/
def Intersects (matchRoles : Bool) : List (List Tuple) → List Tuple → Prop
  | [us], ts => ts = us
  | lists, ts => Merges (meetAt matchRoles lists) ts

/-- An intersection of heads where they stand shows a list. -/
theorem reads_ofHeads (h : AllShow ds heads lists)
    (hmax : ∀ us ∈ lists, ∀ u ∈ us, u.key ≠ maxKey) (matchRoles : Bool) :
    ∃ x ts p, PageFile.Reads ds (ofHeads heads matchRoles) x ∧ Shows ds x ts p ∧
      Intersects matchRoles lists ts := by
  obtain ⟨inputs, hstand, rfl⟩ := h.exists_stand
  obtain ⟨x, hread, rfl, h', -⟩ := reads_opened hstand matchRoles
  by_cases hone : inputs.length = 1
  · -- with one head the merge is that head
    obtain ⟨⟨us, p⟩, rfl⟩ := List.length_eq_one_iff.mp hone
    rcases hheads : x.heads with _ | ⟨c, _ | _⟩ <;> rw [hheads] at h' <;>
      rcases h' with _ | ⟨hc, ⟨⟩⟩
    exact ⟨x, us, p, hread, shows_single hheads hc, rfl⟩
  · -- with none, or with several, it shows the merged list from the boundary on
    obtain ⟨hmeets, hbelow⟩ :=
      meets_of_stand h' (fun input hinput => hmax _ (List.mem_map_of_mem hinput)) hone
    refine ⟨x, _, _, hread, (bounded_meets ds _).mimicry.shows
      ⟨x.boundary, ⟨⟨hmeets, rfl⟩, hbelow⟩, rfl⟩, ?_⟩
    unfold Intersects
    split
    · rename_i heq
      rw [← List.length_map, heq] at hone
      exact absurd rfl hone
    · exact merges_meets _ _

end Conjunction

end EventIndex
