import Mathlib.Algebra.GroupWithZero.Nat
import Mathlib.Data.List.Forall2
import EventIndex.Cursor.Merge
import EventIndex.Proofs.Cursor.Search

/-! # Several heads at once

A merged cursor seeks its heads anew at every step, so it does not matter where their gaps are.
`AllShow` says which lists they show, and an action at every head gives the answers of these lists.

Main results:

* `AllShow.each_map`, `AllShow.at_`: asking all heads, or one of them.
* `ahead_answers`, `behind_answers`: a seek and a look is a search in the list of the head.
* `lt_foldl_boundary_iff`: where a merge has its boundary when it is opened over heads that stand
  somewhere.
-/

namespace EventIndex

open Cursor

namespace Heads

variable {C α : Type} [Cursor C] {ds : Disks} {heads : List C} {lists : List (List Tuple)}
  {ts : List Tuple} {c : C} {i p : Nat} {key : UInt64}

/-- The heads show some lists, wherever their gaps are. -/
def AllShow (ds : Disks) (heads : List C) (lists : List (List Tuple)) : Prop :=
  List.Forall₂ (fun c ts => ∃ p, Shows ds c ts p) heads lists

/-- An action gives the answer of the list that a cursor shows. -/
def Answers (ds : Disks) (act : Act (Over C) α) (answer : List Tuple → α) : Prop :=
  ∀ {c ts p}, Shows ds c ts p → ∃ c' p', Over.Reads ds act c (answer ts) c' ∧ Shows ds c' ts p'

/-- The shown lists are sorted. -/
theorem AllShow.sorted (h : AllShow ds heads lists) (hts : ts ∈ lists) : Sorted ts := by
  induction h with
  | nil => cases hts
  | cons hc _ ih =>
    rcases List.mem_cons.mp hts with rfl | hts
    · exact hc.choose_spec.sorted
    · exact ih hts

/-- Each list is shown by a head. -/
theorem AllShow.get (h : AllShow ds heads lists) (hts : lists[i]? = some ts) :
    ∃ c p, heads[i]? = some c ∧ Shows ds c ts p := by
  induction h generalizing i with
  | nil => cases hts
  | @cons c _ _ _ hc _ ih =>
    cases i with
    | zero =>
      rw [List.getElem?_cons_zero, Option.some.injEq] at hts
      subst hts
      exact ⟨c, hc.choose, rfl, hc.choose_spec⟩
    | succ i => exact ih hts

/-- A head may be replaced by another one that shows the same list. -/
theorem AllShow.set (h : AllShow ds heads lists) (hts : lists[i]? = some ts)
    (hc : Shows ds c ts p) : AllShow ds (heads.set i c) lists := by
  induction h generalizing i with
  | nil => cases hts
  | cons hhead hrest ih =>
    cases i with
    | zero =>
      rw [List.getElem?_cons_zero, Option.some.injEq] at hts
      subst hts
      exact .cons ⟨p, hc⟩ hrest
    | succ i => exact .cons hhead (ih hts)

/-- There are as many heads as lists. -/
theorem AllShow.length_eq (h : AllShow ds heads lists) : heads.length = lists.length :=
  List.Forall₂.length_eq h

/-- The keys of all heads. -/
def keysOf (lists : List (List Tuple)) : List UInt64 := lists.flatten.map Tuple.key

theorem key_mem_keysOf {t : Tuple} (hts : ts ∈ lists) (ht : t ∈ ts) : t.key ∈ keysOf lists :=
  List.mem_map.mpr ⟨t, List.mem_flatten.mpr ⟨ts, hts, ht⟩, rfl⟩

/-- There are as many keys as tuples, as keys are not left out when they are repeated. -/
theorem length_keysOf (lists : List (List Tuple)) :
    (keysOf lists).length = (lists.map List.length).sum := by
  rw [keysOf, List.length_map, List.length_flatten]

/-- The heads know together how many tuples their lists have at most. -/
theorem AllShow.extent (h : AllShow ds heads lists) :
    (lists.map List.length).sum ≤ Heads.extent heads := by
  induction h with
  | nil => exact Nat.le_refl _
  | cons hc _ ih =>
    rw [Heads.extent, List.foldr_cons, List.map_cons, List.sum_cons]
    exact Nat.add_le_add hc.choose_spec.extent ih

/-! ## Actions at every head -/

omit [Cursor C] in
/-- Whatever is known of the answer of one head holds of the answers of all, and whatever a head keeps
by an action all of them keep. -/
theorem reads_each {β : Type} {R : C → β → Prop} {P : β → α → Prop} {act : Act (Over C) α}
    {inputs : List β}
    (hact : ∀ {c b}, R c b → ∃ c' a, Over.Reads ds act c a c' ∧ P b a ∧ R c' b)
    (h : List.Forall₂ R heads inputs) :
    ∃ heads' as, Over.Reads ds (each act) heads as heads' ∧ List.Forall₂ P inputs as ∧
      List.Forall₂ R heads' inputs := by
  induction h with
  | nil => exact ⟨[], [], fun f hf _ => ⟨f, rfl, hf, rfl⟩, .nil, .nil⟩
  | cons hc _ ih =>
    obtain ⟨c', a, hrun, ha, hc'⟩ := hact hc
    obtain ⟨heads', as, hruns, has, hheads'⟩ := ih
    refine ⟨c' :: heads', a :: as, fun f hf hd => ?_, .cons ha has, .cons hc' hheads'⟩
    obtain ⟨f₁, hrun₁, hf₁, hd₁⟩ := hrun f hf hd
    obtain ⟨f₂, hrun₂, hf₂, hd₂⟩ := hruns f₁ hf₁ (hd₁.symm ▸ hd)
    refine ⟨f₂, ?_, hf₂, hd₂.trans hd₁⟩
    simp only [Heads.each] at hrun₂ ⊢
    simp only [eachFrom, hrun₁, hrun₂]

/-- Asking every head gives the answers of all lists, and the heads show the same lists. -/
theorem AllShow.each_map {act : Act (Over C) α} {answer : List Tuple → α}
    (hact : Answers ds act answer) (h : AllShow ds heads lists) :
    ∃ heads', Over.Reads ds (Heads.each act) heads (lists.map answer) heads' ∧
      AllShow ds heads' lists := by
  obtain ⟨heads', as, hrun, has, h'⟩ := reads_each (P := fun ts a => answer ts = a)
    (fun ⟨_, hc⟩ => let ⟨c', p', hrun, hc'⟩ := hact hc; ⟨c', _, hrun, rfl, p', hc'⟩) h
  have heq : lists.map answer = as := by
    rwa [← List.forall₂_map_left_iff, List.forall₂_eq_eq_eq] at has
  exact ⟨heads', heq ▸ hrun, h'⟩

/-- Either all heads have an answer, or one has none and the rest is not asked. -/
theorem AllShow.eachSome {act : Act (Over C) (Option α)} {answer : List Tuple → Option α}
    (hact : Answers ds act answer) (h : AllShow ds heads lists) :
    ∃ heads' found, Over.Reads ds (eachSome act) heads found heads' ∧ AllShow ds heads' lists ∧
      match found with
      | some as => List.Forall₂ (fun ts a => answer ts = some a) lists as
      | none => ∃ ts ∈ lists, answer ts = none := by
  induction h with
  | nil => exact ⟨[], some [], fun f hf _ => ⟨f, rfl, hf, rfl⟩, .nil, .nil⟩
  | @cons c ts heads lists hc hrest ih =>
    obtain ⟨c', p', hrun, hc'⟩ := hact hc.choose_spec
    obtain ⟨heads', found, hruns, hheads', hfound⟩ := ih
    cases hanswer : answer ts with
    | none =>
      -- the heads behind this one are not asked
      refine ⟨c' :: heads, none, fun f hf hd => ?_, .cons ⟨p', hc'⟩ hrest,
        ts, List.mem_cons_self, hanswer⟩
      obtain ⟨f₁, hrun₁, hf₁, hd₁⟩ := hrun f hf hd
      rw [hanswer] at hrun₁
      refine ⟨f₁, ?_, hf₁, hd₁⟩
      simp only [Heads.eachSome, eachSomeFrom, hrun₁]
    | some a =>
      refine ⟨c' :: heads', found.map (a :: ·), fun f hf hd => ?_, .cons ⟨p', hc'⟩ hheads', ?_⟩
      · obtain ⟨f₁, hrun₁, hf₁, hd₁⟩ := hrun f hf hd
        obtain ⟨f₂, hrun₂, hf₂, hd₂⟩ := hruns f₁ hf₁ (hd₁.symm ▸ hd)
        rw [hanswer] at hrun₁
        refine ⟨f₂, ?_, hf₂, hd₂.trans hd₁⟩
        simp only [Heads.eachSome] at hrun₂ ⊢
        simp only [eachSomeFrom, hrun₁, hrun₂]
      · cases found with
        | none =>
          obtain ⟨us, hus, hnone⟩ := hfound
          exact ⟨us, List.mem_cons_of_mem _ hus, hnone⟩
        | some as => exact .cons hanswer hfound

/-- Asking one head gives the answer of its list, and the heads show the same lists. -/
theorem AllShow.at_ {act : Act (Over C) (Option α)} {answer : List Tuple → Option α}
    (hact : Answers ds act answer) (h : AllShow ds heads lists) (i : Nat) :
    ∃ heads', Over.Reads ds (at_ act i) heads (lists[i]?.bind answer) heads' ∧
      AllShow ds heads' lists := by
  cases hts : lists[i]? with
  | none =>
    have hget : heads[i]? = none := by
      rw [List.getElem?_eq_none_iff, h.length_eq, ← List.getElem?_eq_none_iff, hts]
    refine ⟨heads, fun f hf _ => ⟨f, ?_, hf, rfl⟩, h⟩
    simp only [Heads.at_, hget, Option.bind_none]
  | some ts =>
    obtain ⟨c, p, hget, hc⟩ := h.get hts
    obtain ⟨c', p', hrun, hc'⟩ := hact hc
    refine ⟨heads.set i c', fun f hf hd => ?_, h.set hts hc'⟩
    obtain ⟨f', hrun', hf', hd'⟩ := hrun f hf hd
    refine ⟨f', ?_, hf', hd'⟩
    simp only [Heads.at_, hget, hrun', Option.bind_some]

omit [Cursor C] in
/-- An action at a single head is that of the head. -/
theorem wraps_at_single (act : Act (Over C) (Option α)) : Wraps ([·]) act (Heads.at_ act 0) := by
  intro c f
  simp only [Heads.at_, List.getElem?_cons_zero]
  cases act ⟨c, f⟩ <;> rfl

/-- To seek a key and peek on is to look for the next tuple from the key on. -/
theorem ahead_answers (ds : Disks) (key : UInt64) :
    Answers (C := C) ds (ahead key) (firstFrom · key) := by
  intro c ts p h
  obtain ⟨c₁, hrun₁, h₁⟩ := h.seek key
  obtain ⟨c₂, hrun₂, h₂⟩ := h₁.peekNext
  exact ⟨c₂, _, hrun₁.bind hrun₂, h₂⟩

/-- To seek a key and peek back is to look for the last tuple below the key. -/
theorem behind_answers (ds : Disks) (key : UInt64) :
    Answers (C := C) ds (behind key) (lastBelow · key) := by
  intro c ts p h
  obtain ⟨c₁, hrun₁, h₁⟩ := h.seek key
  obtain ⟨c₂, hrun₂, h₂⟩ := h₁.peekPrevious
  exact ⟨c₂, _, hrun₁.bind hrun₂, h₂⟩

/-! ## Where the heads stand -/

/-- The heads show some lists with their gaps at some places. -/
def Stand (ds : Disks) (heads : List C) (inputs : List (List Tuple × Nat)) : Prop :=
  List.Forall₂ (fun c input => Shows ds c input.1 input.2) heads inputs

variable {inputs : List (List Tuple × Nat)} {t : Tuple}

/-- Heads that stand somewhere show their lists. -/
theorem Stand.allShow (h : Stand ds heads inputs) : AllShow ds heads (inputs.map Prod.fst) := by
  rw [AllShow, List.forall₂_map_right_iff]
  exact h.imp fun c input hc => ⟨input.2, hc⟩

/-- Heads that show lists stand somewhere. -/
theorem AllShow.exists_stand (h : AllShow ds heads lists) :
    ∃ inputs, Stand ds heads inputs ∧ inputs.map Prod.fst = lists := by
  induction h with
  | nil => exact ⟨[], .nil, rfl⟩
  | @cons c ts _ _ hc _ ih =>
    obtain ⟨p, hc⟩ := hc
    obtain ⟨inputs, hstand, rfl⟩ := ih
    exact ⟨(ts, p) :: inputs, .cons hc hstand, rfl⟩

/-- Whether some head has a key of at least `key` before its gap. -/
def reaches (inputs : List (List Tuple × Nat)) (key : UInt64) : Bool :=
  inputs.any fun input => (input.1.take input.2).any (key ≤ ·.key)

/-- A key is reached if some head has it or a greater one before its gap. -/
theorem reaches_iff :
    reaches inputs key = true ↔ ∃ input ∈ inputs, ∃ t ∈ input.1.take input.2, key ≤ t.key := by
  simp only [reaches, List.any_eq_true, decide_eq_true_eq]

/-- Where no tuple has the largest key, it is not reached. -/
theorem ne_maxKey_of_reaches (hmax : ∀ input ∈ inputs, ∀ t ∈ input.1, t.key ≠ maxKey)
    (h : reaches inputs key = true) : key ≠ maxKey := by
  obtain ⟨input, hinput, t, ht, hle⟩ := reaches_iff.mp h
  have hlt := lt_maxKey_iff.mpr (hmax input hinput t (List.mem_of_mem_take ht))
  exact lt_maxKey_iff.mp (UInt64.lt_of_le_of_lt hle hlt)

/-- Before a gap lies a key of at least `key` just when the last tuple before it has such a key. -/
theorem any_take_iff {ts : List Tuple} (hs : Sorted ts) (hp : p ≤ ts.length) (key : UInt64) :
    (ts.take p).any (key ≤ ·.key) = (before ts p).any (key ≤ ·.key) := by
  cases p with
  | zero => rfl
  | succ p =>
    have hsplit : ts.take (p + 1) = ts.take p ++ [ts[p]] := List.take_succ_eq_append_getElem hp
    have hlast : (ts.take (p + 1)).getLast? = some ts[p] := by rw [hsplit, List.getLast?_concat]
    rw [before_succ, List.getElem?_eq_getElem hp, Option.any_some, Bool.eq_iff_iff, List.any_eq_true]
    constructor
    · rintro ⟨u, hu, hkey⟩
      have hle := Sorted.le_getLast (hs.sublist (List.take_sublist _ _)) hlast hu
      exact decide_eq_true (UInt64.le_trans (of_decide_eq_true hkey) hle)
    · exact fun hkey => ⟨ts[p], List.mem_of_getLast? hlast, hkey⟩

/-- The boundary behind a key lies behind all keys up to this one, except the largest of all. -/
theorem lt_boundaryAfter_iff {key k : UInt64} :
    key < boundaryAfter k ↔ key ≤ k ∧ key ≠ maxKey := by
  rw [boundaryAfter, maxKey]
  split <;> grind

/-- Below the greater of two keys is what is below one of them. -/
theorem lt_max_iff {a b c : UInt64} : a < max b c ↔ a < b ∨ a < c := by
  show a < ite (b ≤ c) c b ↔ _
  split <;> grind

/-- The boundary that the heads give together lies behind all keys that the boundary of one of them lies
behind. -/
theorem lt_foldl_boundary_iff {key : UInt64} (found : List (Option Tuple)) (bound : UInt64) :
    key < found.foldl (fun bound t => match t with
      | none => bound
      | some t => max bound (boundaryAfter t.key)) bound ↔
    key < bound ∨ found.any (·.any fun t => key < boundaryAfter t.key) = true := by
  induction found generalizing bound with
  | nil => simp
  | cons o found ih =>
    rw [List.foldl_cons, ih, List.any_cons]
    cases o with
    | none => rfl
    | some t =>
      simp only [lt_max_iff, Option.any_some, Bool.or_eq_true, decide_eq_true_eq, or_assoc]

/-- No head moves while the first boundary is found. It lies behind the keys that some head reaches,
except that the largest key has no place behind it. -/
theorem Stand.initialBoundary (h : Stand ds heads inputs) :
    ∃ heads' boundary, Over.Reads ds (initialBoundary (C := C)) heads boundary heads' ∧
      Stand ds heads' inputs ∧
      ∀ key, key < boundary ↔ reaches inputs key = true ∧ key ≠ maxKey := by
  obtain ⟨heads', found, hrun, hfound, h'⟩ := reads_each
    (P := fun input o => o = before input.1 input.2 ∧ Sorted input.1 ∧ input.2 ≤ input.1.length)
    (fun hc => let ⟨c', hrun, hc'⟩ := hc.peekPrevious
      ⟨c', _, hrun, ⟨rfl, hc.sorted, hc.inside⟩, hc'⟩) h
  refine ⟨heads', _, hrun.bind (.pure heads' _), h', fun key => ?_⟩
  refine (lt_foldl_boundary_iff found 0).trans ?_
  rw [or_iff_right (by grind)]
  clear hrun h h'
  -- a head reaches a key when the tuple before its gap has that key or a larger one
  induction hfound with
  | nil => simp [reaches]
  | @cons input o _ _ ho _ ih =>
    obtain ⟨rfl, hs, hp⟩ := ho
    have hone : (before input.1 input.2).any (fun t => key < boundaryAfter t.key) = true ↔
        (input.1.take input.2).any (key ≤ ·.key) = true ∧ key ≠ maxKey := by
      rw [any_take_iff hs hp]
      cases before input.1 input.2 with
      | none => simp
      | some t => simp only [Option.any_some, decide_eq_true_eq, lt_boundaryAfter_iff]
    rw [List.any_cons, Bool.or_eq_true, hone, ih, reaches, reaches, List.any_cons, Bool.or_eq_true,
      or_and_right]

end Heads

end EventIndex
