import EventIndex.Cursor.Filter
import EventIndex.Proofs.Cursor.Shows

/-! # What filters show

A widened cursor shows the same tuples with any role, and a role filter shows the tuples that pass.
The place of a role filter is the number of tuples before the inner gap that pass, so the inner gap
may be moved over tuples that do not.

* `Cursor.Shows.widened`: what a widened cursor shows.
* `Cursor.Shows.filtered`: what a role filter shows, wherever its inner gap is when it is opened.
-/

namespace EventIndex

open Cursor

variable {C : Type} [Cursor C] {ds : Disks}

/-! ## Any role -/

namespace Widened

omit [Cursor C] in

/-- The cursor inside reads what it reads by itself. -/
theorem reads_lift {α : Type} {act : Act (Over C) α} {c : Widened C} {c' : C} {a : α}
    (h : Over.Reads ds act c.inner a c') : Over.Reads ds (lift act) c a ⟨c'⟩ :=
  .through h

omit [Cursor C] in

/-- What the cursor inside finds is given the role `any`. -/
theorem reads_widening {act : Act (Over C) (Option Tuple)} {c : Widened C} {c' : C}
    {t : Option Tuple} (h : Over.Reads ds act c.inner t c') :
    Over.Reads ds (widening act) c (t.map Tuple.widen) ⟨c'⟩ :=
  (reads_lift h).bind (.pure _ _)

/-- Other roles leave the place of a key where it is. -/
theorem place_map_widen (us : List Tuple) (key : UInt64) :
    place (us.map Tuple.widen) key = place us key := List.countP_map

/-- The tuple before a gap is the same but for its role. -/
theorem before_map_widen (us : List Tuple) (p : Nat) :
    before (us.map Tuple.widen) p = (before us p).map Tuple.widen := by
  cases p with
  | zero => rfl
  | succ p => exact List.getElem?_map

/-- A cursor inside that shows a list is all that a widened cursor needs. -/
theorem mimicry (ds : Disks) :
    Mimicry ds fun (c : Widened C) ts p => ∃ us, Shows ds c.inner us p ∧ ts = us.map Tuple.widen where
  sorted := by
    rintro c _ p ⟨us, h, rfl⟩
    exact List.pairwise_map.mpr h.sorted
  inside := by
    rintro c _ p ⟨us, h, rfl⟩
    rw [List.length_map]
    exact h.inside
  extent := by
    rintro c _ p ⟨us, h, rfl⟩
    rw [List.length_map]
    exact h.extent
  peekNext := by
    rintro c _ p ⟨us, h, rfl⟩
    obtain ⟨c', hrun, h'⟩ := h.peekNext
    rw [List.getElem?_map]
    exact ⟨⟨c'⟩, reads_widening hrun, us, h', rfl⟩
  peekPrevious := by
    rintro c _ p ⟨us, h, rfl⟩
    obtain ⟨c', hrun, h'⟩ := h.peekPrevious
    rw [before_map_widen]
    exact ⟨⟨c'⟩, reads_widening hrun, us, h', rfl⟩
  next := by
    rintro c _ p ⟨us, h, rfl⟩
    obtain ⟨c', hrun, h'⟩ := h.next
    rw [List.getElem?_map, List.length_map]
    exact ⟨⟨c'⟩, reads_widening hrun, us, h', rfl⟩
  previous := by
    rintro c _ p ⟨us, h, rfl⟩
    obtain ⟨c', hrun, h'⟩ := h.previous
    rw [before_map_widen]
    exact ⟨⟨c'⟩, reads_widening hrun, us, h', rfl⟩
  seek := by
    rintro c _ p key ⟨us, h, rfl⟩
    obtain ⟨c', hrun, h'⟩ := h.seek key
    rw [place_map_widen]
    exact ⟨⟨c'⟩, reads_lift hrun, us, h', rfl⟩

end Widened

/-- A cursor whose tuples may have any role shows the same tuples. -/
theorem Cursor.Shows.widened {c : C} {ts : List Tuple} {p : Nat} (h : Shows ds c ts p) :
    Shows ds (⟨c⟩ : Widened C) (ts.map Tuple.widen) p :=
  (Widened.mimicry ds).shows ⟨ts, h, rfl⟩

/-! ## Allowed roles -/

namespace RoleFilter

variable {c : C} {us : List Tuple} {q fuel : Nat} {allowed : List Role} {t : Tuple}

/-- The number of tuples before a place that pass. -/
def passed (allowed : List Role) (us : List Tuple) (q : Nat) : Nat :=
  (us.take q).countP (accepts allowed)

/-- One tuple further the number of those that pass is greater by that tuple, if it passes. -/
theorem passed_succ (allowed : List Role) (h : us[q]? = some t) :
    passed allowed us (q + 1) = passed allowed us q + if accepts allowed t then 1 else 0 := by
  obtain ⟨hlt, rfl⟩ := List.getElem?_eq_some_iff.mp h
  rw [passed, passed, List.take_succ_eq_append_getElem hlt, List.countP_append,
    List.countP_singleton]

/-- The tuples that pass are those in front of the gap and those behind it. -/
theorem filter_eq_append (allowed : List Role) (us : List Tuple) (q : Nat) :
    us.filter (accepts allowed) =
      (us.take q).filter (accepts allowed) ++ (us.drop q).filter (accepts allowed) := by
  rw [← List.filter_append, List.take_append_drop]

/-- In front of a gap no more tuples pass than in all. -/
theorem passed_le (allowed : List Role) (us : List Tuple) (q : Nat) :
    passed allowed us q ≤ (us.filter (accepts allowed)).length := by
  rw [filter_eq_append allowed us q, List.length_append, passed, List.countP_eq_length_filter]
  exact Nat.le_add_right _ _

/-- The next tuple that passes. -/
theorem getElem?_passed (allowed : List Role) (us : List Tuple) (q : Nat) :
    (us.filter (accepts allowed))[passed allowed us q]? =
      (us.drop q).find? (accepts allowed) := by
  rw [filter_eq_append allowed us q, passed, List.countP_eq_length_filter,
    List.getElem?_append_right (Nat.le_refl _), Nat.sub_self, ← List.head?_eq_getElem?,
    List.head?_filter]

/-- The previous tuple that passes. -/
theorem before_passed (allowed : List Role) (us : List Tuple) (q : Nat) :
    before (us.filter (accepts allowed)) (passed allowed us q) =
      ((us.take q).filter (accepts allowed)).getLast? := by
  rw [filter_eq_append allowed us q, passed, List.countP_eq_length_filter, before,
    List.getLast?_eq_getElem?]
  split
  · rename_i hnone
    rw [List.eq_nil_of_length_eq_zero hnone]
    rfl
  · exact List.getElem?_append_left (by omega)

/-- The place of a key among the tuples that pass is the number of them in front of its place. -/
theorem passed_place (hs : Sorted us) (key : UInt64) :
    passed allowed us (place us key) = place (us.filter (accepts allowed)) key := by
  rw [filter_eq_append allowed us (place us key), place_of_split, passed,
    List.countP_eq_length_filter]
  · exact fun t ht => key_lt_of_mem_take_place hs (List.mem_of_mem_filter ht)
  · exact fun t ht => le_key_of_mem_drop_place hs (List.mem_of_mem_filter ht)

/-! ### Going forward -/

/-- A look onwards moves the gap inside over tuples that do not pass, and finds the next that does. So the
place of the filter stays. -/
theorem reads_lookForward (allowed : List Role) (h : Shows ds c us q) (hfuel : us.length < q + fuel) :
    ∃ c' q', Over.Reads ds (lookForward allowed fuel) c ((us.drop q).find? (accepts allowed)) c' ∧
      Shows ds c' us q' ∧ passed allowed us q' = passed allowed us q := by
  -- the fuel is the way that is left to the end, so that it does not run out before
  induction fuel generalizing c q with
  | zero =>
    have := h.inside
    omega
  | succ fuel ih =>
    obtain ⟨c₁, hrun₁, h₁⟩ := h.peekNext
    -- the inner cursor shows the tuple at its gap, if there is one
    cases hget : us[q]? with
    | none =>
      rw [hget] at hrun₁
      rw [List.drop_of_length_le (List.getElem?_eq_none_iff.mp hget)]
      exact ⟨c₁, q, hrun₁.bind (.pure c₁ _), h₁, rfl⟩
    | some t =>
      obtain ⟨hlt, ht⟩ := List.getElem?_eq_some_iff.mp hget
      rw [hget] at hrun₁
      rw [List.drop_eq_getElem_cons hlt, ht]
      by_cases hpass : accepts allowed t = true
      · refine ⟨c₁, q, hrun₁.bind ?_, h₁, rfl⟩
        rw [List.find?_cons_of_pos hpass]
        simp only [hpass, if_true]
        exact .pure c₁ _
      · -- the tuple does not pass: the inner gap moves over it, and the place of the filter stays
        obtain ⟨c₂, hrun₂, h₂⟩ := h₁.next
        rw [Nat.min_eq_left hlt] at h₂
        obtain ⟨c₃, q', hrun₃, h₃, hpassed⟩ := ih h₂ (by omega)
        refine ⟨c₃, q', hrun₁.bind ?_, h₃, ?_⟩
        · rw [List.find?_cons_of_neg hpass]
          simp only [hpass, Bool.false_eq_true, if_false]
          exact hrun₂.bind hrun₃
        · rw [hpassed, passed_succ allowed hget, if_neg hpass, Nat.add_zero]

/-- A step on goes over the next tuple that passes, or to the end. -/
theorem reads_stepForward (allowed : List Role) (h : Shows ds c us q) (hfuel : us.length < q + fuel) :
    ∃ c' q', Over.Reads ds (stepForward allowed fuel) c ((us.drop q).find? (accepts allowed)) c' ∧
      Shows ds c' us q' ∧ passed allowed us q' =
        min (passed allowed us q + 1) (us.filter (accepts allowed)).length := by
  induction fuel generalizing c q with
  | zero =>
    have := h.inside
    omega
  | succ fuel ih =>
    obtain ⟨c₁, hrun₁, h₁⟩ := h.next
    cases hget : us[q]? with
    | none =>
      have hend : us.length ≤ q := List.getElem?_eq_none_iff.mp hget
      rw [hget] at hrun₁
      refine ⟨c₁, _, hrun₁.bind ?_, h₁, ?_⟩
      · rw [List.drop_of_length_le hend]
        exact .pure c₁ _
      · -- at the end all tuples that pass lie behind, wherever beyond it the inner gap is
        have hall : ∀ q', us.length ≤ q' →
            passed allowed us q' = (us.filter (accepts allowed)).length := fun q' hq' => by
          rw [passed, List.take_of_length_le hq', List.countP_eq_length_filter]
        rw [hall q hend, hall _ (by omega)]
        omega
    | some t =>
      obtain ⟨hlt, ht⟩ := List.getElem?_eq_some_iff.mp hget
      rw [hget] at hrun₁
      rw [Nat.min_eq_left hlt] at h₁
      rw [List.drop_eq_getElem_cons hlt, ht]
      have hsucc := passed_succ allowed hget
      by_cases hpass : accepts allowed t = true
      · refine ⟨c₁, q + 1, hrun₁.bind ?_, h₁, ?_⟩
        · rw [List.find?_cons_of_pos hpass]
          simp only [hpass, if_true]
          exact .pure c₁ _
        · have hle := passed_le allowed us (q + 1)
          rw [if_pos hpass] at hsucc
          omega
      · -- the tuple does not pass, and the inner step over it does not count
        obtain ⟨c₂, q', hrun₂, h₂, hpassed⟩ := ih h₁ (by omega)
        refine ⟨c₂, q', hrun₁.bind ?_, h₂, ?_⟩
        · rw [List.find?_cons_of_neg hpass]
          simp only [hpass, Bool.false_eq_true, if_false]
          exact hrun₂
        · rw [hpassed, hsucc, if_neg hpass, Nat.add_zero]

/-! ### Going back -/

/-- One tuple further there is that tuple more, if it passes. -/
theorem filter_take_succ (h : us[q]? = some t) :
    (us.take (q + 1)).filter (accepts allowed) =
      (us.take q).filter (accepts allowed) ++ if accepts allowed t then [t] else [] := by
  obtain ⟨hlt, rfl⟩ := List.getElem?_eq_some_iff.mp h
  rw [List.take_succ_eq_append_getElem hlt, List.filter_append, List.filter_singleton]
  cases accepts allowed us[q] <;> rfl

/-- A look backwards moves the gap inside over tuples that do not pass, and finds the last that does. -/
theorem reads_lookBack (allowed : List Role) (h : Shows ds c us q) (hfuel : q < fuel) :
    ∃ c' q', Over.Reads ds (lookBack allowed fuel) c
        ((us.take q).filter (accepts allowed)).getLast? c' ∧
      Shows ds c' us q' ∧ passed allowed us q' = passed allowed us q := by
  induction fuel generalizing c q with
  | zero => omega
  | succ fuel ih =>
    obtain ⟨c₁, hrun₁, h₁⟩ := h.peekPrevious
    cases q with
    | zero => exact ⟨c₁, 0, hrun₁.bind (.pure c₁ _), h₁, rfl⟩
    | succ q =>
      have hlt : q < us.length := h.inside
      have hget : us[q]? = some us[q] := List.getElem?_eq_getElem hlt
      rw [before_succ, hget] at hrun₁
      rw [filter_take_succ hget]
      by_cases hpass : accepts allowed us[q] = true
      · refine ⟨c₁, q + 1, hrun₁.bind ?_, h₁, rfl⟩
        simp only [hpass, if_true, List.getLast?_append, List.getLast?_singleton, Option.some_or]
        exact .pure c₁ _
      · -- the tuple does not pass: the inner gap moves back over it, and the filter stays
        obtain ⟨c₂, hrun₂, h₂⟩ := h₁.previous
        obtain ⟨c₃, q', hrun₃, h₃, hpassed⟩ := ih h₂ (Nat.lt_of_succ_lt_succ hfuel)
        refine ⟨c₃, q', hrun₁.bind ?_, h₃, ?_⟩
        · simp only [hpass, Bool.false_eq_true, if_false, List.append_nil]
          exact hrun₂.bind hrun₃
        · rw [hpassed, passed_succ allowed hget, if_neg hpass]
          rfl

/-- A step back goes over the last tuple that passes, or to the front. -/
theorem reads_stepBack (allowed : List Role) (h : Shows ds c us q) (hfuel : q < fuel) :
    ∃ c' q', Over.Reads ds (stepBack allowed fuel) c
        ((us.take q).filter (accepts allowed)).getLast? c' ∧
      Shows ds c' us q' ∧ passed allowed us q' = passed allowed us q - 1 := by
  induction fuel generalizing c q with
  | zero => omega
  | succ fuel ih =>
    obtain ⟨c₁, hrun₁, h₁⟩ := h.previous
    cases q with
    | zero => exact ⟨c₁, 0, hrun₁.bind (.pure c₁ _), h₁, rfl⟩
    | succ q =>
      have hlt : q < us.length := h.inside
      have hget : us[q]? = some us[q] := List.getElem?_eq_getElem hlt
      rw [before_succ, hget] at hrun₁
      rw [filter_take_succ hget, passed_succ allowed hget]
      by_cases hpass : accepts allowed us[q] = true
      · refine ⟨c₁, q, hrun₁.bind ?_, h₁, ?_⟩
        · simp only [hpass, if_true, List.getLast?_append, List.getLast?_singleton, Option.some_or]
          exact .pure c₁ _
        · rw [if_pos hpass]
          rfl
      · -- the tuple does not pass, and the inner step back over it does not count
        obtain ⟨c₂, q', hrun₂, h₂, hpassed⟩ := ih h₁ (Nat.lt_of_succ_lt_succ hfuel)
        refine ⟨c₂, q', hrun₁.bind ?_, h₂, ?_⟩
        · simp only [hpass, Bool.false_eq_true, if_false, List.append_nil]
          exact hrun₂
        · rw [hpassed, if_neg hpass]
          rfl

/-! ### All steps -/

/-- The inner gap is one of those with as many passing tuples before them. -/
def StandsAt (ds : Disks) (f : RoleFilter C) (us : List Tuple) (p : Nat) : Prop :=
  ∃ q, Shows ds f.inner us q ∧ p = passed f.allowed us q

omit [Cursor C] in

/-- The cursor inside reads what it reads by itself. -/
theorem reads_lift {α : Type} {act : Act (Over C) α} {f : RoleFilter C} {c' : C} {a : α}
    (h : Over.Reads ds act f.inner a c') : Over.Reads ds (lift act) f a { f with inner := c' } :=
  .through h

/-- A search has the roles that are allowed, and fuel for the whole list inside. -/
theorem reads_search {f : RoleFilter C} {act : List Role → Nat → Act (Over C) (Option Tuple)}
    {a : Option Tuple} {c' : C}
    (h : Over.Reads ds (act f.allowed (Cursor.extent f.inner + 1)) f.inner a c') :
    Over.Reads ds (search act) f a { f with inner := c' } :=
  (Over.Reads.current f).bind (reads_lift h)

/-- Standing with as many passing tuples in front of the gap inside is showing the tuples that pass. -/
theorem mimicry (ds : Disks) :
    Mimicry ds fun (f : RoleFilter C) ts p =>
      ∃ us, StandsAt ds f us p ∧ ts = us.filter (accepts f.allowed) where
  sorted := by
    rintro f _ p ⟨us, ⟨q, h, -⟩, rfl⟩
    exact List.Pairwise.filter _ h.sorted
  inside := by
    rintro f _ _ ⟨us, ⟨q, h, rfl⟩, rfl⟩
    exact passed_le f.allowed us q
  extent := by
    rintro f _ p ⟨us, ⟨q, h, -⟩, rfl⟩
    exact Nat.le_trans (List.length_filter_le _ us) h.extent
  peekNext := by
    rintro f _ _ ⟨us, ⟨q, h, rfl⟩, rfl⟩
    have hextent := h.extent
    obtain ⟨c', q', hrun, h', hpassed⟩ := reads_lookForward f.allowed h
      (show us.length < q + (Cursor.extent f.inner + 1) by omega)
    rw [getElem?_passed]
    exact ⟨_, reads_search hrun, us, ⟨q', h', hpassed.symm⟩, rfl⟩
  peekPrevious := by
    rintro f _ _ ⟨us, ⟨q, h, rfl⟩, rfl⟩
    have hextent := h.extent
    have hinside := h.inside
    obtain ⟨c', q', hrun, h', hpassed⟩ := reads_lookBack f.allowed h
      (show q < Cursor.extent f.inner + 1 by omega)
    rw [before_passed]
    exact ⟨_, reads_search hrun, us, ⟨q', h', hpassed.symm⟩, rfl⟩
  next := by
    rintro f _ _ ⟨us, ⟨q, h, rfl⟩, rfl⟩
    have hextent := h.extent
    obtain ⟨c', q', hrun, h', hpassed⟩ := reads_stepForward f.allowed h
      (show us.length < q + (Cursor.extent f.inner + 1) by omega)
    rw [getElem?_passed]
    exact ⟨_, reads_search hrun, us, ⟨q', h', hpassed.symm⟩, rfl⟩
  previous := by
    rintro f _ _ ⟨us, ⟨q, h, rfl⟩, rfl⟩
    have hextent := h.extent
    have hinside := h.inside
    obtain ⟨c', q', hrun, h', hpassed⟩ := reads_stepBack f.allowed h
      (show q < Cursor.extent f.inner + 1 by omega)
    rw [before_passed]
    exact ⟨_, reads_search hrun, us, ⟨q', h', hpassed.symm⟩, rfl⟩
  seek := by
    rintro f _ _ key ⟨us, ⟨q, h, rfl⟩, rfl⟩
    obtain ⟨c', hrun, h'⟩ := h.seek key
    refine ⟨{ f with inner := c' }, reads_lift hrun, us, ⟨_, h', ?_⟩, rfl⟩
    exact (passed_place h.sorted key).symm

end RoleFilter

/-- A role filter shows the tuples that pass. -/
theorem Cursor.Shows.filtered {c : C} {ts : List Tuple} {p : Nat} (h : Shows ds c ts p)
    (allowed : List Role) :
    Shows ds (⟨c, allowed⟩ : RoleFilter C) (ts.filter (RoleFilter.accepts allowed))
      (RoleFilter.passed allowed ts p) :=
  (RoleFilter.mimicry ds).shows ⟨ts, ⟨p, h, rfl⟩, rfl⟩

end EventIndex
