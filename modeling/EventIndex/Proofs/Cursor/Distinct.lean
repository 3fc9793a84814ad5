import Mathlib.Data.List.Destutter
import Mathlib.Data.List.TakeWhile
import EventIndex.Cursor.Filter
import EventIndex.Proofs.Cursor.Shows

/-! # One tuple for each key

A cursor with one tuple for each key shows the first tuples of the runs of equal keys. Its inner gap
always lies between two runs, and its place is the number of runs before the gap.

* `firsts`, `runs`, `Between`: the first tuples of runs, and gaps between runs.
* `reads_stepForward`, `reads_stepBack`: a step goes over a run, either way.
* `Cursor.Shows.distinct`: what a cursor over the first tuples shows, from what the one inside does.
-/

namespace EventIndex

open Cursor

namespace Distinct

/-! ## Runs -/

variable {us xs ys run : List Tuple} {t u : Tuple} {key : UInt64} {q : Nat}

/-- The first tuples of the runs of equal keys. -/
def firsts (us : List Tuple) : List Tuple := us.destutter fun t u => t.key < u.key

/-- The first tuples of runs stand in the list in the same order. -/
theorem firsts_sublist (us : List Tuple) : (firsts us).Sublist us := us.destutter_sublist _

/-- The first tuples have each key once. -/
theorem firsts_pairwise (us : List Tuple) : (firsts us).Pairwise fun t u => t.key < u.key := by
  have : Trans (fun t u : Tuple => t.key < u.key) (fun t u : Tuple => t.key < u.key)
      (fun t u : Tuple => t.key < u.key) := ⟨UInt64.lt_trans⟩
  exact List.isChain_iff_pairwise.mp (us.isChain_destutter _)

/-- Behind a tuple with a greater key than all before, the first tuples are chosen anew. -/
theorem destutter'_append (h : ∀ x ∈ t :: xs, x.key < u.key) (ys : List Tuple) :
    (xs ++ u :: ys).destutter' (fun t u => t.key < u.key) t =
      xs.destutter' (fun t u => t.key < u.key) t ++
        ys.destutter' (fun t u => t.key < u.key) u := by
  induction xs generalizing t with
  | nil => exact List.destutter'_cons_pos ys (h t (List.mem_singleton_self t))
  | cons x xs ih =>
    obtain ⟨ht, hrest⟩ := List.forall_mem_cons.mp h
    rw [List.cons_append, List.destutter'_cons, List.destutter'_cons]
    split
    · rw [ih hrest, List.cons_append]
    · exact ih (List.forall_mem_cons.mpr ⟨ht, fun x hx => hrest x (List.mem_cons_of_mem _ hx)⟩)

/-- Lists of which one has lesser keys keep their runs when they are joined. -/
theorem firsts_append (h : ∀ x ∈ xs, ∀ y ∈ ys, x.key < y.key) :
    firsts (xs ++ ys) = firsts xs ++ firsts ys := by
  cases xs with
  | nil => rfl
  | cons x xs =>
    cases ys with
    | nil => rw [List.append_nil, show firsts [] = [] from rfl, List.append_nil]
    | cons y ys => exact destutter'_append (fun x hx => h x hx y List.mem_cons_self) ys

/-- Of one run only the first tuple is left. -/
theorem firsts_run (h : ∀ u ∈ run, u.key = t.key) : firsts (t :: run) = [t] := by
  show run.destutter' (fun t u => t.key < u.key) t = [t]
  induction run with
  | nil => rfl
  | cons u run ih =>
    obtain ⟨hu, hrest⟩ := List.forall_mem_cons.mp h
    rw [List.destutter'_cons_neg run (fun hlt => UInt64.ne_of_lt hlt hu.symm)]
    exact ih hrest

/-- A list and the first tuples of its runs begin alike. -/
theorem head?_firsts (us : List Tuple) : (firsts us).head? = us.head? := by
  cases us with
  | nil => rfl
  | cons t us =>
    show (us.destutter' (fun t u => t.key < u.key) t).head? = some t
    induction us with
    | nil => rfl
    | cons u us ih =>
      rw [List.destutter'_cons]
      split
      · rfl
      · exact ih

/-- The first tuples have all keys. -/
theorem exists_mem_firsts_iff (h : Sorted us) :
    (∃ t ∈ firsts us, t.key = key) ↔ ∃ t ∈ us, t.key = key := by
  refine ⟨fun ⟨t, ht, hkey⟩ => ⟨t, (firsts_sublist us).mem ht, hkey⟩, ?_⟩
  cases us with
  | nil => exact id
  | cons t us =>
    show _ → ∃ u ∈ us.destutter' (fun t u => t.key < u.key) t, u.key = key
    rintro ⟨u, hu, hkey⟩
    induction us generalizing t with
    | nil => exact ⟨u, hu, hkey⟩
    | cons v us ih =>
      obtain ⟨hfirst, hrest⟩ := List.pairwise_cons.mp h
      rw [List.destutter'_cons]
      split
      · rcases List.mem_cons.mp hu with rfl | hu
        · exact ⟨u, List.mem_cons_self, hkey⟩
        · obtain ⟨w, hw, hwkey⟩ := ih v hrest hu
          exact ⟨w, List.mem_cons_of_mem _ hw, hwkey⟩
      · rename_i hnot
        have heq : t.key = v.key :=
          UInt64.le_antisymm (hfirst v List.mem_cons_self) (UInt64.not_lt.mp hnot)
        have hskip : Sorted (t :: us) := h.sublist (by simp)
        rcases List.mem_cons.mp hu with rfl | hu
        · exact ih u hskip List.mem_cons_self
        · rcases List.mem_cons.mp hu with rfl | hu
          -- the tuple itself was left out, but not its key
          · exact ⟨t, List.mem_destutter' _ _ _, heq.trans hkey⟩
          · exact ih t hskip (List.mem_cons_of_mem _ hu)

/-- A place between two runs. -/
def Between (us : List Tuple) (q : Nat) : Prop :=
  ∀ x ∈ us.take q, ∀ y ∈ us.drop q, x.key < y.key

/-- Between two runs a list may be cut, and the first tuples of both parts are those of the whole. -/
theorem Between.firsts_eq (h : Between us q) :
    firsts us = firsts (us.take q) ++ firsts (us.drop q) := by
  rw [← firsts_append h, List.take_append_drop]

/-- The number of runs before a place. -/
def runs (us : List Tuple) (q : Nat) : Nat := (firsts (us.take q)).length

/-- Behind a gap between runs comes the first tuple of the next run. -/
theorem Between.getElem?_runs (h : Between us q) : (firsts us)[runs us q]? = us[q]? := by
  rw [h.firsts_eq, runs, List.getElem?_append_right (Nat.le_refl _), Nat.sub_self,
    ← List.head?_eq_getElem?, head?_firsts, List.head?_drop]

/-- Before a gap between runs comes the first tuple of the run that ends there. -/
theorem Between.before_runs (h : Between us q) :
    before (firsts us) (runs us q) = (firsts (us.take q)).getLast? := by
  rw [h.firsts_eq, runs, before, List.getLast?_eq_getElem?]
  split
  · rename_i hnone
    rw [List.eq_nil_of_length_eq_zero hnone]
    rfl
  · exact List.getElem?_append_left (by omega)

/-- No more runs are in front of a gap than there are in all. -/
theorem Between.runs_le (h : Between us q) : runs us q ≤ (firsts us).length := by
  rw [h.firsts_eq, List.length_append]
  exact Nat.le_add_right _ _

/-- The place of a key is never within a run. -/
theorem between_place (h : Sorted us) (key : UInt64) : Between us (place us key) := by
  intro x hx y hy
  exact UInt64.lt_of_lt_of_le (key_lt_of_mem_take_place h hx) (le_key_of_mem_drop_place h hy)

/-- The place of a key among the first tuples is the number of the runs in front of its place. -/
theorem runs_place (h : Sorted us) (key : UInt64) :
    runs us (place us key) = place (firsts us) key := by
  rw [(between_place h key).firsts_eq, place_of_split]
  · rfl
  · exact fun t ht => key_lt_of_mem_take_place h ((firsts_sublist _).mem ht)
  · exact fun t ht => le_key_of_mem_drop_place h ((firsts_sublist _).mem ht)

/-- A gap is between runs if all keys in front of it are smaller than all behind. -/
theorem between_append_iff :
    Between (xs ++ ys) xs.length ↔ ∀ x ∈ xs, ∀ y ∈ ys, x.key < y.key := by
  rw [Between, List.take_left, List.drop_left]

/-! ## One run split off -/

/-- Before, in and behind a run. -/
structure SplitAt (us xs : List Tuple) (first : Tuple) (run ys : List Tuple) : Prop where
  eq : us = xs ++ first :: run ++ ys
  same : ∀ u ∈ run, u.key = first.key
  less : ∀ x ∈ xs, x.key < first.key
  greater : ∀ y ∈ ys, first.key < y.key

namespace SplitAt

variable {first : Tuple}

/-- The first tuple of a run and the run behind it. -/
theorem of_getElem? (hs : Sorted us) (hbetween : Between us q) (h : us[q]? = some t) :
    SplitAt us (us.take q) t ((us.drop (q + 1)).takeWhile (·.key = t.key))
      ((us.drop (q + 1)).dropWhile (·.key = t.key)) := by
  obtain ⟨hlt, ht⟩ := List.getElem?_eq_some_iff.mp h
  have hdrop : us.drop q = t :: us.drop (q + 1) := by rw [List.drop_eq_getElem_cons hlt, ht]
  have hsorted : Sorted (t :: us.drop (q + 1)) := hdrop ▸ hs.sublist (List.drop_sublist q us)
  refine ⟨?_, fun u hu => ?_, fun x hx => ?_, fun y hy => ?_⟩
  · rw [List.append_assoc, List.cons_append, List.takeWhile_append_dropWhile, ← hdrop,
      List.take_append_drop]
  · simpa using List.mem_takeWhile_imp hu
  · exact hbetween x hx t (hdrop ▸ List.mem_cons_self)
  · -- the first tuple behind the run has another key, and no later one a lesser key
    obtain ⟨hfirst, hrest⟩ := List.pairwise_cons.mp hsorted
    cases hys : (us.drop (q + 1)).dropWhile (·.key = t.key) with
    | nil => rw [hys] at hy; cases hy
    | cons z zs =>
      have hne : z.key ≠ t.key := by
        have hhead := List.head?_dropWhile_not (fun u : Tuple => decide (u.key = t.key))
          (us.drop (q + 1))
        simpa [hys] using hhead
      have hsub := List.dropWhile_sublist (fun u : Tuple => decide (u.key = t.key))
        (l := us.drop (q + 1))
      rw [hys] at hsub hy
      have hlt : t.key < z.key :=
        UInt64.lt_of_le_of_ne (hfirst z (hsub.mem List.mem_cons_self)) (Ne.symm hne)
      exact UInt64.lt_of_lt_of_le hlt
        (Sorted.head_le (hrest.sublist hsub) rfl hy)

/-- In front of the run at a gap all keys are smaller than in the run. -/
theorem less' (h : SplitAt us xs first run ys) :
    ∀ x ∈ xs, ∀ y ∈ first :: run, x.key < y.key := by
  intro x hx y hy
  rcases List.mem_cons.mp hy with rfl | hy
  · exact h.less x hx
  · exact h.same y hy ▸ h.less x hx

/-- Behind the run at a gap all keys are greater than those up to its end. -/
theorem greater' (h : SplitAt us xs first run ys) :
    ∀ x ∈ xs ++ first :: run, ∀ y ∈ ys, x.key < y.key := by
  intro x hx y hy
  rcases List.mem_append.mp hx with hx | hx
  · exact UInt64.lt_trans (h.less x hx) (h.greater y hy)
  · rcases List.mem_cons.mp hx with rfl | hx
    · exact h.greater y hy
    · exact (h.same x hx).symm ▸ h.greater y hy

/-- The start of a run is between two runs. -/
theorem between_start (h : SplitAt us xs first run ys) : Between us xs.length := by
  rw [h.eq, List.append_assoc, between_append_iff]
  intro x hx y hy
  rcases List.mem_append.mp hy with hy | hy
  · exact h.less' x hx y hy
  · exact h.greater' x (List.mem_append_left _ hx) y hy

/-- The end of a run is between two runs. -/
theorem between_end (h : SplitAt us xs first run ys) :
    Between us (xs.length + (run.length + 1)) := by
  have hlen : xs.length + (run.length + 1) = (xs ++ first :: run).length := by simp
  rw [hlen, h.eq, between_append_iff]
  exact h.greater'

/-- The run counts once. -/
theorem firsts_take (h : SplitAt us xs first run ys) :
    firsts (us.take (xs.length + (run.length + 1))) = firsts (us.take xs.length) ++ [first] := by
  have hlen : xs.length + (run.length + 1) = (xs ++ first :: run).length := by simp
  rw [hlen, h.eq, List.take_left, List.append_assoc, List.take_left, firsts_append h.less',
    firsts_run h.same]

/-- Going over a run passes one first tuple. -/
theorem runs_end (h : SplitAt us xs first run ys) :
    runs us (xs.length + (run.length + 1)) = runs us xs.length + 1 := by
  rw [runs, h.firsts_take, List.length_append]
  rfl

end SplitAt

/-! ## Steps -/

variable {C : Type} [Cursor C] {ds : Disks} {c : C} {fuel : Nat} {first : Tuple}

/-- So many steps on move the gap by as many tuples. -/
theorem reads_advance (h : Shows ds c us q) {n : Nat} (hn : q + n ≤ us.length) :
    ∃ c', Over.Reads ds (advance n) c () c' ∧ Shows ds c' us (q + n) := by
  induction n generalizing c q with
  | zero => exact ⟨c, .pure c _, h⟩
  | succ n ih =>
    obtain ⟨c₁, hrun₁, h₁⟩ := h.next
    rw [Nat.min_eq_left (by omega)] at h₁
    obtain ⟨c₂, hrun₂, h₂⟩ := ih h₁ (by omega)
    rw [show q + (n + 1) = q + 1 + n by omega]
    exact ⟨c₂, hrun₁.bind hrun₂, h₂⟩

/-- From a gap the cursor inside goes over those tuples that have the key. -/
theorem reads_overRun (key : UInt64) (h : Shows ds c us q) (hfuel : us.length ≤ q + fuel) :
    ∃ c', Over.Reads ds (overRun key fuel) c () c' ∧
      Shows ds c' us (q + ((us.drop q).takeWhile (·.key = key)).length) := by
  induction fuel generalizing c q with
  | zero =>
    rw [Nat.add_zero] at hfuel
    rw [List.drop_of_length_le hfuel]
    exact ⟨c, .pure c _, h⟩
  | succ fuel ih =>
    obtain ⟨c₁, hrun₁, h₁⟩ := h.peekNext
    cases hget : us[q]? with
    | none =>
      rw [hget] at hrun₁
      rw [List.drop_of_length_le (List.getElem?_eq_none_iff.mp hget)]
      exact ⟨c₁, hrun₁.bind (.pure c₁ _), h₁⟩
    | some t =>
      obtain ⟨hlt, ht⟩ := List.getElem?_eq_some_iff.mp hget
      rw [hget] at hrun₁
      rw [List.drop_eq_getElem_cons hlt, ht]
      by_cases hkey : t.key = key
      · -- still in the run
        obtain ⟨c₂, hrun₂, h₂⟩ := h₁.next
        rw [Nat.min_eq_left hlt] at h₂
        obtain ⟨c₃, hrun₃, h₃⟩ := ih h₂ (by omega)
        refine ⟨c₃, hrun₁.bind ?_, ?_⟩
        · simp only [hkey, ne_eq, not_true, if_false]
          exact hrun₂.bind hrun₃
        · rw [List.takeWhile_cons_of_pos (by simpa using hkey), List.length_cons,
            show ∀ n, q + (n + 1) = q + 1 + n by omega]
          exact h₃
      · -- the run ends here, and the look has moved nothing
        refine ⟨c₁, hrun₁.bind ?_, ?_⟩
        · simp only [ne_eq, hkey, not_false_eq_true, if_true]
          exact .pure c₁ _
        · rw [List.takeWhile_cons_of_neg (by simpa using hkey)]
          exact h₁

/-- A step on goes over a whole run, from between two runs to between two runs. -/
theorem reads_stepForward (h : Shows ds c us q) (hbetween : Between us q) :
    ∃ c' q', Over.Reads ds stepForward c us[q]? c' ∧ Shows ds c' us q' ∧ Between us q' ∧
      runs us q' = min (runs us q + 1) (firsts us).length := by
  obtain ⟨c₁, hrun₁, h₁⟩ := h.next
  cases hget : us[q]? with
  | none =>
    have hend : us.length ≤ q := List.getElem?_eq_none_iff.mp hget
    rw [hget] at hrun₁
    rw [show min (q + 1) us.length = q by have := h.inside; omega] at h₁
    refine ⟨c₁, q, hrun₁.bind (.pure c₁ _), h₁, hbetween, ?_⟩
    rw [runs, List.take_of_length_le hend]
    omega
  | some t =>
    have hlt : q < us.length := (List.getElem?_eq_some_iff.mp hget).1
    -- the gap lies before a run: its first tuple is stepped over, and then the rest
    have hsplit := SplitAt.of_getElem? h.sorted hbetween hget
    have hlen : (us.take q).length = q := List.length_take_of_le h.inside
    rw [hget] at hrun₁
    rw [Nat.min_eq_left hlt] at h₁
    have hextent := h₁.extent
    obtain ⟨c₂, hrun₂, h₂⟩ := reads_overRun t.key h₁
      (show us.length ≤ q + 1 + Cursor.extent c₁ by omega)
    refine ⟨c₂, q + (((us.drop (q + 1)).takeWhile (·.key = t.key)).length + 1),
      hrun₁.bind ((Over.Reads.current c₁).bind (hrun₂.bind (.pure c₂ _))), ?_, ?_, ?_⟩
    · rw [show ∀ n, q + (n + 1) = q + 1 + n by omega]
      exact h₂
    · have hend := hsplit.between_end
      rwa [hlen] at hend
    · have hruns := hsplit.runs_end
      rw [hlen] at hruns
      have hle := (hlen ▸ hsplit.between_end).runs_le
      omega

/-- Going back over a run, some of which lies behind already. -/
theorem reads_backOverRun (h : Shows ds c (xs ++ first :: run ++ ys) xs.length)
    (hrun : ∀ u ∈ run, u.key = first.key) (hfuel : xs.length ≤ fuel) (steps : Nat) :
    ∃ c' xs' first' run', xs ++ first :: run = xs' ++ first' :: run' ∧
      Over.Reads ds (backOverRun fuel first steps) c
        (first', steps + (run'.length - run.length)) c' ∧
      run.length ≤ run'.length ∧ Shows ds c' (xs ++ first :: run ++ ys) xs'.length ∧
      (∀ u ∈ run', u.key = first'.key) ∧ ∀ x ∈ xs', x.key < first'.key := by
  -- the run found so far grows at its front, and `first` is the tuple to return
  induction fuel generalizing c xs first run steps with
  | zero =>
    rw [List.eq_nil_of_length_eq_zero (Nat.le_zero.mp hfuel)] at h ⊢
    refine ⟨c, [], first, run, rfl, ?_, Nat.le_refl _, h, hrun, by simp⟩
    rw [Nat.sub_self]
    exact .pure c _
  | succ fuel ih =>
    obtain ⟨c₁, hrun₁, h₁⟩ := h.peekPrevious
    rcases List.eq_nil_or_concat' xs with rfl | ⟨xs, t, rfl⟩
    · refine ⟨c₁, [], first, run, rfl, ?_, Nat.le_refl _, h₁, hrun, by simp⟩
      rw [Nat.sub_self]
      exact hrun₁.bind (.pure c₁ _)
    · have hbefore : before (xs ++ [t] ++ first :: run ++ ys) (xs ++ [t]).length = some t := by
        rw [List.length_append, List.length_singleton, before_succ]
        simp
      have hmove : xs ++ [t] ++ first :: run ++ ys = xs ++ t :: (first :: run) ++ ys := by simp
      rw [hbefore] at hrun₁
      by_cases hkey : t.key = first.key
      · obtain ⟨c₂, hrun₂, h₂⟩ := h₁.previous
        rw [hmove, List.length_append, List.length_singleton, Nat.add_sub_cancel] at h₂
        have hsame : ∀ u ∈ first :: run, u.key = t.key :=
          List.forall_mem_cons.mpr ⟨hkey.symm, fun u hu => (hrun u hu).trans hkey.symm⟩
        obtain ⟨c₃, xs', first', run', heq, hrun₃, hle, h₃, hrest⟩ := ih h₂ hsame
          (by rw [List.length_append, List.length_singleton] at hfuel; omega) (steps + 1)
        rw [List.length_cons] at hle hrun₃
        refine ⟨c₃, xs', first', run', by rw [← heq]; simp, hrun₁.bind ?_, by omega,
          hmove ▸ h₃, hrest⟩
        simp only [hkey, ne_eq, not_true, if_false]
        rw [show steps + (run'.length - run.length) =
          steps + 1 + (run'.length - (run.length + 1)) by omega]
        exact hrun₂.bind hrun₃
      · refine ⟨c₁, xs ++ [t], first, run, rfl, hrun₁.bind ?_, Nat.le_refl _, h₁, hrun, ?_⟩
        · simp only [ne_eq, hkey, not_false_eq_true, if_true, Nat.sub_self, Nat.add_zero]
          exact .pure c₁ _
        · -- the tuple before the gap has the greatest of the lesser keys
          have hsorted := h.sorted
          rw [List.append_assoc] at hsorted
          obtain ⟨hleft, -, hcross⟩ := List.pairwise_append.mp hsorted
          have hlt : t.key < first.key := UInt64.lt_of_le_of_ne
            (hcross t (by simp) first (by simp)) hkey
          intro x hx
          exact UInt64.lt_of_le_of_lt (Sorted.le_getLast hleft (by simp) hx) hlt

/-- Going back from a gap between two runs: there is no run, or the last one is stepped over. -/
theorem reads_stepBack (h : Shows ds c us q) (hbetween : Between us q) :
    (q = 0 ∧ ∃ c', Over.Reads ds stepBack c none c' ∧ Shows ds c' us 0) ∨
    ∃ c' xs first run ys, SplitAt us xs first run ys ∧ q = xs.length + (run.length + 1) ∧
      Over.Reads ds stepBack c (some (first, run.length + 1)) c' ∧ Shows ds c' us xs.length := by
  obtain ⟨c₁, hrun₁, h₁⟩ := h.previous
  cases q with
  | zero => exact .inl ⟨rfl, c₁, hrun₁.bind (.pure c₁ _), h₁⟩
  | succ q =>
    have hlt : q < us.length := h.inside
    have hus : us = us.take q ++ us[q] :: [] ++ us.drop (q + 1) := by simp
    have hlen : (us.take q).length = q := List.length_take_of_le (Nat.le_of_lt hlt)
    rw [before_succ, List.getElem?_eq_getElem hlt] at hrun₁
    -- the run begins with the one tuple that the first step back goes over
    have h₁' : Shows ds c₁ (us.take q ++ us[q] :: [] ++ us.drop (q + 1)) (us.take q).length := by
      rw [← hus, hlen]
      exact h₁
    have hextent := h₁.extent
    obtain ⟨c₂, xs, first, run, heq, hrun₂, -, h₂, hsame, hless⟩ := reads_backOverRun
      h₁' (by simp) (show (us.take q).length ≤ Cursor.extent c₁ by omega) 1
    have hlens : q + 1 = xs.length + (run.length + 1) := by
      have hboth := congrArg List.length heq
      rwa [List.length_append, List.length_append, hlen] at hboth
    rw [← hus] at h₂
    have hsplit : us = xs ++ first :: run ++ us.drop (q + 1) := by rw [← heq, ← hus]
    have htake : us.take (q + 1) = xs ++ first :: run := by
      rw [← heq, ← List.take_succ_eq_append_getElem hlt]
    refine .inr ⟨c₂, xs, first, run, us.drop (q + 1), ⟨hsplit, hsame, hless, fun y hy => ?_⟩,
      hlens, hrun₁.bind ((Over.Reads.current c₁).bind (hrun₂.bind ?_)), h₂⟩
    · exact hbetween first (htake ▸ by simp) y hy
    · rw [List.length_nil, Nat.sub_zero, Nat.add_comm 1]
      exact .pure c₂ _

/-! ## All steps -/

/-- The inner gap lies between two runs. -/
def StandsAt (ds : Disks) (c : Distinct C) (us : List Tuple) (p : Nat) : Prop :=
  ∃ q, Shows ds c.inner us q ∧ Between us q ∧ p = runs us q

omit [Cursor C] in
/-- The cursor inside reads what it reads by itself. -/
theorem reads_lift {α : Type} {act : Act (Over C) α} {c : Distinct C} {c' : C} {a : α}
    (h : Over.Reads ds act c.inner a c') : Over.Reads ds (lift act) c a ⟨c'⟩ :=
  .through h

/-- Standing between two runs of the list inside is showing the first tuples of its runs. -/
theorem mimicry (ds : Disks) :
    Mimicry ds fun (c : Distinct C) ts p => ∃ us, StandsAt ds c us p ∧ ts = firsts us where
  sorted := by
    rintro c _ p ⟨us, ⟨q, h, -⟩, rfl⟩
    exact h.sorted.sublist (firsts_sublist us)
  inside := by
    rintro c _ _ ⟨us, ⟨q, h, hbetween, rfl⟩, rfl⟩
    exact hbetween.runs_le
  extent := by
    rintro c _ p ⟨us, ⟨q, h, -⟩, rfl⟩
    exact Nat.le_trans (firsts_sublist us).length_le h.extent
  peekNext := by
    rintro c _ _ ⟨us, ⟨q, h, hbetween, rfl⟩, rfl⟩
    obtain ⟨c', hrun, h'⟩ := h.peekNext
    rw [hbetween.getElem?_runs]
    exact ⟨⟨c'⟩, reads_lift hrun, us, ⟨q, h', hbetween, rfl⟩, rfl⟩
  peekPrevious := by
    rintro c _ _ ⟨us, ⟨q, h, hbetween, rfl⟩, rfl⟩
    rw [hbetween.before_runs]
    rcases reads_stepBack h hbetween with ⟨rfl, c', hrun, h'⟩ |
      ⟨c₁, xs, first, run, ys, hsplit, rfl, hrun, h₁⟩
    · exact ⟨⟨c'⟩, reads_lift (hrun.bind (.pure c' _)), us, ⟨0, h', hbetween, rfl⟩, rfl⟩
    · -- back over the run and on again
      obtain ⟨c₂, hrun₂, h₂⟩ := reads_advance h₁ h.inside
      refine ⟨⟨c₂⟩, reads_lift (hrun.bind (hrun₂.bind ?_)), us, ⟨_, h₂, hbetween, rfl⟩, rfl⟩
      rw [hsplit.firsts_take, List.getLast?_concat]
      exact .pure c₂ _
  next := by
    rintro c _ _ ⟨us, ⟨q, h, hbetween, rfl⟩, rfl⟩
    obtain ⟨c', q', hrun, h', hbetween', hruns⟩ := reads_stepForward h hbetween
    rw [hbetween.getElem?_runs]
    exact ⟨⟨c'⟩, reads_lift hrun, us, ⟨q', h', hbetween', hruns.symm⟩, rfl⟩
  previous := by
    rintro c _ _ ⟨us, ⟨q, h, hbetween, rfl⟩, rfl⟩
    rw [hbetween.before_runs]
    rcases reads_stepBack h hbetween with ⟨rfl, c', hrun, h'⟩ |
      ⟨c', xs, first, run, ys, hsplit, rfl, hrun, h'⟩
    · exact ⟨⟨c'⟩, reads_lift (hrun.bind (.pure c' _)), us, ⟨0, h', hbetween, rfl⟩, rfl⟩
    · refine ⟨⟨c'⟩, reads_lift (hrun.bind ?_), us,
        ⟨xs.length, h', hsplit.between_start, ?_⟩, rfl⟩
      · rw [hsplit.firsts_take, List.getLast?_concat]
        exact .pure c' _
      · rw [hsplit.runs_end]
        rfl
  seek := by
    rintro c _ _ key ⟨us, ⟨q, h, -, rfl⟩, rfl⟩
    obtain ⟨c', hrun, h'⟩ := h.seek key
    exact ⟨⟨c'⟩, reads_lift hrun, us,
      ⟨_, h', between_place h.sorted key, (runs_place h.sorted key).symm⟩, rfl⟩

end Distinct

/-- A cursor with one tuple for each key shows the first tuples of the runs. -/
theorem Cursor.Shows.distinct {C : Type} [Cursor C] {ds : Disks} {c : C} {ts : List Tuple} {p : Nat}
    (h : Shows ds c ts p) (hbetween : Distinct.Between ts p) :
    Shows ds (⟨c⟩ : Distinct C) (Distinct.firsts ts) (Distinct.runs ts p) :=
  (Distinct.mimicry ds).shows ⟨ts, ⟨p, h, hbetween, rfl⟩, rfl⟩

end EventIndex
