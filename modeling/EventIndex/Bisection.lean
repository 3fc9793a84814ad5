/-! # Bisection — where a condition stops to hold

Along an ordered list, a condition such as "the key is below 7" holds for some
places at the beginning and for none after them. `bisect n p` counts these
places among the first `n` by halving the range in which the change can be.

`lt_bisect_iff` says that the count is right whenever `p` never comes back once
it has failed.
-/

namespace EventIndex

/-- Halves the `size` places from `base` on, keeping the half in which `p` stops to hold, until one
place is left. Each round takes a place off at least, so `fuel` need not exceed `size`. -/
def narrow (p : Nat → Bool) : (fuel base size : Nat) → Nat
  | 0, base, _ => base
  | fuel + 1, base, size =>
    if size ≤ 1 then base
    else narrow p fuel (if p (base + size / 2) then base + size / 2 else base) (size - size / 2)

/-- How many of the places below `n` come before the first at which `p` fails. -/
def bisect (n : Nat) (p : Nat → Bool) : Nat :=
  if n = 0 then 0
  else
    let i := narrow p n 0 n
    if p i then i + 1 else i

variable {p : Nat → Bool} {n : Nat}

/-- The place left lies in the range, `p` holds before it and fails after it. -/
theorem narrow_spec (hp : ∀ i j, i ≤ j → j < n → p j → p i) :
    ∀ (fuel base size : Nat), 0 < size → size ≤ fuel → base + size ≤ n →
      (∀ i, i < base → p i) → (∀ i, base + size ≤ i → i < n → ¬ p i) →
      let b := narrow p fuel base size
      b < n ∧ (∀ i, i < b → p i) ∧ ∀ i, b < i → i < n → ¬ p i := by
  intro fuel
  induction fuel with
  | zero => intro base size hpos hle; omega
  | succ fuel ih =>
    intro base size hpos hle hn hbefore hafter
    simp only [narrow]
    by_cases hone : size ≤ 1
    · rw [if_pos hone]
      exact ⟨by omega, hbefore, fun i hi hin => hafter i (by omega) hin⟩
    · rw [if_neg hone]
      by_cases hmid : p (base + size / 2)
      -- the change lies in the upper half
      · rw [if_pos hmid]
        refine ih _ _ (by omega) (by omega) (by omega) ?_ fun i hi hin => hafter i (by omega) hin
        exact fun i hi => hp i _ (by omega) (by omega) hmid
      -- the change lies in the lower half
      · rw [if_neg hmid]
        refine ih _ _ (by omega) (by omega) (by omega) hbefore fun i hi hin hpi => hmid ?_
        exact hp _ i (by omega) hin hpi

theorem bisect_le (hp : ∀ i j, i ≤ j → j < n → p j → p i) : bisect n p ≤ n := by
  unfold bisect
  by_cases hn : n = 0
  · simp [hn]
  · have h := (narrow_spec hp n 0 n (by omega) (Nat.le_refl n) (by omega)
      (fun i hi => absurd hi (Nat.not_lt_zero i)) (fun i hi hin => by omega)).1
    simp only [if_neg hn]
    split <;> omega

/-- A place counts exactly if `p` holds at it, provided `p` never comes back once it has failed. -/
theorem lt_bisect_iff (hp : ∀ i j, i ≤ j → j < n → p j → p i) {i : Nat} (hi : i < n) :
    i < bisect n p ↔ p i := by
  obtain ⟨_, hbefore, hafter⟩ := narrow_spec hp n 0 n (by omega) (Nat.le_refl n) (by omega)
    (fun i hi => absurd hi (Nat.not_lt_zero i)) (fun i hi hin => by omega)
  have hn : n ≠ 0 := by omega
  simp only [bisect, if_neg hn]
  rcases Nat.lt_trichotomy i (narrow p n 0 n) with h | h | h
  -- before the place left
  · exact iff_of_true (by split <;> omega) (hbefore i h)
  -- the place left, which counts if `p` holds at it
  · subst h
    split <;> simp_all
  -- behind it
  · exact iff_of_false (by split <;> omega) (hafter i h hi)

end EventIndex
