import EventIndex.Recency

/-! # Looking up in a recency list

How the operations of `Recency` change what `find?` answers and which keys there are.

The entries stand in the order of their last uses, the newest one in front. So a list that is cut off
(`keep`) loses the keys that were not used for the longest time, and `beyond` names them.
-/

namespace EventIndex.Recency

variable {κ ν : Type} [DecidableEq κ] {r : Recency κ ν} {k k' : κ} {v : ν}

theorem find?_cons (entries : List (κ × ν)) (k : κ) (v : ν) (k' : κ) :
    find? ⟨(k, v) :: entries⟩ k' = if k = k' then some v else find? ⟨entries⟩ k' := by
  by_cases h : k = k' <;> simp [find?, h]

/-- A key that was dropped is found no more, and every other one as before. -/
theorem find?_erase (r : Recency κ ν) (k k' : κ) :
    (r.erase k).find? k' = if k' = k then none else r.find? k' := by
  rcases r with ⟨entries⟩
  induction entries with
  | nil => simp [find?, erase]
  | cons entry entries ih =>
    rcases entry with ⟨key, value⟩
    have herase : erase ⟨(key, value) :: entries⟩ k =
        if key = k then erase ⟨entries⟩ k
        else ⟨(key, value) :: (erase ⟨entries⟩ k : Recency κ ν).entries⟩ := by
      by_cases h : key = k <;> simp [erase, h]
    rw [herase, find?_cons]
    by_cases hkey : key = k
    · rw [if_pos hkey, ih]
      by_cases hk' : k' = k
      · rw [if_pos hk', if_pos hk']
      · have hne : key ≠ k' := fun h => hk' (h ▸ hkey)
        rw [if_neg hk', if_neg hk', if_neg hne]
    · rw [if_neg hkey, find?_cons, ih]
      by_cases hk' : k' = k
      · have hne : key ≠ k' := fun h => hkey (h.trans hk')
        rw [if_pos hk', if_pos hk', if_neg hne]
      · rw [if_neg hk', if_neg hk']

/-- A key that was put in is found with its value, and every other one as before. -/
theorem find?_put (r : Recency κ ν) (k : κ) (v : ν) (k' : κ) :
    (r.put k v).find? k' = if k = k' then some v else r.find? k' := by
  rw [put, find?_cons]
  by_cases h : k = k'
  · rw [if_pos h, if_pos h]
  · rw [if_neg h, if_neg h, find?_erase, if_neg (Ne.symm h)]

/-- Making a key the most recently used changes nothing of what is found. -/
theorem find?_promote (r : Recency κ ν) (k k' : κ) : (r.promote k).find? k' = r.find? k' := by
  cases h : r.find? k with
  | none => simp only [promote, h]
  | some v =>
    simp only [promote, h, find?_put]
    by_cases hk : k = k'
    · rw [if_pos hk, ← hk, h]
    · rw [if_neg hk]

/-- Cutting the list off brings nothing into it. -/
theorem find?_of_keep {n : Nat} (h : (r.keep n).find? k = some v) : r.find? k = some v := by
  rcases r with ⟨entries⟩
  induction entries generalizing n with
  | nil => simp [find?, keep] at h
  | cons entry entries ih =>
    rcases entry with ⟨key, value⟩
    cases n with
    | zero => simp [find?, keep] at h
    | succ n =>
      have hkeep : keep ⟨(key, value) :: entries⟩ (n + 1) =
          ⟨(key, value) :: (keep ⟨entries⟩ n : Recency κ ν).entries⟩ := rfl
      rw [hkeep, find?_cons] at h
      rw [find?_cons]
      by_cases hk : key = k
      · rw [if_pos hk] at h ⊢
        exact h
      · rw [if_neg hk] at h ⊢
        exact ih h

/-! ## Keys -/

theorem contains_iff : r.contains k = true ↔ k ∈ r.keys := by
  simp [contains, keys]

/-- The keys are those that are found. -/
theorem mem_keys_iff_find? : k ∈ r.keys ↔ (r.find? k).isSome = true := by
  simp [keys, find?]

theorem keys_erase (r : Recency κ ν) (k : κ) : (r.erase k).keys = r.keys.filter (· ≠ k) := by
  simp [keys, erase, List.filter_map, Function.comp_def]

/-- A key that was put in stands in front, and no second time. -/
theorem keys_put (r : Recency κ ν) (k : κ) (v : ν) :
    (r.put k v).keys = k :: r.keys.filter (· ≠ k) := by
  rw [← keys_erase]
  rfl

omit [DecidableEq κ] in

/-- What is kept are the most recently used ones. -/
theorem keys_keep (r : Recency κ ν) (n : Nat) : (r.keep n).keys = r.keys.take n := by
  simp [keys, keep]

omit [DecidableEq κ] in

/-- What is beyond the limit comes with the oldest key first. -/
theorem beyond_eq (r : Recency κ ν) (n : Nat) : r.beyond n = (r.keys.drop n).reverse := by
  simp [keys, beyond]

/-- Promoting a key changes the order of the keys alone. -/
theorem keys_promote_perm (h : r.keys.Nodup) (k : κ) : (r.promote k).keys.Perm r.keys := by
  cases hfind : r.find? k with
  | none =>
    simp only [promote, hfind]
    exact .refl _
  | some v =>
    have hmem : k ∈ r.keys := mem_keys_iff_find?.mpr (by rw [hfind]; rfl)
    have herase : r.keys.filter (· ≠ k) = r.keys.erase k := by
      rw [h.erase_eq_filter]
      exact List.filter_congr fun x _ => by by_cases hx : x = k <;> simp [hx]
    simp only [promote, hfind, keys_put, herase]
    exact (List.perm_cons_erase hmem).symm

/-! ## Sizes -/

omit [DecidableEq κ] in
/-- Cutting a list off leaves it as it is or makes it shorter. -/
theorem keep_eq_or_size_lt (r : Recency κ ν) (n : Nat) : r.keep n = r ∨ (r.keep n).size < r.size := by
  rcases r with ⟨entries⟩
  by_cases h : entries.length ≤ n
  · exact .inl (congrArg Recency.mk (List.take_of_length_le h))
  · right
    show (entries.take n).length < entries.length
    rw [List.length_take]
    omega

/-- A key that has an entry is dropped with it. -/
theorem size_erase_lt (h : r.find? k = some v) : (r.erase k).size < r.size := by
  have hmem : k ∈ r.keys := mem_keys_iff_find?.mpr (by rw [h]; rfl)
  obtain ⟨entry, hentry, hkey⟩ := List.mem_map.mp hmem
  exact List.length_filter_lt_length_iff_exists.mpr ⟨entry, hentry, by simp [hkey]⟩

/-- Dropping a key that is not there changes nothing. -/
theorem erase_of_find?_eq_none (h : r.find? k = none) : r.erase k = r := by
  rcases r with ⟨entries⟩
  have hne : ∀ entry ∈ entries, entry.1 ≠ k := by simpa [find?] using h
  exact congrArg Recency.mk (List.filter_eq_self.mpr fun entry hentry => by
    simpa using hne entry hentry)

/-- Dropping a key that was put in leaves what dropping it before would have left. -/
theorem erase_put (r : Recency κ ν) (k : κ) (v : ν) : (r.put k v).erase k = r.erase k := by
  simp [put, erase]

/-- Making a key the most recently used is undone by dropping it. -/
theorem erase_promote (r : Recency κ ν) (k : κ) : (r.promote k).erase k = r.erase k := by
  cases h : r.find? k with
  | none => simp only [promote, h]
  | some v => simp only [promote, h, erase_put]

/-- What a key that comes and goes again leaves behind is what there was room for besides it. -/
theorem erase_keep_put (h : r.find? k = none) (v : ν) (n : Nat) :
    ((r.put k v).keep n).erase k = r.keep (n - 1) := by
  cases n with
  | zero => simp [keep, erase]
  | succ n =>
    have hcut : (r.put k v).keep (n + 1) = ⟨(k, v) :: (r.keep n).entries⟩ := by
      rw [put, erase_of_find?_eq_none h]
      rfl
    have hnone : (r.keep n).find? k = none := by
      cases hfind : (r.keep n).find? k with
      | none => rfl
      | some v =>
        rw [find?_of_keep hfind] at h
        cases h
    have hdrop : (⟨(k, v) :: (r.keep n).entries⟩ : Recency κ ν).erase k = (r.keep n).erase k := by
      simp [erase]
    rw [hcut, hdrop, erase_of_find?_eq_none hnone, Nat.add_sub_cancel]

end EventIndex.Recency
