import EventIndex.Error
import EventIndex.Tuple

/-! # Ordered lists of tuples

A list of tuples is `Ordered` when its tuples have the shape of its kind and no key goes backwards.
`Kind.extend` is all that appending does to such a list: it adds the tuple at the end, or refuses it.
-/

namespace EventIndex

namespace Kind

variable {k : Kind} {ts : List Tuple} {t : Tuple}

/-- Whether a key may come after another one. -/
def MayFollow (k : Kind) (last next : UInt64) : Prop :=
  last < next ∨ last = next ∧ k.allowsEqualKeys = true

instance (k : Kind) (last next : UInt64) : Decidable (k.MayFollow last next) :=
  inferInstanceAs (Decidable (_ ∨ _))

/-- What a list makes of a key and a role has its shape. -/
theorem holds_tuple (k : Kind) (key : UInt64) (role : Option Role) :
    k.Holds (k.tuple key role) := by
  cases hk : k.carriesRole <;> simp [Holds, tuple, hk]

/-- The tuples have the shape of the kind, and each key may come after all before it. -/
structure Ordered (k : Kind) (ts : List Tuple) : Prop where
  holds : ∀ t ∈ ts, k.Holds t
  follows : ts.Pairwise fun t u => k.MayFollow t.key u.key

/-- A list with one more tuple, which is refused when its key may not come after the last one. -/
def extend (k : Kind) (ts : List Tuple) (t : Tuple) : Except StorageError (List Tuple) :=
  match ts.getLast? with
  | none => .ok [t]
  | some last =>
    if k.MayFollow last.key t.key then .ok (ts ++ [t]) else .error (.outOfOrder t.key last.key)

theorem MayFollow.le {a b : UInt64} (h : k.MayFollow a b) : a ≤ b := by
  rcases h with h | ⟨h, -⟩
  · exact UInt64.le_of_lt h
  · rw [h]
    exact UInt64.le_refl b

theorem MayFollow.trans {a b c : UInt64} (h : k.MayFollow a b) (h' : k.MayFollow b c) :
    k.MayFollow a c := by
  rcases h with h | ⟨h, hk⟩
  · exact .inl (UInt64.lt_of_lt_of_le h h'.le)
  · rw [h]
    exact h'

theorem ordered_nil : k.Ordered [] := ⟨by simp, List.Pairwise.nil⟩

theorem extend_of_getLast? {last : Tuple} (h : ts.getLast? = some last)
    (hkey : k.MayFollow last.key t.key) : k.extend ts t = .ok (ts ++ [t]) := by
  simp only [extend, h, if_pos hkey]

theorem extend_of_none (h : ts.getLast? = none) : k.extend ts t = .ok (ts ++ [t]) := by
  have hnil : ts = [] := List.getLast?_eq_none_iff.mp h
  rw [hnil]
  rfl

theorem eq_append_of_extend {ts' : List Tuple} (h : k.extend ts t = .ok ts') : ts' = ts ++ [t] := by
  unfold extend at h
  split at h
  · rename_i hlast
    rw [List.getLast?_eq_none_iff.mp hlast]
    exact (Except.ok.inj h).symm
  · split at h
    · exact (Except.ok.inj h).symm
    · cases h

/-- A tuple is refused for its key only. -/
theorem error_of_extend {e : StorageError} (h : k.extend ts t = .error e) :
    ∃ last, e = .outOfOrder t.key last := by
  unfold extend at h
  split at h
  · cases h
  · rename_i last hlast
    split at h
    · cases h
    · exact ⟨last.key, (Except.error.inj h).symm⟩

/-- A tuple that may follow the last one may follow all. -/
theorem Ordered.append (h : k.Ordered ts) (ht : k.Holds t)
    (hlast : ∀ last, ts.getLast? = some last → k.MayFollow last.key t.key) :
    k.Ordered (ts ++ [t]) where
  holds u hu := by
    rcases List.mem_append.mp hu with hu | hu
    · exact h.holds u hu
    · exact List.mem_singleton.mp hu ▸ ht
  follows := by
    refine List.pairwise_append.mpr ⟨h.follows, List.pairwise_singleton _ t, ?_⟩
    intro u hu v hv
    rw [List.mem_singleton.mp hv]
    -- either `u` is the last tuple, or it comes before it
    have hne : ts ≠ [] := List.ne_nil_of_mem hu
    have hkey := hlast _ (List.getLast?_eq_some_getLast hne)
    have hsplit := List.dropLast_concat_getLast hne
    rw [← hsplit] at hu
    rcases List.mem_append.mp hu with hu | hu
    · have hpair := h.follows
      rw [← hsplit] at hpair
      exact ((List.pairwise_append.mp hpair).2.2 u hu _ (by simp)).trans hkey
    · rw [List.mem_singleton.mp hu]
      exact hkey

/-- What an ordered list is extended to is ordered. -/
theorem Ordered.extend {ts' : List Tuple} (h : k.Ordered ts) (ht : k.Holds t)
    (hext : k.extend ts t = .ok ts') : k.Ordered ts' ∧ ts' = ts ++ [t] := by
  obtain rfl := eq_append_of_extend hext
  refine ⟨h.append ht fun last hlast => ?_, rfl⟩
  simp only [Kind.extend, hlast] at hext
  split at hext
  · assumption
  · cases hext

end Kind

end EventIndex
