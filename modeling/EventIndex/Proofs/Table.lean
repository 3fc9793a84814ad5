import Std.Data.HashMap

/-! # Tables — one entry and the others

What happens to one entry of a table leaves the others alone. `others m k` are the entries under
other keys than `k`; the entries of `m`, and those of `m` with a new value for `k`, are these and at
most one more, in some order.
-/

namespace EventIndex.Table

variable {α β : Type} [BEq α] [Hashable α] [LawfulBEq α] [LawfulHashable α]
  {m : Std.HashMap α β} {k : α} {v : β}

/-- The entries of a table under other keys. -/
def others (m : Std.HashMap α β) (k : α) : List (α × β) := m.toList.filter (¬k == ·.1)

omit [LawfulHashable α] in
theorem ne_of_mem_others {e : α × β} (h : e ∈ others m k) : e.1 ≠ k := by
  have hne := (List.mem_filter.mp h).2
  simp only [beq_iff_eq, decide_not, Bool.not_eq_eq_eq_not, Bool.not_true,
    decide_eq_false_iff_not] at hne
  exact fun heq => hne heq.symm

omit [LawfulHashable α] in
theorem mem_others_of_getElem? {k' : α} {v' : β} (h : m[k']? = some v') (hne : k' ≠ k) :
    (k', v') ∈ others m k := by
  refine List.mem_filter.mpr ⟨Std.HashMap.mem_toList_iff_getElem?_eq_some.mpr h, ?_⟩
  simpa using Ne.symm hne

theorem toList_insert : (m.insert k v).toList.Perm ((k, v) :: others m k) :=
  Std.HashMap.toList_insert_perm

theorem toList_of_some (h : m[k]? = some v) : m.toList.Perm ((k, v) :: others m k) := by
  have heq : (m.insert k v).Equiv m := by
    refine Std.HashMap.Equiv.of_forall_getElem?_eq fun j => ?_
    rw [Std.HashMap.getElem?_insert]
    split
    · rename_i hj
      rw [← eq_of_beq hj, h]
    · rfl
  exact heq.toList_perm.symm.trans toList_insert

omit [LawfulHashable α] in
theorem toList_of_none (h : m[k]? = none) : m.toList = others m k := by
  refine (List.filter_eq_self.mpr fun e he => ?_).symm
  have hget := Std.HashMap.mem_toList_iff_getElem?_eq_some.mp he
  simp only [beq_iff_eq, decide_not, Bool.not_eq_eq_eq_not, Bool.not_true, decide_eq_false_iff_not]
  rintro rfl
  rw [h] at hget
  cases hget

end EventIndex.Table
