import EventIndex.Index.Residency
import EventIndex.Proofs.Recency

/-! # What is tracked

Reporting uses changes the order in which lists are tracked, never which lists these are
(`SameTracking`). Tracking one more list drops others from the end when there are too many.
-/

namespace EventIndex.Residency

variable {r r' r'' : Residency} {key : OwnerKey}

/-- The tracked lists. -/
def tracked (r : Residency) : List OwnerKey := r.recent.keys

/-- The same lists are tracked, maybe in another order, and nothing else of importance has changed. -/
structure SameTracking (r r' : Residency) : Prop where
  tracked_perm : r'.tracked.Perm r.tracked
  capacity_eq : r'.capacity = r.capacity
  owners_eq : r'.owners = r.owners
  isDisposed_eq : r'.isDisposed = r.isDisposed

theorem tracks_iff : r.tracks key = true ↔ key ∈ r.tracked := Recency.contains_iff

/-- A list that was dropped is not tracked. -/
theorem tracks_forget (r : Residency) (key : OwnerKey) : (r.forget key).tracks key = false := by
  rw [← Bool.not_eq_true, tracks_iff, tracked, forget, Recency.keys_erase, List.mem_filter]
  simp

theorem SameTracking.refl (r : Residency) : r.SameTracking r := ⟨.refl _, rfl, rfl, rfl⟩

theorem SameTracking.trans (h : r.SameTracking r') (h' : r'.SameTracking r'') :
    r.SameTracking r'' :=
  ⟨h'.tracked_perm.trans h.tracked_perm, h'.capacity_eq.trans h.capacity_eq,
    h'.owners_eq.trans h.owners_eq, h'.isDisposed_eq.trans h.isDisposed_eq⟩

theorem SameTracking.nodup (h : r.SameTracking r') (hr : r.tracked.Nodup) : r'.tracked.Nodup :=
  h.tracked_perm.nodup_iff.mpr hr

/-- A fold of steps that keep the tracked lists keeps them. -/
theorem SameTracking.foldl {α : Type} {f : Residency → α → Residency}
    (hf : ∀ (r : Residency) (a : α), r.tracked.Nodup → r.SameTracking (f r a)) (as : List α) (hr : r.tracked.Nodup) :
    r.SameTracking (as.foldl f r) := by
  induction as generalizing r with
  | nil => exact .refl r
  | cons a as ih =>
    have hstep := hf r a hr
    exact hstep.trans (ih (hstep.nodup hr))

theorem sameTracking_applyUse (key : OwnerKey) (hr : r.tracked.Nodup) :
    r.SameTracking (r.applyUse key) := by
  unfold applyUse
  split
  · exact ⟨Recency.keys_promote_perm hr key, rfl, rfl, rfl⟩
  · exact .refl r

theorem sameTracking_commit (hr : r.tracked.Nodup) : r.SameTracking r.commit := by
  have hclear : r.SameTracking { r with pending := #[] } := ⟨.refl _, rfl, rfl, rfl⟩
  exact hclear.trans (.foldl (fun r key hr => sameTracking_applyUse key hr) _ hr)

theorem sameTracking_note (r : Residency) (key : OwnerKey) : r.SameTracking (r.note key) := by
  unfold note
  split
  · exact .refl r
  · exact ⟨.refl _, rfl, rfl, rfl⟩

theorem sameTracking_touch (key : OwnerKey) (hr : r.tracked.Nodup) :
    r.SameTracking (r.touch key) := by
  have hnote := sameTracking_note r key
  unfold touch
  dsimp only
  split
  · exact hnote.trans (sameTracking_commit (hnote.nodup hr))
  · exact hnote

/-! ## Making room -/

/-- The lists dropped for another one, and the lists kept. -/
theorem place_spec (r : Residency) (key : OwnerKey) :
    (r.place key).1.reverse = (key :: r.tracked.filter (· ≠ key)).drop r.capacity ∧
      (r.place key).2.tracked = (key :: r.tracked.filter (· ≠ key)).take r.capacity := by
  have hkeys : (r.recent.put key ()).keys = key :: r.tracked.filter (· ≠ key) :=
    Recency.keys_put _ _ _
  constructor
  · simp only [place, Recency.beyond_eq, List.reverse_reverse, hkeys]
  · simp only [place, tracked, Recency.keys_keep, hkeys]

end EventIndex.Residency
