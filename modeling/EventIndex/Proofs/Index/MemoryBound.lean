import EventIndex.Proofs.Index.Ownership

/-! # How many lists are in memory

A list that comes into memory is tracked as soon as what brought it there is done, and no more lists
are tracked than the capacity allows. A batch that fails is not reported, though: the lists that came
in for it stay in memory untracked, and nothing but writing them out at once takes them away again.
`residents_perm` says that there are no others, and `all_tracked_iff` that all lists in memory are
tracked just when there are none of these.
-/

namespace EventIndex

namespace Archive

variable {a : Archive} {extra : List OwnerKey}

/-- The lists in memory. -/
def residents (a : Archive) : List OwnerKey := a.keys.filter a.isResident

theorem mem_keys_of_resident {key : OwnerKey} (h : a.isResident key = true) : key ∈ a.keys := by
  rw [isResident, Shelf.isResident, Option.any_eq_true] at h
  obtain ⟨set, hset, hresident⟩ := h
  unfold IndexSet.isResident at hresident
  refine List.mem_flatMap.mpr ⟨key.set, List.mem_range.mpr (Shelf.lt_size hset), ?_⟩
  rw [keysOf, show a.set? key.set = some set from hset]
  split at hresident
  · rename_i store uses hentry
    exact List.mem_map.mpr ⟨_, Std.HashMap.mem_toList_iff_getElem?_eq_some.mpr hentry, rfl⟩
  · cases hresident

theorem set_eq_of_mem_keysOf {id : SetId} {key : OwnerKey} (h : key ∈ a.keysOf id) :
    key.set = id := by
  unfold keysOf at h
  split at h
  · cases h
  · obtain ⟨e, -, rfl⟩ := List.mem_map.mp h
    rfl

/-- No list is counted twice. -/
theorem nodup_keys (a : Archive) : a.keys.Nodup := by
  refine List.nodup_flatMap.mpr ⟨fun id _ => ?_, ?_⟩
  · unfold keysOf
    split
    · exact List.nodup_nil
    · rename_i set hset
      refine List.Pairwise.map _ (fun e e' hne heq => ?_) Std.HashMap.distinct_keys_toList
      rw [OwnerKey.mk.injEq] at heq
      simp [heq.2] at hne
  · refine List.nodup_range.imp fun hne key hkey hkey' => hne ?_
    exact (set_eq_of_mem_keysOf hkey).symm.trans (set_eq_of_mem_keysOf hkey')

/-- The lists in memory are the tracked ones and the extra ones. -/
theorem Tidy.residents_perm (ht : a.Tidy extra) :
    a.residents.Perm (a.residency.tracked ++ extra) := by
  refine (List.perm_ext_iff_of_nodup ((nodup_keys a).filter _) ht.nodup).mpr fun key => ?_
  rw [List.mem_filter, List.mem_append, ← ht.resident_iff key]
  exact ⟨fun h => h.2, fun h => ⟨mem_keys_of_resident h, h⟩⟩

/-- All lists in memory are tracked just when there are no extra ones. -/
theorem Tidy.all_tracked_iff (ht : a.Tidy extra) :
    (∀ key, a.isResident key = true → a.residency.tracks key = true) ↔ extra = [] := by
  constructor
  · intro h
    refine List.eq_nil_iff_forall_not_mem.mpr fun key hkey => ?_
    have htracked := Residency.tracks_iff.mp (h key ((ht.resident_iff key).mpr (.inr hkey)))
    exact (List.nodup_append.mp ht.nodup).2.2 key htracked key hkey rfl
  · rintro rfl key hres
    exact Residency.tracks_iff.mpr (by simpa using (ht.resident_iff key).mp hres)

end Archive

namespace Setup

variable {u : Setup} {r : Recorder}

/-- All lists in memory are tracked, and there are at most as many as the capacity allows, exactly as
long as no failed batch has left lists behind that were not written out since. In any case the lists
in memory are the tracked ones and these.

A batch brings lists into memory entry by entry and has them tracked when it is through. If an entry is
refused, it does not come to that, and the lists of the entries before stay in memory untracked. -/
theorem residents_tracked_iff (h : u.start = .ok r) (calls : List (Call u.shapes.length))
    (hroom : (r.run calls).pageCount ≤ maxPages) :
    ((∀ key, (r.run calls).archive.isResident key = true →
        (r.run calls).archive.residency.tracks key = true) ↔ r.strandedIn u.ledger [] calls = []) ∧
      (r.run calls).archive.residents.Perm
        ((r.run calls).archive.residency.tracked ++ r.strandedIn u.ledger [] calls) ∧
      (r.run calls).archive.residency.tracked.length ≤ max u.capacity 1 ∧
      (r.strandedIn u.ledger [] calls = [] → (r.run calls).archive.residents.length ≤ max u.capacity 1) := by
  obtain ⟨hs, hledger, hcapacity⟩ := start_spec h
  obtain ⟨c, hstep, -⟩ := Recorder.run_spec hs calls hroom
  rw [hledger] at hstep
  have ht := hstep.sound.tidy
  have hbounded : (r.run calls).archive.residency.tracked.length ≤ max u.capacity 1 := by
    rw [← hcapacity, ← hstep.capacity_eq]
    exact ht.bounded
  refine ⟨ht.all_tracked_iff, ht.residents_perm, hbounded, fun hnone => ?_⟩
  rw [ht.residents_perm.length_eq, hnone, List.append_nil]
  exact hbounded

/-- A batch is applied, and its list is tracked. -/
theorem residents_tracked_small :
    ∃ r, small.start = .ok r ∧
      (∀ key, (r.run [.push (0 : Fin 2) 1 5 none, .push 0 1 6 none, .work 0]).archive.isResident
          key = true →
        (r.run [.push (0 : Fin 2) 1 5 none, .push 0 1 6 none, .work 0]).archive.residency.tracks
          key = true) ∧
      (r.run [.push (0 : Fin 2) 1 5 none, .push 0 1 6 none, .work 0]).archive.residents.length ≤ 1 := by
  refine ⟨_, rfl, ?_⟩
  obtain ⟨htracked, -, -, hbound⟩ := residents_tracked_iff (u := small) rfl
    ([.push 0 1 5 none, .push 0 1 6 none, .work 0] : List (Call 2)) (by cbv)
  exact ⟨htracked.mpr (by cbv), hbound (by cbv)⟩

/-- There is room for one list, but each of two failed batches leaves one in memory, and neither of
them is tracked. -/
theorem residents_not_tracked :
    ∃ r, small.start = .ok r ∧ ∃ calls : List (Call 2),
      ((r.run calls).archive.isResident ⟨0, 1⟩ = true ∧
        (r.run calls).archive.residency.tracks ⟨0, 1⟩ = false) ∧
      ((r.run calls).archive.isResident ⟨0, 2⟩ = true ∧
        (r.run calls).archive.residency.tracks ⟨0, 2⟩ = false) ∧
      (r.run calls).archive.residency.capacity = 1 :=
  ⟨_, rfl, [.push 0 1 5 none, .push 0 1 5 none, .work 0, .push 0 2 5 none, .push 0 2 5 none, .work 0],
    ⟨by cbv, by cbv⟩, ⟨by cbv, by cbv⟩, by cbv⟩

end Setup

end EventIndex
