import Mathlib.Data.List.Dedup
import Mathlib.Data.List.Perm.Subperm
import Mathlib.Data.List.Sort
import EventIndex.Proofs.Cursor.Shows

/-! # Searching by key

`firstFrom` and `lastBelow` are the tuples next to the place of a key. A merged cursor returns at
most one tuple for each key, the one that it *picks*; `Merges` says that a list holds just the
tuples that are picked, in order, and then a search in this list is a search for a key with a pick.

Such a cursor keeps a boundary in place of a gap. `Bounded` says how its operations look in terms of
the boundary, and `Bounded.mimicry` that this is showing the list at the boundary's place.

Main results:

* `firstFrom_least`, `lastBelow_greatest`: what is found is next to the place of the key.
* `Merges.firstFrom_eq_some`, `Merges.lastBelow_eq_some`, `Merges.firstFrom_eq_none`,
  `Merges.lastBelow_eq_none`: a search in a merged list, told by the picks.
* `Merges.of_keys`: the list of the picks of some keys is a merged one, so that there always is one.
* `Bounded.mimicry`: a cursor with a boundary shows its list.
-/

namespace EventIndex

namespace Cursor

variable {ts us : List Tuple} {t u : Tuple} {key goal goal' : UInt64}

/-! ## Next to the place of a key -/

/-- The first tuple from a key on. -/
def firstFrom (ts : List Tuple) (key : UInt64) : Option Tuple := ts[place ts key]?

/-- The last tuple below a key. -/
def lastBelow (ts : List Tuple) (key : UInt64) : Option Tuple := before ts (place ts key)

/-- The first tuple with a key. -/
def firstAt (key : UInt64) (ts : List Tuple) : Option Tuple := ts.find? fun t => t.key = key

theorem key_of_firstAt (h : firstAt key ts = some t) : t.key = key := by
  simpa using List.find?_some h

theorem mem_of_firstAt (h : firstAt key ts = some t) : t ∈ ts := List.mem_of_find?_eq_some h

/-- A key that no tuple has is without a first tuple. -/
theorem firstAt_eq_none_iff : firstAt key ts = none ↔ ∀ t ∈ ts, t.key ≠ key := by
  simp [firstAt]

/-- In a sorted list the next tuple from a key on is the first one that is not below it. -/
theorem firstFrom_eq_find? (h : Sorted ts) (key : UInt64) :
    firstFrom ts key = ts.find? fun t => key ≤ t.key := by
  induction ts with
  | nil => rfl
  | cons u us ih =>
    obtain ⟨hfirst, hrest⟩ := List.pairwise_cons.mp h
    by_cases hkey : u.key < key
    · rw [firstFrom, place_cons_of_lt hkey, List.getElem?_cons_succ,
        List.find?_cons_of_neg (by simpa using hkey)]
      exact ih hrest
    · -- no tuple is below the key
      have hle := UInt64.not_lt.mp hkey
      have hall : ∀ v ∈ u :: us, key ≤ v.key :=
        List.forall_mem_cons.mpr ⟨hle, fun v hv => UInt64.le_trans hle (hfirst v hv)⟩
      rw [firstFrom, place_eq_zero hall, List.find?_cons_of_pos (by simpa using hle)]
      rfl

/-- The tuple found, and the lesser tuples before it. -/
theorem exists_of_firstFrom (h : Sorted ts) (hfind : firstFrom ts key = some t) :
    key ≤ t.key ∧ ∃ as bs, ts = as ++ t :: bs ∧ ∀ u ∈ as, u.key < key := by
  rw [firstFrom_eq_find? h, List.find?_eq_some_iff_append] at hfind
  simpa using hfind

theorem mem_of_firstFrom (hfind : firstFrom ts key = some t) : t ∈ ts :=
  List.mem_of_getElem? hfind

/-- What is next from a key on is not below it. -/
theorem le_of_firstFrom (h : Sorted ts) (hfind : firstFrom ts key = some t) : key ≤ t.key :=
  (exists_of_firstFrom h hfind).1

/-- Nothing lies between the key and the tuple found. -/
theorem firstFrom_least (h : Sorted ts) (hfind : firstFrom ts key = some t) (hu : u ∈ ts)
    (hkey : key ≤ u.key) : t.key ≤ u.key := by
  obtain ⟨-, as, bs, rfl, hless⟩ := exists_of_firstFrom h hfind
  rcases List.mem_append.mp hu with hu | hu
  · exact absurd (hless u hu) (UInt64.not_lt.mpr hkey)
  · exact Sorted.head_le (List.pairwise_append.mp h).2.1 rfl hu

/-- Where nothing comes next, all keys are below. -/
theorem lt_of_firstFrom_eq_none (h : Sorted ts) (hfind : firstFrom ts key = none) (hu : u ∈ ts) :
    u.key < key := by
  rw [firstFrom_eq_find? h, List.find?_eq_none] at hfind
  simpa using hfind u hu

/-- The first tuple from a key on is the first with its own key. -/
theorem firstAt_of_firstFrom (h : Sorted ts) (hfind : firstFrom ts key = some t) :
    firstAt t.key ts = some t := by
  obtain ⟨hle, as, bs, heq, hless⟩ := exists_of_firstFrom h hfind
  refine List.find?_eq_some_iff_append.mpr ⟨by simp, as, bs, heq, fun u hu => ?_⟩
  simpa using UInt64.ne_of_lt (UInt64.lt_of_lt_of_le (hless u hu) hle)

/-- From a key that some tuple has, the first tuple is the first with this key. -/
theorem firstFrom_eq_firstAt (h : Sorted ts) (hu : u ∈ ts) :
    firstFrom ts u.key = firstAt u.key ts := by
  cases hfind : firstFrom ts u.key with
  | none => exact absurd (lt_of_firstFrom_eq_none h hfind hu) (UInt64.lt_irrefl _)
  | some t =>
    have hkey : t.key = u.key := UInt64.le_antisymm
      (firstFrom_least h hfind hu (UInt64.le_refl _)) (le_of_firstFrom h hfind)
    rw [← hkey, firstAt_of_firstFrom h hfind]

/-- The tuple before a place is the one at the number below it. -/
theorem before_eq_some (h : before ts (place ts key) = some t) :
    0 < place ts key ∧ ts[place ts key - 1]? = some t := by
  rw [before] at h
  split at h
  · cases h
  · exact ⟨Nat.pos_of_ne_zero ‹_›, h⟩

/-- The last tuple below a key is one of the list. -/
theorem mem_of_lastBelow (hfind : lastBelow ts key = some t) : t ∈ ts := mem_of_before hfind

/-- The last tuple below a key has a smaller key. -/
theorem lt_of_lastBelow (h : Sorted ts) (hfind : lastBelow ts key = some t) : t.key < key := by
  obtain ⟨hpos, hget⟩ := before_eq_some hfind
  exact (lt_place_iff h hget).mp (by omega)

/-- Nothing lies between the tuple found and the key. -/
theorem lastBelow_greatest (h : Sorted ts) (hfind : lastBelow ts key = some t) (hu : u ∈ ts)
    (hkey : u.key < key) : u.key ≤ t.key := by
  obtain ⟨hpos, hget⟩ := before_eq_some hfind
  obtain ⟨i, hi⟩ := List.mem_iff_getElem?.mp hu
  have hlt := (lt_place_iff h hi).mpr hkey
  rcases Nat.lt_or_ge i (place ts key - 1) with hlow | hhigh
  · obtain ⟨hi', rfl⟩ := List.getElem?_eq_some_iff.mp hi
    obtain ⟨ht', rfl⟩ := List.getElem?_eq_some_iff.mp hget
    exact List.pairwise_iff_getElem.mp h i _ hi' ht' hlow
  · obtain rfl : i = place ts key - 1 := by omega
    rw [hget, Option.some.injEq] at hi
    rw [hi]
    exact UInt64.le_refl _

/-- Where nothing comes before, no key is below. -/
theorem le_of_lastBelow_eq_none (h : Sorted ts) (hfind : lastBelow ts key = none) (hu : u ∈ ts) :
    key ≤ u.key := by
  have hzero : place ts key = 0 := by
    rw [lastBelow, before] at hfind
    split at hfind
    · assumption
    · have hle := place_le ts key
      have := List.getElem?_eq_none_iff.mp hfind
      omega
  obtain ⟨i, hi⟩ := List.mem_iff_getElem?.mp hu
  refine UInt64.not_lt.mp fun hlt => ?_
  have := (lt_place_iff h hi).mpr hlt
  omega

/-- A place moves on with its key. -/
theorem place_mono (ts : List Tuple) (h : goal ≤ goal') : place ts goal ≤ place ts goal' := by
  refine List.countP_mono_left fun t _ ht => ?_
  simpa using UInt64.lt_of_lt_of_le (by simpa using ht) h

/-- A place that moves over a tuple moves. -/
theorem place_lt_place (h : Sorted ts) (ht : t ∈ ts) (hle : goal ≤ t.key) (hlt : t.key < goal') :
    place ts goal < place ts goal' := by
  obtain ⟨i, hi⟩ := List.mem_iff_getElem?.mp ht
  have hout : ¬ i < place ts goal := fun hlt =>
    absurd ((lt_place_iff h hi).mp hlt) (UInt64.not_lt.mpr hle)
  have hin := (lt_place_iff h hi).mpr hlt
  omega

/-- A place stays where it is while its key moves over no tuple. -/
theorem place_eq_place (h : ∀ t ∈ ts, t.key < goal ↔ t.key < goal') :
    place ts goal = place ts goal' :=
  List.countP_congr fun t ht => by simpa using h t ht

/-! ## Merged lists -/

/-- A list of just the tuples that are picked for their key, in order. -/
structure Merges (pick : UInt64 → Option Tuple) (ts : List Tuple) : Prop where
  strict : ts.Pairwise fun t u => t.key < u.key
  mem_iff : ∀ t, t ∈ ts ↔ pick t.key = some t

/-- Some keys in order, each of them once. -/
def sortedKeys (keys : List UInt64) : List UInt64 :=
  (keys.mergeSort fun a b => decide (a ≤ b)).dedup

/-- Sorting keys, and leaving out repeated ones, loses none. -/
theorem mem_sortedKeys {keys : List UInt64} : key ∈ sortedKeys keys ↔ key ∈ keys := by
  simp [sortedKeys]

/-- The tuples that are picked for some keys, in the order of the keys. -/
def inKeyOrder (keys : List UInt64) (pick : UInt64 → Option Tuple) : List Tuple :=
  (sortedKeys keys).filterMap pick

/-- What is picked first from a key on. -/
def NextPick (pick : UInt64 → Option Tuple) (goal : UInt64) : Option Tuple → Prop
  | none => ∀ key, goal ≤ key → pick key = none
  | some t => pick t.key = some t ∧ goal ≤ t.key ∧
    ∀ key, goal ≤ key → key < t.key → pick key = none

/-- A list in strict key order is told by its members. -/
theorem eq_of_strict {ts us : List Tuple} (ht : ts.Pairwise fun t u => t.key < u.key)
    (hu : us.Pairwise fun t u => t.key < u.key) (h : ∀ t, t ∈ ts ↔ t ∈ us) : ts = us := by
  have hirrefl : Std.Irrefl fun t u : Tuple => t.key < u.key := ⟨fun t => UInt64.lt_irrefl t.key⟩
  have hanti : Std.Antisymm fun t u : Tuple => t.key < u.key :=
    ⟨fun _ _ hlt hgt => absurd (UInt64.lt_trans hlt hgt) (UInt64.lt_irrefl _)⟩
  exact ht.eq_of_mem_iff hu h

namespace Merges

variable {pick : UInt64 → Option Tuple} {key : UInt64}

/-- A list that holds what is picked is sorted, as no two tuples of it have the same key. -/
theorem sorted (h : Merges pick ts) : Sorted ts := h.strict.imp UInt64.le_of_lt

/-- A tuple of such a list is the one that is picked at its key. -/
theorem pick_eq (h : Merges pick ts) (ht : t ∈ ts) : pick t.key = some t := (h.mem_iff t).mp ht

/-- The list has the keys with a pick. -/
theorem exists_key_iff (h : Merges pick ts) (hkey : ∀ t, pick key = some t → t.key = key) :
    (∃ t ∈ ts, t.key = key) ↔ (pick key).isSome = true := by
  rw [Option.isSome_iff_exists]
  constructor
  · rintro ⟨t, ht, rfl⟩
    exact ⟨t, h.pick_eq ht⟩
  · rintro ⟨t, ht⟩
    have hkey' := hkey t ht
    exact ⟨t, (h.mem_iff t).mpr (hkey'.symm ▸ ht), hkey'⟩

/-- While nothing is picked, the search may go on from a later key. -/
theorem place_eq (h : Merges pick ts) (hle : goal ≤ goal')
    (hnone : ∀ key, goal ≤ key → key < goal' → pick key = none) :
    place ts goal = place ts goal' := by
  refine place_eq_place fun t ht => ⟨fun hlt => UInt64.lt_of_lt_of_le hlt hle, fun hlt => ?_⟩
  refine UInt64.not_le.mp fun hge => ?_
  have hpick := h.pick_eq ht
  rw [hnone t.key hge hlt] at hpick
  cases hpick

/-- Nothing comes next if nothing is picked from the goal on. -/
theorem firstFrom_eq_none (h : Merges pick ts) (hnone : ∀ key, goal ≤ key → pick key = none) :
    firstFrom ts goal = none := by
  cases hfind : firstFrom ts goal with
  | none => rfl
  | some t =>
    have hpick := h.pick_eq (mem_of_firstFrom hfind)
    rw [hnone t.key (le_of_firstFrom h.sorted hfind)] at hpick
    cases hpick

/-- What is picked first from the goal on comes next. -/
theorem firstFrom_eq_some (h : Merges pick ts) (hpick : pick t.key = some t) (hle : goal ≤ t.key)
    (hnone : ∀ key, goal ≤ key → key < t.key → pick key = none) : firstFrom ts goal = some t := by
  have ht := (h.mem_iff t).mpr hpick
  cases hfind : firstFrom ts goal with
  | none => exact absurd (lt_of_firstFrom_eq_none h.sorted hfind ht) (UInt64.not_lt.mpr hle)
  | some u =>
    have hu := h.pick_eq (mem_of_firstFrom hfind)
    have hkey : u.key = t.key := by
      refine UInt64.le_antisymm (firstFrom_least h.sorted hfind ht hle) (UInt64.not_lt.mp ?_)
      intro hlt
      rw [hnone u.key (le_of_firstFrom h.sorted hfind) hlt] at hu
      cases hu
    rw [← hpick, ← hkey, hu]

/-- A search for the next key with a pick finds the next tuple of the list. -/
theorem firstFrom_eq (h : Merges pick ts) {found : Option Tuple}
    (hnext : NextPick pick goal found) : firstFrom ts goal = found := by
  cases found with
  | none => exact h.firstFrom_eq_none hnext
  | some t => exact h.firstFrom_eq_some hnext.1 hnext.2.1 hnext.2.2

/-- Nothing comes before if nothing is picked below the goal. -/
theorem lastBelow_eq_none (h : Merges pick ts) (hnone : ∀ key, key < goal → pick key = none) :
    lastBelow ts goal = none := by
  cases hfind : lastBelow ts goal with
  | none => rfl
  | some t =>
    have hpick := h.pick_eq (mem_of_lastBelow hfind)
    rw [hnone t.key (lt_of_lastBelow h.sorted hfind)] at hpick
    cases hpick

/-- What is picked last below the goal comes before. -/
theorem lastBelow_eq_some (h : Merges pick ts) (hpick : pick t.key = some t) (hlt : t.key < goal)
    (hnone : ∀ key, t.key < key → key < goal → pick key = none) : lastBelow ts goal = some t := by
  have ht := (h.mem_iff t).mpr hpick
  cases hfind : lastBelow ts goal with
  | none => exact absurd (le_of_lastBelow_eq_none h.sorted hfind ht) (UInt64.not_le.mpr hlt)
  | some u =>
    have hu := h.pick_eq (mem_of_lastBelow hfind)
    have hkey : u.key = t.key := by
      refine UInt64.le_antisymm (UInt64.not_lt.mp ?_) (lastBelow_greatest h.sorted hfind ht hlt)
      intro hbetween
      rw [hnone u.key hbetween (lt_of_lastBelow h.sorted hfind)] at hu
      cases hu
    rw [← hpick, ← hkey, hu]

/-- What is picked for some keys that hold all keys with a pick is a merged list. -/
theorem of_keys {keys : List UInt64} (hkey : ∀ key t, pick key = some t → t.key = key)
    (hmem : ∀ key t, pick key = some t → key ∈ keys) : Merges pick (inKeyOrder keys pick) := by
  have hle : (sortedKeys keys).Pairwise fun a b : UInt64 => a ≤ b := by
    refine List.Pairwise.sublist (List.dedup_sublist _) ?_
    refine (List.pairwise_mergeSort (fun a b c hab hbc => ?_) (fun a b => ?_) keys).imp
      fun h => by simpa using h
    · simpa using UInt64.le_trans (by simpa using hab) (by simpa using hbc)
    · simpa using UInt64.le_total a b
  have hlt : (sortedKeys keys).Pairwise fun a b : UInt64 => a < b :=
    hle.imp₂ (fun a b hab hne => UInt64.lt_of_le_of_ne hab hne) (List.nodup_dedup _)
  refine ⟨?_, fun t => ?_⟩
  · refine List.pairwise_filterMap.mpr (hlt.imp ?_)
    intro a b hab t ht u hu
    rw [hkey a t ht, hkey b u hu]
    exact hab
  · rw [inKeyOrder, List.mem_filterMap]
    refine ⟨fun ⟨key, _, hpick⟩ => hkey key t hpick ▸ hpick, fun hpick => ?_⟩
    exact ⟨t.key, mem_sortedKeys.mpr (hmem _ t hpick), hpick⟩

/-- A merged list has no more tuples than there are keys. -/
theorem length_le (h : Merges pick ts) {keys : List UInt64} (hmem : ∀ t ∈ ts, t.key ∈ keys) :
    ts.length ≤ keys.length := by
  have hnodup : (ts.map Tuple.key).Nodup :=
    List.pairwise_map.mpr (h.strict.imp UInt64.ne_of_lt)
  have hsub : ts.map Tuple.key ⊆ keys := by
    intro key hkey
    obtain ⟨t, ht, rfl⟩ := List.mem_map.mp hkey
    exact hmem t ht
  have hlen := (hnodup.subperm hsub).length_le
  rwa [List.length_map] at hlen

end Merges

/-! ## Cursors with a boundary -/

variable {C : Type} [Cursor C] {ds : Disks}

/-- The boundary behind a tuple found on the way forward; where nothing is found it stays. -/
def boundaryPast (boundary : UInt64) : Option Tuple → UInt64
  | some t => boundaryAfter t.key
  | none => boundary

/-- The boundary in front of a tuple found on the way back; where nothing is found it stays. -/
def boundaryBack (boundary : UInt64) : Option Tuple → UInt64
  | some t => t.key
  | none => boundary

/-- Cursors with a boundary and lists of single keys go together, whatever is done to them. -/
structure Bounded (ds : Disks) (R : C → List Tuple → UInt64 → Prop) : Prop where
  strict : ∀ {c ts b}, R c ts b → ts.Pairwise fun t u => t.key < u.key
  extent : ∀ {c ts b}, R c ts b → ts.length ≤ extent c
  peekNext : ∀ {c ts b}, R c ts b →
    ∃ c', Over.Reads ds peekNext c (firstFrom ts b) c' ∧ R c' ts b
  peekPrevious : ∀ {c ts b}, R c ts b →
    ∃ c', Over.Reads ds peekPrevious c (lastBelow ts b) c' ∧ R c' ts b
  next : ∀ {c ts b}, R c ts b →
    ∃ c', Over.Reads ds next c (firstFrom ts b) c' ∧ R c' ts (boundaryPast b (firstFrom ts b))
  previous : ∀ {c ts b}, R c ts b →
    ∃ c', Over.Reads ds previous c (lastBelow ts b) c' ∧ R c' ts (boundaryBack b (lastBelow ts b))
  seek : ∀ {c ts b} (key : UInt64), R c ts b →
    ∃ c', Over.Reads ds (seek key) c () c' ∧ R c' ts key

/-- No key is above the greatest one. -/
theorem le_maxKey (key : UInt64) : key ≤ maxKey := by
  rw [maxKey]
  grind

/-- Every other key is below the greatest one. -/
theorem lt_maxKey_iff : key < maxKey ↔ key ≠ maxKey :=
  ⟨UInt64.ne_of_lt, UInt64.lt_of_le_of_ne (le_maxKey key)⟩

/-- Where no tuple has the largest key, all tuples lie before its place. -/
theorem place_maxKey (hbelow : ∀ t ∈ ts, t.key ≠ maxKey) : place ts maxKey = ts.length :=
  place_eq_length fun t ht => lt_maxKey_iff.mpr (hbelow t ht)

/-- The boundary moves past one tuple, but never past the largest key. -/
theorem place_boundaryPast (h : ts.Pairwise fun t u => t.key < u.key) (b : UInt64) :
    place ts (boundaryPast b (firstFrom ts b)) = min (place ts b + 1) (place ts maxKey) := by
  have hs : Sorted ts := h.imp UInt64.le_of_lt
  have hmono : place ts b ≤ place ts maxKey := place_mono ts (le_maxKey b)
  cases hfind : firstFrom ts b with
  | none =>
    have hend : ts.length ≤ place ts b := List.getElem?_eq_none_iff.mp hfind
    have hle := place_le ts maxKey
    show place ts b = _
    omega
  | some t =>
    obtain ⟨hlt, ht⟩ := List.getElem?_eq_some_iff.mp hfind
    have hmax : place ts b < place ts maxKey ↔ t.key ≠ maxKey :=
      (lt_place_iff hs hfind).trans lt_maxKey_iff
    rw [boundaryPast, boundaryAfter]
    split
    · -- the tuple has the largest key, and the boundary stays before it
      rename_i hkey
      have hstay : ¬ place ts b < place ts maxKey := fun hlt => hmax.mp hlt hkey
      omega
    · rename_i hne
      have hroom := hmax.mpr hne
      have hless : t.key < t.key + 1 := by
        have := hne
        rw [maxKey] at this
        grind
      rw [Nat.min_eq_left hroom]
      refine place_eq_of_gap hs hlt ?_ ?_
      · rw [before_succ, show ts[place ts b]? = some t from hfind, Option.all_some]
        simpa using hless
      · cases hnext : ts[place ts b + 1]? with
        | none => rfl
        | some u =>
          obtain ⟨hlt', hu⟩ := List.getElem?_eq_some_iff.mp hnext
          have hkey := List.pairwise_iff_getElem.mp h _ _ hlt hlt' (Nat.lt_succ_self _)
          rw [ht, hu] at hkey
          simpa using (by grind : t.key + 1 ≤ u.key)

/-- The boundary moves back over one tuple. -/
theorem place_boundaryBack (h : ts.Pairwise fun t u => t.key < u.key) (b : UInt64) :
    place ts (boundaryBack b (lastBelow ts b)) = place ts b - 1 := by
  have hs : Sorted ts := h.imp UInt64.le_of_lt
  have hle := place_le ts b
  cases hfind : lastBelow ts b with
  | none =>
    show place ts b = _
    rw [lastBelow, before] at hfind
    split at hfind
    · omega
    · have := List.getElem?_eq_none_iff.mp hfind
      omega
  | some t =>
    obtain ⟨hpos, hget⟩ := before_eq_some hfind
    show place ts t.key = _
    -- the tuple at the new boundary has its key, and the one before it a smaller one
    refine place_eq_of_gap hs (by omega) ?_ ?_
    · cases hprev : before ts (place ts b - 1) with
      | none => rfl
      | some u =>
        rw [before] at hprev
        split at hprev
        · cases hprev
        · obtain ⟨hlt, ht⟩ := List.getElem?_eq_some_iff.mp hget
          obtain ⟨hlt', hu⟩ := List.getElem?_eq_some_iff.mp hprev
          have hkey := List.pairwise_iff_getElem.mp h _ _ hlt' hlt (by omega)
          rw [ht, hu] at hkey
          simpa using hkey
    · rw [hget, Option.all_some]
      simp

/-- Such a cursor shows its list at the boundary's place, when no tuple has the largest key. -/
theorem Bounded.mimicry {R : C → List Tuple → UInt64 → Prop} (h : Bounded ds R) :
    Mimicry ds fun c ts p => ∃ b, (R c ts b ∧ ∀ t ∈ ts, t.key ≠ maxKey) ∧ p = place ts b where
  sorted := fun ⟨_, ⟨hc, _⟩, _⟩ => (h.strict hc).imp UInt64.le_of_lt
  inside := by
    rintro c ts _ ⟨b, -, rfl⟩
    exact place_le ts b
  extent := fun ⟨_, ⟨hc, _⟩, _⟩ => h.extent hc
  peekNext := by
    rintro c ts _ ⟨b, ⟨hc, hbelow⟩, rfl⟩
    obtain ⟨c', hrun, hc'⟩ := h.peekNext hc
    exact ⟨c', hrun, b, ⟨hc', hbelow⟩, rfl⟩
  peekPrevious := by
    rintro c ts _ ⟨b, ⟨hc, hbelow⟩, rfl⟩
    obtain ⟨c', hrun, hc'⟩ := h.peekPrevious hc
    exact ⟨c', hrun, b, ⟨hc', hbelow⟩, rfl⟩
  next := by
    rintro c ts _ ⟨b, ⟨hc, hbelow⟩, rfl⟩
    obtain ⟨c', hrun, hc'⟩ := h.next hc
    refine ⟨c', hrun, _, ⟨hc', hbelow⟩, ?_⟩
    -- no tuple has the largest key, so that the boundary moves past whatever is found
    rw [place_boundaryPast (h.strict hc), place_maxKey hbelow]
  previous := by
    rintro c ts _ ⟨b, ⟨hc, hbelow⟩, rfl⟩
    obtain ⟨c', hrun, hc'⟩ := h.previous hc
    exact ⟨c', hrun, _, ⟨hc', hbelow⟩, (place_boundaryBack (h.strict hc) b).symm⟩
  seek := by
    rintro c ts _ key ⟨b, ⟨hc, hbelow⟩, rfl⟩
    obtain ⟨c', hrun, hc'⟩ := h.seek key hc
    exact ⟨c', hrun, key, ⟨hc', hbelow⟩, rfl⟩

end Cursor

end EventIndex
