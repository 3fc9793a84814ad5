import EventIndex.Cursor.Listed
import EventIndex.Proofs.Cursor.Reading
import EventIndex.Proofs.Store.Ordered

/-! # What it is to be a cursor

A cursor *shows* a list with its gap at a place when everything that can be asked of it is answered
from the list: `Shows ds c ts p` says so of the cursor `c` over any of the disks `ds`. Shown lists
are sorted by key, and keys may be repeated.

A `Mimicry` is a relation between cursors and lists with a place that all six operations respect.
Every mimicry is contained in `Shows`, which is itself one, so a filter or a merge is treated by
giving a mimicry in terms of what its inputs show. A `Casing` puts a cursor into another type and does
with it just what it does by itself.

* `Sorted`, `place`, `before`: lists of tuples, and places in them.
* `Cursor.Shows`: what a cursor shows; `sorted`, `peekNext` to `seek` are its eliminations.
* `Mimicry.shows`: how a cursor is proved to show a list.
* `Cursor.Shows.cased`: cursors in another type.
-/

namespace EventIndex

namespace Cursor

/-! ## Sorted lists -/

/-- The keys of a list never go backwards. -/
def Sorted (ts : List Tuple) : Prop := ts.Pairwise fun t u => t.key ≤ u.key

instance (ts : List Tuple) : Decidable (Sorted ts) := inferInstanceAs (Decidable (List.Pairwise _ _))

/-- No key of a sorted list is above the last one. -/
theorem Sorted.le_getLast {ts : List Tuple} {t last : Tuple} (h : Sorted ts)
    (hlast : ts.getLast? = some last) (ht : t ∈ ts) : t.key ≤ last.key := by
  obtain ⟨us, rfl⟩ := List.getLast?_eq_some_iff.mp hlast
  rcases List.mem_append.mp ht with ht | ht
  · exact (List.pairwise_append.mp h).2.2 t ht last (List.mem_singleton_self last)
  · rw [List.mem_singleton.mp ht]
    exact UInt64.le_refl _

/-- No key of a sorted list is below the first one. -/
theorem Sorted.head_le {ts : List Tuple} {t first : Tuple} (h : Sorted ts)
    (hfirst : ts.head? = some first) (ht : t ∈ ts) : first.key ≤ t.key := by
  obtain ⟨us, rfl⟩ := List.head?_eq_some_iff.mp hfirst
  rcases List.mem_cons.mp ht with rfl | ht
  · exact UInt64.le_refl _
  · exact (List.pairwise_cons.mp h).1 t ht

/-- The place in front of the first tuple whose key is at least `key`. -/
def place (ts : List Tuple) (key : UInt64) : Nat := ts.countP fun t => t.key < key

/-- The tuple before a place. -/
def before (ts : List Tuple) (p : Nat) : Option Tuple := if p = 0 then none else ts[p - 1]?

variable {ts us : List Tuple} {t : Tuple} {key : UInt64} {i p : Nat}

theorem place_le (ts : List Tuple) (key : UInt64) : place ts key ≤ ts.length :=
  List.countP_le_length

/-- The place of a key counts the smaller keys, so those of two parts are added. -/
theorem place_append (ts us : List Tuple) (key : UInt64) :
    place (ts ++ us) key = place ts key + place us key := List.countP_append

theorem place_cons_of_lt (h : t.key < key) : place (t :: ts) key = place ts key + 1 := by
  simp [place, h]

/-- A key that none is below has its place in front. -/
theorem place_eq_zero (h : ∀ t ∈ ts, key ≤ t.key) : place ts key = 0 := by
  rw [place, List.countP_eq_zero]
  intro t ht
  simpa using h t ht

/-- A key that all are below has its place at the end. -/
theorem place_eq_length (h : ∀ t ∈ ts, t.key < key) : place ts key = ts.length := by
  rw [place, List.countP_eq_length]
  intro t ht
  simpa using h t ht

/-- Exactly the tuples before the place have a lesser key. -/
theorem lt_place_iff (h : Sorted ts) (ht : ts[i]? = some t) : i < place ts key ↔ t.key < key := by
  induction ts generalizing i with
  | nil => simp at ht
  | cons u us ih =>
    obtain ⟨hfirst, hrest⟩ := List.pairwise_cons.mp h
    by_cases hkey : u.key < key
    · rw [place_cons_of_lt hkey]
      cases i with
      | zero =>
        obtain rfl : u = t := by simpa using ht
        simp [hkey]
      | succ i =>
        rw [Nat.succ_lt_succ_iff]
        exact ih hrest (by simpa using ht)
    · -- no tuple is below the key
      have hall : ∀ v ∈ u :: us, key ≤ v.key := by
        intro v hv
        rcases List.mem_cons.mp hv with rfl | hv
        · exact UInt64.not_lt.mp hkey
        · exact UInt64.le_trans (UInt64.not_lt.mp hkey) (hfirst v hv)
      rw [place_eq_zero hall]
      have hle := hall t (List.mem_of_getElem? ht)
      exact iff_of_false (Nat.not_lt_zero i) (UInt64.not_lt.mpr hle)

/-- In front of the place of a key all keys are smaller. -/
theorem key_lt_of_mem_take_place (h : Sorted ts) (ht : t ∈ ts.take (place ts key)) :
    t.key < key := by
  obtain ⟨i, hi⟩ := List.mem_iff_getElem?.mp ht
  rw [List.getElem?_take] at hi
  split at hi
  · exact (lt_place_iff h hi).mp ‹_›
  · cases hi

/-- Behind the place of a key no key is smaller. -/
theorem le_key_of_mem_drop_place (h : Sorted ts) (ht : t ∈ ts.drop (place ts key)) :
    key ≤ t.key := by
  obtain ⟨i, hi⟩ := List.mem_iff_getElem?.mp ht
  rw [List.getElem?_drop] at hi
  refine UInt64.not_lt.mp fun hlt => ?_
  have hplace := (lt_place_iff h hi).mpr hlt
  omega

/-- The tuples from a key on come after its place. -/
theorem drop_place_eq_filter (h : Sorted ts) (key : UInt64) :
    ts.drop (place ts key) = ts.filter (key ≤ ·.key) := by
  conv_rhs => rw [← List.take_append_drop (place ts key) ts, List.filter_append]
  rw [List.filter_eq_nil_iff.mpr, List.filter_eq_self.mpr, List.nil_append]
  · intro t ht
    simpa using le_key_of_mem_drop_place h ht
  · intro t ht
    simpa using key_lt_of_mem_take_place h ht

/-- The tuples below a key come before its place. -/
theorem take_place_eq_filter (h : Sorted ts) (key : UInt64) :
    ts.take (place ts key) = ts.filter (·.key < key) := by
  conv_rhs => rw [← List.take_append_drop (place ts key) ts, List.filter_append]
  rw [List.filter_eq_self.mpr, List.filter_eq_nil_iff.mpr, List.append_nil]
  · intro t ht
    simpa using le_key_of_mem_drop_place h ht
  · intro t ht
    simpa using key_lt_of_mem_take_place h ht

/-- The place lies between the lesser keys and the others. -/
theorem place_of_split (hbefore : ∀ t ∈ ts, t.key < key) (hafter : ∀ t ∈ us, key ≤ t.key) :
    place (ts ++ us) key = ts.length := by
  rw [place_append, place_eq_length hbefore, place_eq_zero hafter, Nat.add_zero]

theorem before_succ : before ts (p + 1) = ts[p]? := rfl

/-- The tuple before a place is one of the list. -/
theorem mem_of_before (h : before ts p = some t) : t ∈ ts := by
  cases p with
  | zero => cases h
  | succ p => exact List.mem_of_getElem? h

/-- A gap between lesser keys and others is the one sought. -/
theorem place_eq_of_gap (h : Sorted ts) (hp : p ≤ ts.length)
    (hbefore : (before ts p).all (·.key < key) = true) (hafter : ts[p]?.all (key ≤ ·.key) = true) :
    place ts key = p := by
  have hle := place_le ts key
  rcases Nat.lt_trichotomy (place ts key) p with hlt | heq | hgt
  · cases p with
    | zero => omega
    | succ p =>
      have hget : ts[p]? = some ts[p] := List.getElem?_eq_getElem hp
      rw [before_succ, hget] at hbefore
      have hkey := (lt_place_iff h hget).mpr (by simpa using hbefore)
      omega
  · exact heq
  · have hget : ts[p]? = some ts[p] := List.getElem?_eq_getElem (by omega)
    rw [hget] at hafter
    have hkey := (lt_place_iff h hget).mp hgt
    exact absurd hkey (UInt64.not_lt.mpr (by simpa using hafter))

/-! ## Showing a list -/

variable {C : Type} [Cursor C] {ds : Disks} {c : C} {R : C → List Tuple → Nat → Prop}

/-- Cursors and lists with a place go together, whatever is done to them. -/
structure Mimicry (ds : Disks) (R : C → List Tuple → Nat → Prop) : Prop where
  sorted : ∀ {c ts p}, R c ts p → Sorted ts
  inside : ∀ {c ts p}, R c ts p → p ≤ ts.length
  extent : ∀ {c ts p}, R c ts p → ts.length ≤ extent c
  peekNext : ∀ {c ts p}, R c ts p → ∃ c', Over.Reads ds peekNext c ts[p]? c' ∧ R c' ts p
  peekPrevious : ∀ {c ts p}, R c ts p →
    ∃ c', Over.Reads ds peekPrevious c (before ts p) c' ∧ R c' ts p
  next : ∀ {c ts p}, R c ts p →
    ∃ c', Over.Reads ds next c ts[p]? c' ∧ R c' ts (min (p + 1) ts.length)
  previous : ∀ {c ts p}, R c ts p →
    ∃ c', Over.Reads ds previous c (before ts p) c' ∧ R c' ts (p - 1)
  seek : ∀ {c ts p} (key : UInt64), R c ts p →
    ∃ c', Over.Reads ds (seek key) c () c' ∧ R c' ts (place ts key)

/-- A cursor shows a list with its gap at a place. -/
def Shows (ds : Disks) (c : C) (ts : List Tuple) (p : Nat) : Prop :=
  ∃ R : C → List Tuple → Nat → Prop, Mimicry ds R ∧ R c ts p

/-- What is related by a mimicry shows its list: a mimicry is all that `Shows` asks for. -/
theorem Mimicry.shows (h : Mimicry ds R) (hc : R c ts p) : Shows ds c ts p := ⟨R, h, hc⟩

/-- Showing is a mimicry, and by definition the greatest. -/
theorem mimicry_shows (ds : Disks) : Mimicry ds (Shows ds (C := C)) where
  sorted := fun ⟨_, h, hc⟩ => h.sorted hc
  inside := fun ⟨_, h, hc⟩ => h.inside hc
  extent := fun ⟨_, h, hc⟩ => h.extent hc
  peekNext := fun ⟨_, h, hc⟩ =>
    let ⟨c', hrun, hc'⟩ := h.peekNext hc
    ⟨c', hrun, h.shows hc'⟩
  peekPrevious := fun ⟨_, h, hc⟩ =>
    let ⟨c', hrun, hc'⟩ := h.peekPrevious hc
    ⟨c', hrun, h.shows hc'⟩
  next := fun ⟨_, h, hc⟩ =>
    let ⟨c', hrun, hc'⟩ := h.next hc
    ⟨c', hrun, h.shows hc'⟩
  previous := fun ⟨_, h, hc⟩ =>
    let ⟨c', hrun, hc'⟩ := h.previous hc
    ⟨c', hrun, h.shows hc'⟩
  seek := fun key ⟨_, h, hc⟩ =>
    let ⟨c', hrun, hc'⟩ := h.seek key hc
    ⟨c', hrun, h.shows hc'⟩

/-- A mimicry over some disks is one over fewer of them. -/
theorem Mimicry.mono {ds' : Disks} (h : Mimicry ds R) (hds : ∀ d, ds' d → ds d) : Mimicry ds' R where
  sorted := h.sorted
  inside := h.inside
  extent := h.extent
  peekNext hc :=
    let ⟨c', hrun, hc'⟩ := h.peekNext hc
    ⟨c', hrun.mono hds, hc'⟩
  peekPrevious hc :=
    let ⟨c', hrun, hc'⟩ := h.peekPrevious hc
    ⟨c', hrun.mono hds, hc'⟩
  next hc :=
    let ⟨c', hrun, hc'⟩ := h.next hc
    ⟨c', hrun.mono hds, hc'⟩
  previous hc :=
    let ⟨c', hrun, hc'⟩ := h.previous hc
    ⟨c', hrun.mono hds, hc'⟩
  seek key hc :=
    let ⟨c', hrun, hc'⟩ := h.seek key hc
    ⟨c', hrun.mono hds, hc'⟩

namespace Shows

/-- A list that is shown over some disks is shown over fewer. -/
theorem mono {ds' : Disks} (h : Shows ds c ts p) (hds : ∀ d, ds' d → ds d) : Shows ds' c ts p :=
  let ⟨_, hR, hc⟩ := h
  (hR.mono hds).shows hc

/-- A shown list is sorted by key. -/
theorem sorted (h : Shows ds c ts p) : Sorted ts := (mimicry_shows ds).sorted h

/-- The gap of a cursor is within its list. -/
theorem inside (h : Shows ds c ts p) : p ≤ ts.length := (mimicry_shows ds).inside h

/-- A cursor knows an upper bound for the length of its list, and its loops take their fuel from it. -/
theorem extent (h : Shows ds c ts p) : ts.length ≤ Cursor.extent c := (mimicry_shows ds).extent h

/-- Peeking on gives the tuple behind the gap and leaves the gap where it is. -/
theorem peekNext (h : Shows ds c ts p) :
    ∃ c', Over.Reads ds peekNext c ts[p]? c' ∧ Shows ds c' ts p := (mimicry_shows ds).peekNext h

/-- Peeking back gives the tuple before the gap and leaves the gap where it is. -/
theorem peekPrevious (h : Shows ds c ts p) :
    ∃ c', Over.Reads ds peekPrevious c (before ts p) c' ∧ Shows ds c' ts p :=
  (mimicry_shows ds).peekPrevious h

/-- A step on gives the tuple behind the gap and goes over it, as far as the end. -/
theorem next (h : Shows ds c ts p) :
    ∃ c', Over.Reads ds next c ts[p]? c' ∧ Shows ds c' ts (min (p + 1) ts.length) :=
  (mimicry_shows ds).next h

/-- A step back gives the tuple before the gap and goes over it, as far as the front. -/
theorem previous (h : Shows ds c ts p) :
    ∃ c', Over.Reads ds previous c (before ts p) c' ∧ Shows ds c' ts (p - 1) :=
  (mimicry_shows ds).previous h

/-- A seek goes to the place of the key, from wherever the gap was. -/
theorem seek (h : Shows ds c ts p) (key : UInt64) :
    ∃ c', Over.Reads ds (seek key) c () c' ∧ Shows ds c' ts (place ts key) :=
  (mimicry_shows ds).seek key h

/-! ## Taking several tuples -/

/-- The tuples after the gap are taken one by one. -/
theorem collectForward (h : Shows ds c ts p) (limit : Nat) :
    ∃ c', Over.Reads ds (collectForward limit) c ((ts.drop p).take limit) c' ∧
      Shows ds c' ts (min (p + limit) ts.length) := by
  induction limit generalizing c p with
  | zero =>
    refine ⟨c, .pure c _, ?_⟩
    rw [Nat.add_zero, Nat.min_eq_left h.inside]
    exact h
  | succ limit ih =>
    obtain ⟨c₁, hrun₁, h₁⟩ := h.next
    cases hget : ts[p]? with
    | none =>
      -- at the end a step finds nothing, and no further one is made
      have hend : ts.length ≤ p := List.getElem?_eq_none_iff.mp hget
      rw [hget] at hrun₁
      refine ⟨c₁, ?_, ?_⟩
      · rw [List.drop_of_length_le hend, List.take_nil]
        exact hrun₁.bind (.pure c₁ _)
      · rw [show min (p + (limit + 1)) ts.length = min (p + 1) ts.length by omega]
        exact h₁
    | some t =>
      obtain ⟨hlt, ht⟩ := List.getElem?_eq_some_iff.mp hget
      rw [Nat.min_eq_left hlt] at h₁
      obtain ⟨c₂, hrun₂, h₂⟩ := ih h₁
      rw [hget] at hrun₁
      refine ⟨c₂, ?_, ?_⟩
      · rw [List.drop_eq_getElem_cons hlt, ht, List.take_succ_cons]
        exact hrun₁.bind (hrun₂.bind (.pure c₂ _))
      · rw [show p + (limit + 1) = p + 1 + limit by omega]
        exact h₂

/-- The tuples before the gap are taken one by one, the nearest first. -/
theorem collectBackward (h : Shows ds c ts p) (limit : Nat) :
    ∃ c', Over.Reads ds (collectBackward limit) c ((ts.take p).reverse.take limit) c' ∧
      Shows ds c' ts (p - limit) := by
  induction limit generalizing c p with
  | zero => exact ⟨c, .pure c _, h⟩
  | succ limit ih =>
    obtain ⟨c₁, hrun₁, h₁⟩ := h.previous
    cases p with
    | zero => exact ⟨c₁, hrun₁.bind (.pure c₁ _), by simpa using h₁⟩
    | succ p =>
      have hlt : p < ts.length := h.inside
      obtain ⟨c₂, hrun₂, h₂⟩ := ih h₁
      rw [before_succ, List.getElem?_eq_getElem hlt] at hrun₁
      refine ⟨c₂, ?_, ?_⟩
      · rw [List.take_succ_eq_append_getElem hlt, List.reverse_append]
        exact hrun₁.bind (hrun₂.bind (.pure c₂ _))
      · rw [show p + 1 - (limit + 1) = p + 1 - 1 - limit by omega]
        exact h₂

end Shows

end Cursor

open Cursor

/-! ## Casings -/

section Casing

variable {C W α : Type} {ds : Disks}

/-- An action on cased values does what an action on the values does. -/
def Wraps (wrap : C → W) (x : Act (Over C) α) (y : Act (Over W) α) : Prop :=
  ∀ c f, y ⟨wrap c, f⟩ = match x ⟨c, f⟩ with
    | .ok a s => .ok a ⟨wrap s.item, s.pages⟩
    | .error e s => .error e ⟨wrap s.item, s.pages⟩

/-- A call that is wrapped reads what the call inside reads, and ends in the wrapped cursor. -/
theorem Over.Reads.wrap {wrap : C → W} {x : Act (Over C) α} {y : Act (Over W) α} {c c' : C} {a : α}
    (h : Over.Reads ds x c a c') (hwrap : Wraps wrap x y) :
    Over.Reads ds y (wrap c) a (wrap c') := by
  intro f hf hd
  obtain ⟨f', hrun, hf', hd'⟩ := h f hf hd
  refine ⟨f', ?_, hf', hd'⟩
  rw [hwrap c f, hrun]

/-- Every operation on cased cursors is that of the cursors. -/
structure Casing [Cursor C] [Cursor W] (wrap : C → W) : Prop where
  peekNext : Wraps wrap peekNext peekNext
  peekPrevious : Wraps wrap peekPrevious peekPrevious
  next : Wraps wrap next next
  previous : Wraps wrap previous previous
  seek : ∀ key, Wraps wrap (seek key) (seek key)
  extent : ∀ c, Cursor.extent (wrap c) = Cursor.extent c

variable [Cursor C] [Cursor W] {wrap : C → W}

/-- To be a cased cursor that shows a list is a mimicry. -/
theorem Casing.mimicry (h : Casing wrap) (ds : Disks) :
    Mimicry ds fun w ts p => ∃ c, w = wrap c ∧ Shows ds c ts p where
  sorted := fun ⟨_, _, hc⟩ => hc.sorted
  inside := fun ⟨_, _, hc⟩ => hc.inside
  extent := by
    rintro _ ts p ⟨c, rfl, hc⟩
    rw [h.extent]
    exact hc.extent
  peekNext := by
    rintro _ ts p ⟨c, rfl, hc⟩
    obtain ⟨c', hrun, hc'⟩ := hc.peekNext
    exact ⟨_, hrun.wrap h.peekNext, c', rfl, hc'⟩
  peekPrevious := by
    rintro _ ts p ⟨c, rfl, hc⟩
    obtain ⟨c', hrun, hc'⟩ := hc.peekPrevious
    exact ⟨_, hrun.wrap h.peekPrevious, c', rfl, hc'⟩
  next := by
    rintro _ ts p ⟨c, rfl, hc⟩
    obtain ⟨c', hrun, hc'⟩ := hc.next
    exact ⟨_, hrun.wrap h.next, c', rfl, hc'⟩
  previous := by
    rintro _ ts p ⟨c, rfl, hc⟩
    obtain ⟨c', hrun, hc'⟩ := hc.previous
    exact ⟨_, hrun.wrap h.previous, c', rfl, hc'⟩
  seek := by
    rintro _ ts p key ⟨c, rfl, hc⟩
    obtain ⟨c', hrun, hc'⟩ := hc.seek key
    exact ⟨_, hrun.wrap (h.seek key), c', rfl, hc'⟩

/-- A cursor in a casing shows what it shows by itself. -/
theorem Cursor.Shows.cased {c : C} {ts : List Tuple} {p : Nat} (hc : Shows ds c ts p)
    (h : Casing wrap) : Shows ds (wrap c) ts p :=
  (h.mimicry ds).shows ⟨c, rfl, hc⟩

end Casing

end EventIndex
