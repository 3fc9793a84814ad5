import EventIndex.Proofs.Cursor.Walks

/-! # The measure of all cursors

A cursor in memory shows the list that it holds (`Listed.shows`). To show a list is therefore to answer
every sequence of moves as the cursor in memory does that stands in this list (`Shows.outcome_walk`).

`Opens` says so of an action that opens a cursor, and of the cursor that it may be a head in turn.
-/

namespace EventIndex

open Cursor

variable {C : Type} [Cursor C] {ds : Disks} {ts : List Tuple} {p : Nat}

namespace Listed

/-- The cursor over a list with its gap at a place. -/
def standing (ts : List Tuple) (p : Nat) : Listed := ⟨ts.toArray, p⟩

/-- A seek that goes through the list finds the place of the key. -/
theorem findIdx_eq_place (h : Sorted ts) (key : UInt64) :
    ts.findIdx (fun t => key ≤ t.key) = place ts key := by
  induction ts with
  | nil => rfl
  | cons t ts ih =>
    obtain ⟨hfirst, hrest⟩ := List.pairwise_cons.mp h
    rw [List.findIdx_cons]
    by_cases hkey : t.key < key
    · rw [place_cons_of_lt hkey, ← ih hrest, decide_eq_false (UInt64.not_le.mpr hkey)]
      rfl
    · -- no tuple is below the key
      have hle := UInt64.not_lt.mp hkey
      rw [decide_eq_true hle, place_eq_zero]
      · rfl
      · intro u hu
        rcases List.mem_cons.mp hu with rfl | hu
        · exact hle
        · exact UInt64.le_trans hle (hfirst u hu)

/-- What comes after the gap. -/
theorem after_standing (ts : List Tuple) (p : Nat) : (standing ts p).after = ts[p]? :=
  List.getElem?_toArray

/-- What comes before the gap. -/
theorem before_standing (ts : List Tuple) (p : Nat) :
    (standing ts p).before = Cursor.before ts p := by
  simp only [Listed.before, Cursor.before, standing, List.getElem?_toArray]

/-- A step on goes over one tuple, as far as the end. -/
theorem forward_standing (h : p ≤ ts.length) :
    (standing ts p).forward = standing ts (min (p + 1) ts.length) := by
  rw [forward, after_standing]
  cases hget : ts[p]? with
  | none =>
    have hend := List.getElem?_eq_none_iff.mp hget
    rw [Nat.min_eq_right (by omega), Nat.le_antisymm h hend]
    rfl
  | some t =>
    obtain ⟨hlt, -⟩ := List.getElem?_eq_some_iff.mp hget
    rw [Nat.min_eq_left hlt]
    rfl

/-- A step back goes over one tuple, as far as the front. -/
theorem backward_standing (h : p ≤ ts.length) :
    (standing ts p).backward = standing ts (p - 1) := by
  rw [backward, before_standing]
  cases p with
  | zero => rfl
  | succ p =>
    rw [before_succ, List.getElem?_eq_getElem h]
    rfl

theorem sought_standing (h : Sorted ts) (key : UInt64) :
    (standing ts p).sought key = standing ts (place ts key) := by
  rw [← findIdx_eq_place h, sought, standing, List.findIdx_toArray]
  rfl

/-- A cursor in memory goes with its own list. -/
theorem mimicry (ds : Disks) :
    Mimicry ds fun c ts p => c = standing ts p ∧ Sorted ts ∧ p ≤ ts.length where
  sorted := fun ⟨_, hs, _⟩ => hs
  inside := fun ⟨_, _, hp⟩ => hp
  extent := by
    rintro _ ts p ⟨rfl, -, -⟩
    exact Nat.le_refl _
  peekNext := by
    rintro _ ts p ⟨rfl, hs, hp⟩
    refine ⟨standing ts p, fun f hf _ => ⟨f, ?_, hf, rfl⟩, rfl, hs, hp⟩
    rw [← after_standing]
    rfl
  peekPrevious := by
    rintro _ ts p ⟨rfl, hs, hp⟩
    refine ⟨standing ts p, fun f hf _ => ⟨f, ?_, hf, rfl⟩, rfl, hs, hp⟩
    rw [← before_standing]
    rfl
  next := by
    rintro _ ts p ⟨rfl, hs, hp⟩
    refine ⟨_, fun f hf _ => ⟨f, ?_, hf, rfl⟩, rfl, hs, Nat.min_le_right _ _⟩
    rw [← forward_standing hp, ← after_standing]
    rfl
  previous := by
    rintro _ ts p ⟨rfl, hs, hp⟩
    refine ⟨_, fun f hf _ => ⟨f, ?_, hf, rfl⟩, rfl, hs, Nat.le_trans (Nat.sub_le _ _) hp⟩
    rw [← backward_standing hp, ← before_standing]
    rfl
  seek := by
    rintro _ ts p key ⟨rfl, hs, hp⟩
    refine ⟨_, fun f hf _ => ⟨f, ?_, hf, rfl⟩, rfl, hs, place_le ts key⟩
    rw [← sought_standing hs]
    rfl

/-- A cursor in memory shows the list it stands in. -/
theorem shows (ds : Disks) (hs : Sorted ts) (hp : p ≤ ts.length) : Shows ds (standing ts p) ts p :=
  (mimicry ds).shows ⟨rfl, hs, hp⟩

end Listed

namespace Cursor

/-- A cursor that shows a list answers all moves as the cursor in memory does. -/
theorem Shows.outcome_walk {c : C} (h : Shows ds c ts p) {pages : PageFile} (hpages : pages.Sound)
    (hdisk : ds pages.disk) (moves : List Move) :
    Act.outcome (Over.runOn c (Move.walk moves)) pages =
      Act.outcome (Over.runOn (Listed.standing ts p) (Move.walk moves)) pages := by
  have hanswers : ∀ {D : Type} [Cursor D] {d : D}, Shows ds d ts p →
      Act.outcome (Over.runOn d (Move.walk moves)) pages = .ok (Move.finds ts p moves) := by
    intro D _ d hd
    obtain ⟨d', p', hrun, -⟩ := hd.walk moves
    exact hrun.runOn.outcome hpages hdisk
  rw [hanswers h, hanswers (Listed.shows ds h.sorted h.inside)]

/-- An action opens a cursor over a list with its gap at a place. The cursor may be the head of a merge,
and it answers every sequence of moves as the cursor in memory does that stands there. -/
structure Opens (ds : Disks) (opened : Act PageFile C) (ts : List Tuple) (p : Nat) : Prop where
  shows : ∃ c, PageFile.Reads ds opened c ∧ Shows ds c ts p
  walks : ∀ pages : PageFile, pages.Sound → ds pages.disk → ∀ moves : List Move,
    Act.outcome (opened >>= fun c => Over.runOn c (Move.walk moves)) pages =
      Act.outcome (Over.runOn (Listed.standing ts p) (Move.walk moves)) pages

/-- A cursor that is opened by reading, and shows a list, is opened over it. -/
theorem Opens.of_shows {opened : Act PageFile C} {c : C} (hread : PageFile.Reads ds opened c)
    (h : Shows ds c ts p) : Opens ds opened ts p where
  shows := ⟨c, hread, h⟩
  walks := by
    intro pages hpages hdisk moves
    obtain ⟨pages', hrun, hpages', hdisk'⟩ := hread pages hpages hdisk
    have hlisted : Act.outcome (Over.runOn (Listed.standing ts p) (Move.walk moves)) pages' =
        Act.outcome (Over.runOn (Listed.standing ts p) (Move.walk moves)) pages := by
      obtain ⟨c', p', hwalk, -⟩ := (Listed.shows ds h.sorted h.inside).walk moves
      rw [hwalk.runOn.outcome hpages' (hdisk'.symm ▸ hdisk), hwalk.runOn.outcome hpages hdisk]
    rw [Act.outcome_congr (Act.bind_ok hrun), h.outcome_walk hpages' (hdisk'.symm ▸ hdisk), hlisted]

end Cursor

end EventIndex
