import Mathlib
import EventIndex.Proofs.Cursor.Disjunction
import EventIndex.Proofs.Cursor.Listed

/-! # Unions as cursors

A union of several heads is a cursor over `joins`, which has one tuple for each key that some head has:
the first of the first head that has it (`opens_union`). A step forward finds it as the least of the next
keys; a step back finds the greatest of the last keys and looks up the tuple again. The list has only one
tuple for the key, so both ways give this one.
-/

namespace EventIndex

open Cursor Heads EventIndex.Tuple

namespace Disjunction

variable {C : Type} [Cursor C] {ds : Disks} {heads : List C} {inputs : List (List Tuple × Nat)}
  {lists : List (List Tuple)} {t : Tuple} {key : UInt64}

/-- One tuple for each key that some list has, in the order of keys: the first one in the first list that
has the key. -/
structure IsUnion (lists : List (List Tuple)) (ts : List Tuple) : Prop where
  ordered : ts.Pairwise fun t u => t.key < u.key
  keys : ∀ key, (∃ t ∈ ts, t.key = key) ↔ ∃ us ∈ lists, ∃ u ∈ us, u.key = key
  /-- No list before the one of the tuple has its key. -/
  chosen : ∀ t ∈ ts, ∃ before us after, lists = before ++ us :: after ∧
    firstAt t.key us = some t ∧ ∀ vs ∈ before, ∀ v ∈ vs, v.key ≠ t.key

theorem joinAt_eq_some_iff :
    joinAt lists key = some t ↔ ∃ before us after, lists = before ++ us :: after ∧
      firstAt key us = some t ∧ ∀ vs ∈ before, ∀ v ∈ vs, v.key ≠ key := by
  simp only [joinAt, List.findSome?_eq_some_iff, firstAt_eq_none_iff]

theorem isUnion_joins (lists : List (List Tuple)) : IsUnion lists (joins lists) where
  ordered := (merges_joins lists).strict
  keys := by
    intro key
    rw [(merges_joins lists).exists_key_iff fun t ht => (joinAt_mem ht).1, joinAt_isSome_iff]
  chosen := by
    intro t ht
    exact joinAt_eq_some_iff.mp ((merges_joins lists).pick_eq ht)

/-- There is no more than one such list. -/
theorem IsUnion.unique {ts us : List Tuple} (ht : IsUnion lists ts) (hu : IsUnion lists us) :
    ts = us := by
  have hmem : ∀ {ts}, IsUnion lists ts → ∀ t, t ∈ ts ↔ joinAt lists t.key = some t := by
    intro ts ht t
    have hpick : ∀ u ∈ ts, joinAt lists u.key = some u := by
      intro u hu
      exact joinAt_eq_some_iff.mpr (ht.chosen u hu)
    refine ⟨hpick t, ?_⟩
    intro htpick
    have hsome : (joinAt lists t.key).isSome = true := by rw [htpick, Option.isSome_some]
    obtain ⟨u, hu, hkey⟩ := (ht.keys t.key).mpr (joinAt_isSome_iff.mp hsome)
    have hupick := hpick u hu
    rw [hkey, htpick, Option.some.injEq] at hupick
    rwa [hupick]
  exact eq_of_strict ht.ordered hu.ordered fun t => (hmem ht t).trans (hmem hu t).symm

/-- The union of several cursors is a cursor over the tuples of all their keys. It starts behind the
results that a head has reached.

A head that has passed a key has the union start behind it, even if other heads have not come so far. -/
theorem opens_union (h : Stand ds heads inputs) (hlen : heads.length ≠ 1)
    (hmax : ∀ input ∈ inputs, ∀ t ∈ input.1, t.key ≠ maxKey) :
    ∃ ts, IsUnion (inputs.map Prod.fst) ts ∧
      Opens ds (ofHeads heads) ts (ts.countP fun t => reaches inputs t.key) := by
  obtain ⟨x, hread, h', hboundary⟩ := reads_opened h
  have hjoins := joins_of_stand h' hmax (List.Forall₂.length_eq h ▸ hlen)
  have hgap : place (joins (inputs.map Prod.fst)) x.boundary =
      (joins (inputs.map Prod.fst)).countP fun t => reaches inputs t.key := by
    refine List.countP_congr fun t _ => ?_
    rw [decide_eq_true_eq]
    exact hboundary hmax t.key
  refine ⟨_, isUnion_joins _, ?_⟩
  rw [← hgap]
  exact .of_shows hread ((bounded_joins ds).mimicry.shows ⟨x.boundary, hjoins, rfl⟩)

/-- Key 4 is in both heads, twice in the second; its tuple is the one of the first head. -/
theorem opens_union_small :
    Opens (fun _ => True)
      (ofHeads [Listed.standing [tagged 4 .target, tagged 6 .value] 0,
        Listed.standing [tagged 1 .any, tagged 4 .value, tagged 4 .result] 2])
      [tagged 1 .any, tagged 4 .target, tagged 6 .value] 2 := by
  have hstand : Stand (fun _ => True)
      [Listed.standing [tagged 4 .target, tagged 6 .value] 0,
        Listed.standing [tagged 1 .any, tagged 4 .value, tagged 4 .result] 2]
      [([tagged 4 .target, tagged 6 .value], 0),
        ([tagged 1 .any, tagged 4 .value, tagged 4 .result], 2)] :=
    .cons (Listed.shows _ (by decide) (by decide)) (.cons (Listed.shows _ (by decide) (by decide)) .nil)
  obtain ⟨ts, hts, hopens⟩ := opens_union hstand (by decide) (by decide)
  have hresult : joins [[tagged 4 .target, tagged 6 .value],
      [tagged 1 .any, tagged 4 .value, tagged 4 .result]] =
      [tagged 1 .any, tagged 4 .target, tagged 6 .value] := by cbv
  have heq : ts = [tagged 1 .any, tagged 4 .target, tagged 6 .value] :=
    (hts.unique (isUnion_joins _)).trans hresult
  subst heq
  exact hopens

end Disjunction

end EventIndex
