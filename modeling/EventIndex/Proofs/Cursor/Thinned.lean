import EventIndex.Proofs.Cursor.Distinct
import EventIndex.Proofs.Cursor.Filter
import EventIndex.Proofs.Cursor.Retracing
import EventIndex.Proofs.Cursor.Search

/-! # Filters as cursors

A filter over a cursor is a cursor over a part of its list.

- With one tuple for each key, the part has the first tuple of every run of equal keys (`opens_firsts`). The
  inner gap must lie between two runs when the filter is put on, and lies there ever after. A tuple is
  returned as the first of its key whichever way a step goes.
- With allowed roles, the part has the tuples that pass (`opens_allowed`). The inner gap may lie anywhere in a
  stretch of tuples that do not pass, and a look moves it within the stretch; the place in the part is the
  number of passing tuples before the inner gap, which no look changes.

In both cases steps can be undone and looks leave no trace.
-/

namespace EventIndex

open Cursor EventIndex.Tuple

variable {C : Type} [Cursor C] {ds : Disks} {c : C} {ts us vs : List Tuple} {t u : Tuple} {p : Nat}

/-! ## One tuple for each key -/

namespace Distinct

/-- One tuple for each key of a list, the first one with this key, in the order of keys. -/
structure IsFirsts (ts us : List Tuple) : Prop where
  ordered : us.Pairwise fun t u => t.key < u.key
  keys : ∀ key, (∃ u ∈ us, u.key = key) ↔ ∃ t ∈ ts, t.key = key
  first : ∀ u ∈ us, firstAt u.key ts = some u

/-- Where each key occurs once, a tuple is the first with its key. -/
theorem firstAt_of_mem (h : us.Pairwise fun t u => t.key < u.key) (hu : u ∈ us) :
    firstAt u.key us = some u := by
  obtain ⟨as, bs, rfl⟩ := List.append_of_mem hu
  refine List.find?_eq_some_iff_append.mpr ⟨by simp, as, bs, rfl, ?_⟩
  intro x hx
  -- what comes before it has a lesser key
  have hless := (List.pairwise_append.mp h).2.2 x hx u List.mem_cons_self
  simpa using UInt64.ne_of_lt hless

/-- The first tuple from a key on is the first of a run. -/
theorem firstFrom_firsts (h : Sorted ts) (key : UInt64) :
    firstFrom (firsts ts) key = firstFrom ts key := by
  rw [firstFrom, ← runs_place h, (between_place h key).getElem?_runs]
  rfl

theorem isFirsts_firsts (h : Sorted ts) : IsFirsts ts (firsts ts) where
  ordered := firsts_pairwise ts
  keys := by
    intro key
    exact exists_mem_firsts_iff h
  first := by
    intro u hu
    have hsorted : Sorted (firsts ts) := (firsts_pairwise ts).imp UInt64.le_of_lt
    rw [← firstFrom_eq_firstAt h ((firsts_sublist ts).mem hu), ← firstFrom_firsts h,
      firstFrom_eq_firstAt hsorted hu, firstAt_of_mem (firsts_pairwise ts) hu]

/-- There is no more than one such list. -/
theorem IsFirsts.unique (hu : IsFirsts ts us) (hv : IsFirsts ts vs) : us = vs := by
  -- which tuples are in the list can be told from the first ones of their keys
  have hmem : ∀ {us}, IsFirsts ts us → ∀ u, u ∈ us ↔ firstAt u.key ts = some u := by
    intro us h u
    constructor
    · exact h.first u
    · intro hfirst
      obtain ⟨v, hv, hkey⟩ := (h.keys u.key).mpr ⟨u, mem_of_firstAt hfirst, rfl⟩
      have hsame := h.first v hv
      rw [hkey, hfirst, Option.some.injEq] at hsame
      rwa [hsame]
  exact eq_of_strict hu.ordered hv.ordered fun u => (hmem hu u).trans (hmem hv u).symm

/-- The runs before a place between two runs are those with a key before it. -/
theorem Between.runs_eq_countP (h : Between ts p) :
    runs ts p = (firsts ts).countP fun u => (ts.take p).any (·.key = u.key) := by
  rw [h.firsts_eq, List.countP_append, List.countP_eq_length.mpr, List.countP_eq_zero.mpr]
  · rfl
  · -- a run behind the place has a greater key than all before it
    intro u hu hany
    obtain ⟨x, hx, hkey⟩ := List.any_eq_true.mp hany
    have hless := h x hx u ((firsts_sublist _).mem hu)
    exact UInt64.ne_of_lt hless (of_decide_eq_true hkey)
  · intro u hu
    exact List.any_eq_true.mpr ⟨u, (firsts_sublist _).mem hu, decide_eq_true rfl⟩

/-- With one tuple for each key, a cursor between two runs becomes a cursor over the first tuples of the runs,
behind those whose keys lie before its gap. Steps can be undone and looks leave no trace, and all that is ever
found for a key is its first tuple.

The inner cursor has to stand between two runs, as it does after a seek; each step then leaves it
between two runs. -/
theorem opens_firsts (h : Shows ds c ts p) (hbetween : Between ts p) :
    ∃ us, IsFirsts ts us ∧
      Opens ds (pure (⟨c⟩ : Distinct C)) us
        (us.countP fun u => (ts.take p).any (·.key = u.key)) ∧
      Retraces ds (pure (⟨c⟩ : Distinct C)) ∧
      ∀ pages : PageFile, pages.Sound → ds pages.disk → ∀ moves found,
        Act.outcome (walkFrom (pure (⟨c⟩ : Distinct C)) moves) pages = .ok found →
        ∀ t, some t ∈ found → firstAt t.key ts = some t := by
  have hfirsts := isFirsts_firsts h.sorted
  have hopens : Opens ds (pure (⟨c⟩ : Distinct C)) (firsts ts) (runs ts p) :=
    .of_shows (.pure _) (h.distinct hbetween)
  rw [hbetween.runs_eq_countP] at hopens
  refine ⟨_, hfirsts, hopens, hopens.retraces, ?_⟩
  intro pages hpages hdisk moves found hfound t ht
  rw [hopens.outcome_walkFrom hpages hdisk, Except.ok.injEq] at hfound
  subst hfound
  exact hfirsts.first t (Move.mem_of_mem_finds ht)

/-- Key 1 three times, key 5 twice; the gap lies between the two runs. -/
theorem opens_firsts_small :
    Opens (fun _ => True)
      (pure (⟨Listed.standing [tagged 1 .target, tagged 1 .value, tagged 1 .any, tagged 5 .value,
        tagged 5 .target] 3⟩ : Distinct Listed))
      [tagged 1 .target, tagged 5 .value] 1 := by
  have hshows : Shows (fun _ => True)
      (Listed.standing [tagged 1 .target, tagged 1 .value, tagged 1 .any, tagged 5 .value,
        tagged 5 .target] 3) _ 3 := Listed.shows _ (by decide) (by decide)
  obtain ⟨us, hus, hopens, -⟩ := opens_firsts hshows (by unfold Between; decide)
  have heq : us = [tagged 1 .target, tagged 5 .value] :=
    hus.unique (isFirsts_firsts (by decide))
  subst heq
  exact hopens

end Distinct

/-! ## Allowed roles -/

namespace RoleFilter

theorem accepts_eq (allowed : List Role) :
    accepts allowed = fun t => t.role.all (allowed.contains ·) := by
  funext t
  rw [accepts]
  cases t.role <;> rfl

/-- With allowed roles, a cursor becomes a cursor over the tuples whose role, if they have one, is allowed,
behind those of them that lie before its gap. A look moves the inner gap and changes no later answer.

The inner cursor may stand anywhere. Between two gaps without an allowed tuple in between, the filter
tells no difference. -/
theorem opens_allowed (h : Shows ds c ts p) (allowed : List Role) :
    Opens ds (pure (⟨c, allowed⟩ : RoleFilter C))
        (ts.filter fun t => t.role.all (allowed.contains ·))
        ((ts.take p).countP fun t => t.role.all (allowed.contains ·)) ∧
      Retraces ds (pure (⟨c, allowed⟩ : RoleFilter C)) := by
  have hopens : Opens ds (pure (⟨c, allowed⟩ : RoleFilter C)) (ts.filter (accepts allowed))
      (passed allowed ts p) := .of_shows (.pure _) (h.filtered allowed)
  rw [passed, accepts_eq] at hopens
  exact ⟨hopens, hopens.retraces⟩

/-- The inner gap lies within tuples that do not pass, which are at both ends as well. -/
theorem opens_allowed_small :
    Opens (fun _ => True)
      (pure (⟨Listed.standing [tagged 1 .value, tagged 2 .target, tagged 2 .value, tagged 3 .value,
        tagged 4 .target, tagged 6 .value] 3, [.target]⟩ : RoleFilter Listed))
      [tagged 2 .target, tagged 4 .target] 1 := by
  have hshows : Shows (fun _ => True)
      (Listed.standing [tagged 1 .value, tagged 2 .target, tagged 2 .value, tagged 3 .value,
        tagged 4 .target, tagged 6 .value] 3) _ 3 := Listed.shows _ (by decide) (by decide)
  exact (opens_allowed hshows [.target]).1

end RoleFilter

end EventIndex
