import Mathlib.Algebra.GroupWithZero.Nat
import Mathlib.Data.List.Count
import EventIndex.Index.Engine
import EventIndex.Proofs.Act

/-! # Counting behaviors

The counters keep the events of low behaviors in an array and those of the others in a map. A count is
read from the array wherever the array reaches, and it is written there below `denseLimit`. Both come
to the same place because the array never reaches beyond the limit and the map holds no behavior below
it (`Routed`).

`increment_cases` says all that counting an event does. From it follows, for events of any behaviors in
any order, that a count tells how many events of its behavior were counted (`counts_events`).

Main results:

* `Routed.increment_cases`: what counting one event does, for behaviors below the limit and above it.
* `Routed.countAll`: what counting many does, by induction on them.
* `count_eq_min`: a count in closed form.
-/

namespace EventIndex

namespace BehaviorCounters

variable {c c' : BehaviorCounters} {b b' : UInt32} {dense : Array UInt32} {slot i : Nat}

/-! ## The array -/

/-- The next power is a power of two, it is large enough, and no smaller one is. -/
theorem nextPower_spec (n : Nat) :
    (∃ k, nextPower n = 2 ^ k) ∧ n ≤ nextPower n ∧ ∀ k, n ≤ 2 ^ k → nextPower n ≤ 2 ^ k := by
  rw [nextPower]
  by_cases hn : n ≤ 1
  · rw [if_pos hn]
    exact ⟨⟨0, rfl⟩, hn, fun k _ => Nat.one_le_two_pow⟩
  · rw [if_neg hn, Nat.one_shiftLeft]
    have habove : n - 1 < 2 ^ ((n - 1).log2 + 1) := Nat.lt_log2_self
    refine ⟨⟨_, rfl⟩, by omega, fun k hk => Nat.pow_le_pow_right Nat.two_pos ?_⟩
    have hbelow : n - 1 < 2 ^ k := by omega
    exact (Nat.log2_lt (by omega)).mpr hbelow

theorem size_grown_le (h : dense.size ≤ denseLimit) : (grown dense slot).size ≤ denseLimit := by
  rw [grown]
  split
  · exact h
  · rw [Array.size_append, Array.size_replicate]
    have hcapped : min (nextPower (slot + 1)) denseLimit ≤ denseLimit := Nat.min_le_right _ _
    omega

/-- There is room for the behavior that the array was to grow for. -/
theorem lt_size_grown (dense : Array UInt32) (h : slot < denseLimit) :
    slot < (grown dense slot).size := by
  rw [grown]
  split
  · assumption
  · rw [Array.size_append, Array.size_replicate]
    have hroom : slot < min (nextPower (slot + 1)) denseLimit :=
      Nat.lt_min.mpr ⟨(nextPower_spec _).2.1, h⟩
    omega

/-- Growing shows in no count. -/
theorem getD_grown (dense : Array UInt32) (slot i : Nat) :
    (grown dense slot)[i]?.getD 0 = dense[i]?.getD 0 := by
  rw [grown]
  split
  · rfl
  · by_cases hi : i < dense.size
    · rw [Array.getElem?_append_left hi]
    · rw [Array.getElem?_append_right (Nat.le_of_not_lt hi),
        Array.getElem?_eq_none (Nat.le_of_not_lt hi), Array.getElem?_replicate]
      split <;> rfl

/-! ## Where counts are kept -/

/-- The array and the map share the behaviors at the limit. -/
structure Routed (c : BehaviorCounters) : Prop where
  size_le : c.dense.size ≤ denseLimit
  sparse_high : ∀ b ∈ c.sparse, denseLimit ≤ b.toNat

theorem routed_create (initial : Nat) : (create initial).Routed where
  size_le := by
    rw [create, Array.size_replicate]
    exact Nat.min_le_right _ _
  sparse_high b hb := absurd hb Std.HashMap.not_mem_empty

theorem count_create (initial : Nat) (b : UInt32) : (create initial).count b = 0 := by
  rw [count, create, Array.getElem?_replicate]
  split
  · rename_i n hn
    split at hn
    · exact (Option.some.inj hn).symm
    · cases hn
  · exact congrArg (Option.getD · 0) Std.HashMap.getElem?_empty

/-- Below the limit, what is not in the array is not in the map either. -/
theorem Routed.count_low (h : c.Routed) (hb : b.toNat < denseLimit) :
    c.count b = c.dense[b.toNat]?.getD 0 := by
  rw [count]
  cases hdense : c.dense[b.toNat]? with
  | some n => rfl
  | none =>
    have hsparse : b ∉ c.sparse := fun hmem => absurd (h.sparse_high b hmem) (Nat.not_le.mpr hb)
    simp only [Std.HashMap.getElem?_eq_none hsparse, Option.getD_none]

/-- From the limit on counts are read from the map. -/
theorem Routed.count_high (h : c.Routed) (hb : denseLimit ≤ b.toNat) :
    c.count b = c.sparse[b]?.getD 0 := by
  rw [count, Array.getElem?_eq_none (Nat.le_trans h.size_le hb)]

/-! ## Counting an event -/

/-- The same counts, kept in the same places. -/
structure Same (c c' : BehaviorCounters) : Prop where
  dense_eq : c'.dense = c.dense
  sparse_equiv : c'.sparse.Equiv c.sparse

theorem Same.count_eq (h : Same c c') (b : UInt32) : c'.count b = c.count b := by
  rw [count, count, h.dense_eq, h.sparse_equiv.getElem?_eq]

/-- One more event of a behavior, and no event of any other. -/
structure OneMore (b : UInt32) (c c' : BehaviorCounters) : Prop where
  own : (c'.count b).toNat = (c.count b).toNat + 1
  others : ∀ b', b' ≠ b → c'.count b' = c.count b'

theorem toNat_succ {n : UInt32} (h : n ≠ maxCount) : (n + 1).toNat = n.toNat + 1 := by
  have hne : n.toNat ≠ 4294967295 := fun heq => h (UInt32.toNat_inj.mp heq)
  have hlt := n.toNat_lt
  rw [UInt32.toNat_add]
  show (n.toNat + 1) % 4294967296 = _
  omega

/-- From the limit on an event is counted in the map, unless its counter is full. -/
theorem increment_high (c : BehaviorCounters) (hb : denseLimit ≤ b.toNat) :
    increment b c =
      if c.sparse[b]?.getD 0 = maxCount then
        .error (.counterSaturated b) ⟨c.dense, c.sparse.insert b (c.sparse[b]?.getD 0)⟩
      else .ok () ⟨c.dense, c.sparse.insert b (c.sparse[b]?.getD 0 + 1)⟩ := by
  rw [increment]
  exact if_pos hb

/-- Below the limit an event is counted in the array, which grows for it, unless its counter is full. -/
theorem increment_low (c : BehaviorCounters) (hb : b.toNat < denseLimit) :
    increment b c =
      if c.dense[b.toNat]?.getD 0 = maxCount then
        .error (.counterSaturated b) ⟨grown c.dense b.toNat, c.sparse⟩
      else
        .ok () ⟨(grown c.dense b.toNat).setIfInBounds b.toNat (c.dense[b.toNat]?.getD 0 + 1),
          c.sparse⟩ := by
  have hread : (grown c.dense b.toNat).getD b.toNat 0 = c.dense[b.toNat]?.getD 0 := by
    rw [Array.getD_eq_getD_getElem?, getD_grown]
  rw [increment, ← hread]
  exact if_neg (Nat.not_le.mpr hb)

/-- A full counter was in its place before. -/
theorem same_of_full_low (hfull : c.dense[b.toNat]?.getD 0 = maxCount) :
    Same c ⟨grown c.dense b.toNat, c.sparse⟩ := by
  -- past the end of the array a count is zero
  have hslot : b.toNat < c.dense.size := by
    by_contra hout
    rw [Array.getElem?_eq_none (Nat.le_of_not_lt hout)] at hfull
    exact absurd hfull (by decide)
  exact ⟨if_pos hslot, .refl _⟩

theorem same_of_full_high (hfull : c.sparse[b]?.getD 0 = maxCount) :
    Same c ⟨c.dense, c.sparse.insert b (c.sparse[b]?.getD 0)⟩ := by
  -- the count that was read is written back
  refine ⟨rfl, Std.HashMap.Equiv.of_forall_getElem?_eq fun b' => ?_⟩
  rw [Std.HashMap.getElem?_insert]
  split
  · rename_i heq
    rw [← eq_of_beq heq]
    cases hfind : c.sparse[b]? with
    | some n => rfl
    | none =>
      rw [hfind] at hfull
      exact absurd hfull (by decide)
  · rfl

/-- A low behavior is counted where the array holds it. -/
theorem Routed.oneMore_low (h : c.Routed) (hb : b.toNat < denseLimit) {n : UInt32}
    (hn : n.toNat = (c.dense[b.toNat]?.getD 0).toNat + 1) :
    let c' : BehaviorCounters := ⟨(grown c.dense b.toNat).setIfInBounds b.toNat n, c.sparse⟩
    c'.Routed ∧ OneMore b c c' := by
  intro c'
  have hsize : c'.dense.size = (grown c.dense b.toNat).size := Array.size_setIfInBounds
  have hrouted : c'.Routed := ⟨hsize ▸ size_grown_le h.size_le, h.sparse_high⟩
  refine ⟨hrouted, ?_, fun b' hne => ?_⟩
  · have hslot := lt_size_grown c.dense hb
    rw [hrouted.count_low hb, h.count_low hb, Array.getElem?_setIfInBounds_self_of_lt hslot]
    exact hn
  · by_cases hb' : b'.toNat < denseLimit
    · have hslots : b.toNat ≠ b'.toNat := fun heq => hne (UInt32.toNat_inj.mp heq).symm
      rw [hrouted.count_low hb', h.count_low hb', Array.getElem?_setIfInBounds_ne hslots, getD_grown]
    · rw [hrouted.count_high (Nat.le_of_not_lt hb'), h.count_high (Nat.le_of_not_lt hb')]

/-- A high behavior is counted in the map. -/
theorem Routed.oneMore_high (h : c.Routed) (hb : denseLimit ≤ b.toNat) {n : UInt32}
    (hn : n.toNat = (c.sparse[b]?.getD 0).toNat + 1) :
    let c' : BehaviorCounters := ⟨c.dense, c.sparse.insert b n⟩
    c'.Routed ∧ OneMore b c c' := by
  intro c'
  have hrouted : c'.Routed := by
    refine ⟨h.size_le, fun b' hb' => ?_⟩
    obtain heq | hmem := Std.HashMap.mem_insert.mp hb'
    · rwa [← eq_of_beq heq]
    · exact h.sparse_high b' hmem
  refine ⟨hrouted, ?_, fun b' hne => ?_⟩
  · rw [hrouted.count_high hb, h.count_high hb, Std.HashMap.getElem?_insert_self]
    exact hn
  · have hkeys : (b == b') = false := beq_eq_false_iff_ne.mpr hne.symm
    rw [count, count, Std.HashMap.getElem?_insert, hkeys]
    rfl

/-- All that counting an event does. -/
theorem Routed.increment_cases (h : c.Routed) (b : UInt32) :
    (c.count b = maxCount ∧ ∃ c', increment b c = .error (.counterSaturated b) c' ∧ Same c c') ∨
    (c.count b ≠ maxCount ∧ ∃ c', increment b c = .ok () c' ∧ c'.Routed ∧ OneMore b c c') := by
  by_cases hb : b.toNat < denseLimit
  · rw [increment_low c hb, h.count_low hb]
    by_cases hfull : c.dense[b.toNat]?.getD 0 = maxCount
    · rw [if_pos hfull]
      exact .inl ⟨hfull, _, rfl, same_of_full_low hfull⟩
    · rw [if_neg hfull]
      exact .inr ⟨hfull, _, rfl, h.oneMore_low hb (toNat_succ hfull)⟩
  · have hhigh : denseLimit ≤ b.toNat := Nat.le_of_not_lt hb
    rw [increment_high c hhigh, h.count_high hhigh]
    by_cases hfull : c.sparse[b]?.getD 0 = maxCount
    · rw [if_pos hfull]
      exact .inl ⟨hfull, _, rfl, same_of_full_high hfull⟩
    · rw [if_neg hfull]
      exact .inr ⟨hfull, _, rfl, h.oneMore_high hhigh (toNat_succ hfull)⟩

theorem Same.routed (h : Same c c') (hc : c.Routed) : c'.Routed where
  size_le := h.dense_eq ▸ hc.size_le
  sparse_high b hb := hc.sparse_high b (h.sparse_equiv.mem_iff.mp hb)

/-! ## Counting many events -/

/-- Counts an event of each behavior, one after another, and tells the events that were counted. -/
def countAll : List UInt32 → BehaviorCounters → List UInt32 × BehaviorCounters
  | [], c => ([], c)
  | b :: behaviors, c =>
    match increment b c with
    | .ok () c =>
      let (counted, c) := countAll behaviors c
      (b :: counted, c)
    | .error _ c => countAll behaviors c

/-- What was counted before and what is counted now add up. -/
theorem Routed.countAll (h : c.Routed) (behaviors : List UInt32) :
    (countAll behaviors c).2.Routed ∧
    ∀ b, ((countAll behaviors c).2.count b).toNat =
      (c.count b).toNat + (countAll behaviors c).1.count b := by
  induction behaviors generalizing c with
  | nil => exact ⟨h, fun b => rfl⟩
  | cons b behaviors ih =>
    rw [BehaviorCounters.countAll]
    obtain ⟨-, c', hrun, hsame⟩ | ⟨-, c', hrun, hc', hmore⟩ := h.increment_cases b
    · obtain ⟨hrouted, hcount⟩ := ih (hsame.routed h)
      rw [hrun]
      exact ⟨hrouted, fun b' => by rw [hcount b', hsame.count_eq]⟩
    · obtain ⟨hrouted, hcount⟩ := ih hc'
      rw [hrun]
      -- the event stands in front of those that are counted later
      refine ⟨hrouted, fun b' => ?_⟩
      show ((BehaviorCounters.countAll behaviors c').2.count b').toNat =
        _ + (b :: (BehaviorCounters.countAll behaviors c').1).count b'
      rw [hcount b']
      by_cases heq : b' = b
      · subst heq
        rw [hmore.own, List.count_cons_self]
        omega
      · rw [hmore.others b' heq, List.count_cons_of_ne (Ne.symm heq)]

/-- What counters promise once these events were counted, the last call included. -/
structure Tells (c : BehaviorCounters) (counted : List UInt32) : Prop where
  count_eq : ∀ b, (c.count b).toNat = counted.count b
  full : ∀ b, c.count b = maxCount →
    ∃ c', increment b c = .error (.counterSaturated b) c' ∧ Same c c'
  room : ∀ b, c.count b ≠ maxCount → ∃ c', increment b c = .ok () c' ∧ OneMore b c c'
  size_le : c.dense.size ≤ denseLimit
  in_bounds : ∀ b : UInt32, b.toNat < denseLimit → b.toNat < (grown c.dense b.toNat).size

/-- Whatever room there is from the start and whichever events are counted, in whatever order: a count
is the number of events of its behavior that were counted. The next event is refused only if its
counter is full, and then nothing changes; or else it raises its own count and no other. The array
keeps to the limit and is never asked for more than it holds.

There is no assumption on the behaviors: those below the limit are counted in the array, the others in
the map, and where a counter is kept shows in no count. -/
theorem counts_events (initial : Nat) (behaviors : List UInt32) :
    Tells (countAll behaviors (create initial)).2 (countAll behaviors (create initial)).1 := by
  obtain ⟨hrouted, hcount⟩ := (routed_create initial).countAll behaviors
  refine ⟨fun b => ?_, fun b hfull => ?_, fun b hroom => ?_, hrouted.size_le,
    fun b hb => lt_size_grown _ hb⟩
  · rw [hcount b, count_create]
    exact Nat.zero_add _
  · obtain ⟨-, hrefused⟩ | ⟨hroom, -⟩ := hrouted.increment_cases b
    · exact hrefused
    · exact absurd hfull hroom
  · obtain ⟨hfull, -⟩ | ⟨-, c', hrun, -, hmore⟩ := hrouted.increment_cases b
    · exact absurd hfull hroom
    · exact ⟨c', hrun, hmore⟩

/-- A count is the number of all events of its behavior, as far as a counter goes. -/
theorem count_eq_min (initial : Nat) (behaviors : List UInt32) (b : UInt32) :
    ((countAll behaviors (create initial)).2.count b).toNat =
      min (behaviors.count b) maxCount.toNat := by
  -- from any counters on, what is counted already takes part of the room
  have hrun {c : BehaviorCounters} (h : c.Routed) :
      ((countAll behaviors c).2.count b).toNat =
        min ((c.count b).toNat + behaviors.count b) maxCount.toNat := by
    induction behaviors generalizing c with
    | nil =>
      have hle : (c.count b).toNat ≤ maxCount.toNat := Nat.le_of_lt_succ (c.count b).toNat_lt
      exact (Nat.min_eq_left hle).symm
    | cons b' behaviors ih =>
      rw [countAll]
      obtain ⟨hfull, c', hrun, hsame⟩ | ⟨-, c', hrun, hc', hmore⟩ := h.increment_cases b'
      · rw [hrun]
        show ((countAll behaviors c').2.count b).toNat = _
        rw [ih (hsame.routed h), hsame.count_eq]
        by_cases heq : b' = b
        · subst heq
          rw [hfull, Nat.min_eq_right (Nat.le_add_right _ _), Nat.min_eq_right (Nat.le_add_right _ _)]
        · rw [List.count_cons_of_ne heq]
      · rw [hrun]
        show ((countAll behaviors c').2.count b).toNat = _
        rw [ih hc']
        by_cases heq : b' = b
        · subst heq
          rw [hmore.own, List.count_cons_self, Nat.add_right_comm, Nat.add_assoc]
        · rw [hmore.others b (Ne.symm heq), List.count_cons_of_ne heq]
  rw [hrun (routed_create initial), count_create]
  exact congrArg (min · _) (Nat.zero_add _)

end BehaviorCounters

namespace Engine

/-- An engine counts an event with its counters and changes nothing else. -/
theorem countBehavior_run (b : UInt32) (e : Engine) :
    Act.outcome (countBehavior b) e = Act.outcome (BehaviorCounters.increment b) e.counters ∧
    Act.after (countBehavior b) e =
      { e with counters := Act.after (BehaviorCounters.increment b) e.counters } := by
  rw [Act.outcome, Act.after, countBehavior, Act.outcome, Act.after]
  cases BehaviorCounters.increment b e.counters with
  | ok a c => exact ⟨rfl, rfl⟩
  | error e c => exact ⟨rfl, rfl⟩

end Engine

end EventIndex
