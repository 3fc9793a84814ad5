import EventIndex.Proofs.Query.Semantics

/-! # Leaves on split keys

The lists of the halves of a key are shared by all keys with the same even, or the same odd, bits. A
leaf on a split key finds just the events of this key all the same: the halves determine the key
(`Half.eq_of_shares`), and what is found on both sides comes from calls for the same key, as long as
an event has no two objects in roles that overlap, and no two array indexes.

Main results:

* `exists_shared_iff`: of the keys that share halves with a key only the key itself is left.
* `describes_object`, `describes_arrayIndex`: what a leaf on a split key describes.
* `Engine.split_leaves_exact`: what a query with such a leaf finds.
-/

namespace EventIndex

theorem Role.overlaps_self (r : Role) : r.overlaps r = true := by
  simp [Role.overlaps]

variable {ops : List Operation} {x : UInt64} {event : EventId}

/-- Whether an event was indexed under an object, in a role that the one asked for stands for. -/
def onObject (ops : List Operation) (x : UInt64) (asked : Option Role) (event : EventId) : Bool :=
  ops.any fun
    | .index .object y event' r => y = x && event' = event && asked.all (·.standsForObject r)
    | _ => false

/-- Whether an event was indexed under an array index. -/
def atArrayIndex (ops : List Operation) (x : UInt64) (event : EventId) : Bool :=
  ops.any fun
    | .index .arrayIndex y event' _ => y = x && event' = event
    | _ => false

theorem onObject_iff {asked : Option Role} :
    onObject ops x asked event = true ↔
      ∃ r, Operation.index .object x event r ∈ ops ∧ asked.all (·.standsForObject r) = true := by
  rw [onObject, List.any_eq_true]
  constructor
  · rintro ⟨op, hop, hmatch⟩
    split at hmatch
    · rename_i y event' r
      simp only [Bool.and_eq_true, decide_eq_true_eq] at hmatch
      obtain ⟨⟨rfl, rfl⟩, hrole⟩ := hmatch
      exact ⟨r, hop, hrole⟩
    · cases hmatch
  · rintro ⟨r, hop, hrole⟩
    exact ⟨_, hop, by simpa using hrole⟩

theorem atArrayIndex_iff :
    atArrayIndex ops x event = true ↔ ∃ r, Operation.index .arrayIndex x event r ∈ ops := by
  rw [atArrayIndex, List.any_eq_true]
  constructor
  · rintro ⟨op, hop, hmatch⟩
    split at hmatch
    · rename_i y event' r
      simp only [Bool.and_eq_true, decide_eq_true_eq] at hmatch
      obtain ⟨rfl, rfl⟩ := hmatch
      exact ⟨r, hop⟩
    · cases hmatch
  · rintro ⟨r, hop⟩
    exact ⟨_, hop, by simp⟩

/-! ## Exact leaves -/

/-- Keys that share halves with a split key and are the same have this key. -/
theorem exists_shared_iff {d : Dimension} (event : EventId) (hd : d ≠ .role) (hx : x ≤ 2147483647)
    {P : Role → Role → Prop}
    (hP : ∀ r s, P r s → P r r)
    (hone : ∀ y z r s, Operation.index d y event r ∈ ops → Operation.index d z event s ∈ ops →
      y ≤ 2147483647 → z ≤ 2147483647 → P r s → y = z) :
    (∃ r ∈ roles ops d (Half.even.shares x) event, ∃ s ∈ roles ops d (Half.odd.shares x) event, P r s) ↔
      ∃ r, Operation.index d x event r ∈ ops ∧ P r r := by
  simp only [mem_roles_of_ne hd]
  constructor
  · rintro ⟨r, ⟨y, hy, heven⟩, s, ⟨z, hz, hodd⟩, hrs⟩
    -- the halves may come from calls for two keys, which `hone` makes one
    obtain rfl := hone y z r s hy hz (Half.shares_iff.mp heven).1 (Half.shares_iff.mp hodd).1 hrs
    obtain rfl := Half.eq_of_shares hx heven hodd
    exact ⟨r, hy, hP r s hrs⟩
  · rintro ⟨r, hop, hr⟩
    exact ⟨r, ⟨x, hop, Half.shares_self _ hx⟩, r, ⟨x, hop, Half.shares_self _ hx⟩, hr⟩

/-- An object leaf describes the events indexed under the object. -/
theorem describes_object (hx : x ≤ 2147483647) (asked : Option Role)
    (hone : ∀ y z r s, Operation.index .object y event r ∈ ops →
      Operation.index .object z event s ∈ ops → y ≤ 2147483647 → z ≤ 2147483647 →
      r.overlaps s = true → y = z) :
    Condition.describes ops event (.leaf ⟨.object, x, asked⟩) = onObject ops x asked event := by
  have htakes (r : Role) : Leaf.takes ⟨.object, x, asked⟩ r = asked.all (·.standsForObject r) := by
    cases asked <;> rfl
  rw [Bool.eq_iff_iff, onObject_iff, Condition.describes, Condition.eval]
  simp only [Leaf.describes, List.any_eq_true, Bool.and_eq_true, htakes]
  have hexact := exists_shared_iff (d := .object) event (by decide) hx
    (P := fun r s => asked.all (·.standsForObject r) = true ∧ asked.all (·.standsForObject s) = true ∧
      r.overlaps s = true)
    (fun r s hrs => ⟨hrs.1, hrs.1, r.overlaps_self⟩)
    fun y z r s hy hz hley hlez hrs => hone y z r s hy hz hley hlez hrs.2.2
  simp only [Role.overlaps_self, and_true, and_self] at hexact
  rw [← hexact]
  refine exists_congr fun r => and_congr_right fun _ => ?_
  rw [← exists_and_left]
  exact exists_congr fun s => and_left_comm

/-- An array index leaf describes the events indexed under the array index. -/
theorem describes_arrayIndex (hx : x ≤ 2147483647)
    (hone : ∀ y z r s, Operation.index .arrayIndex y event r ∈ ops →
      Operation.index .arrayIndex z event s ∈ ops → y ≤ 2147483647 → z ≤ 2147483647 → y = z) :
    Condition.describes ops event (.leaf ⟨.arrayIndex, x, none⟩) = atArrayIndex ops x event := by
  rw [Bool.eq_iff_iff, atArrayIndex_iff, Condition.describes, Condition.eval]
  simp only [Leaf.describes, Bool.and_eq_true, Bool.not_eq_true', List.isEmpty_eq_false_iff_exists_mem]
  have hexact := exists_shared_iff (d := .arrayIndex) event (by decide) hx
    (P := fun _ _ => True) (fun _ _ _ => trivial)
    fun y z r s hy hz hley hlez _ => hone y z r s hy hz hley hlez
  simpa using hexact

namespace Engine

variable {config : EngineConfig} {e : Engine}

/-- Queries for an object find the events that were indexed under it in the roles asked for, if no event
has two objects in roles that overlap, and queries for an array index find those indexed under it, if no
event has two.

Without the condition on the event there are more: an event on two objects, one with the even half of a
third and the other with its odd half, is found under the third one too, if the roles overlap. -/
theorem split_leaves_exact (h : create config = .ok e) (hi : e.Ingests ops)
    (hroom : (e.run ops).pageCount ≤ maxPages) (hx : x ≤ 2147483647) :
    ((∀ event y z r s, Operation.index .object y event r ∈ ops →
        Operation.index .object z event s ∈ ops → y ≤ 2147483647 → z ≤ 2147483647 →
        r.overlaps s = true → y = z) →
      ∀ asked, e.Finds ops (.leaf ⟨.object, x, asked⟩) (onObject ops x asked)) ∧
    ((∀ event y z r s, Operation.index .arrayIndex y event r ∈ ops →
        Operation.index .arrayIndex z event s ∈ ops → y ≤ 2147483647 → z ≤ 2147483647 → y = z) →
      e.Finds ops (.leaf ⟨.arrayIndex, x, none⟩) (atArrayIndex ops x)) := by
  refine ⟨fun hone asked => ?_, fun hone => ?_⟩
  · refine hi.finds h hroom ?_ fun event => describes_object hx asked (hone event)
    simp [Condition.isValid, Leaf.isValid, Leaf.maxValue, Leaf.mayAskRole, hx]
  · refine hi.finds h hroom ?_ fun event => describes_arrayIndex hx (hone event)
    simp [Condition.isValid, Leaf.isValid, Leaf.maxValue, hx]

section Small

variable {y z : UInt64} {r s : Role}

/-- No event of `smallOps` is on two objects in roles that overlap. -/
theorem one_object_small (hy : Operation.index .object y event r ∈ smallOps)
    (hz : Operation.index .object z event s ∈ smallOps) (hoverlaps : r.overlaps s = true) : y = z := by
  simp only [smallOps, List.mem_cons, List.not_mem_nil, reduceCtorEq, or_false, false_or,
    Operation.index.injEq, false_and, true_and] at hy hz
  -- of each two calls for objects, either the objects are the same, or the events or roles rule them out
  rcases hy with ⟨rfl, rfl, rfl⟩ | ⟨rfl, rfl, rfl⟩ | ⟨rfl, rfl, rfl⟩ | ⟨rfl, rfl, rfl⟩ <;>
    rcases hz with ⟨rfl, hevent, rfl⟩ | ⟨rfl, hevent, rfl⟩ | ⟨rfl, hevent, rfl⟩ | ⟨rfl, hevent, rfl⟩ <;>
    first | rfl | exact absurd hevent (by decide) | exact absurd hoverlaps (by decide)

/-- No event of `smallOps` has two array indexes. -/
theorem one_array_index_small (hy : Operation.index .arrayIndex y event r ∈ smallOps)
    (hz : Operation.index .arrayIndex z event s ∈ smallOps) : y = z := by
  simp only [smallOps, List.mem_cons, List.not_mem_nil, reduceCtorEq, or_false, false_or,
    Operation.index.injEq, false_and, true_and] at hy hz
  rw [hy.1, hz.1]

end Small

set_option maxRecDepth 4000 in
/-- The third event is in the lists of both halves of 42, but by the target in the one and by the result in
the other. -/
theorem split_leaves_exact_small :
    ∃ e, create small = .ok e ∧ e.Ingests smallOps ∧
      e.Finds smallOps (.leaf ⟨.object, 42, none⟩) (onObject smallOps 42 none) ∧
      (∃ found, Act.outcome (Query.events (.leaf ⟨.object, 42, none⟩) 0 10) (e.run smallOps) = .ok found ∧
        found.map Query.dateOf = [(0, 5), (1, 7)]) ∧
      e.Finds smallOps (.leaf ⟨.object, 42, some .target⟩) (onObject smallOps 42 (some .target)) ∧
      (∃ found, Act.outcome (Query.events (.leaf ⟨.object, 42, some .target⟩) 0 10) (e.run smallOps) =
          .ok found ∧ found.map Query.dateOf = [(0, 5)]) ∧
      e.Finds smallOps (.leaf ⟨.arrayIndex, 3, none⟩) (atArrayIndex smallOps 3) ∧
      ∃ found, Act.outcome (Query.events (.leaf ⟨.arrayIndex, 3, none⟩) 0 10) (e.run smallOps) =
          .ok found ∧ found.map Query.dateOf = [(2, 7)] := by
  obtain ⟨e, he⟩ : ∃ e, create small = .ok e := ⟨_, rfl⟩
  have hroom : (e.run smallOps).pageCount ≤ maxPages := by
    cases he
    cbv
  have hobjects := (split_leaves_exact he (ingests_small he) hroom (x := 42) (by decide)).1
    fun _ _ _ _ _ hy hz _ _ => one_object_small hy hz
  have hindexes := (split_leaves_exact he (ingests_small he) hroom (x := 3) (by decide)).2
    fun _ _ _ _ _ hy hz _ _ => one_array_index_small hy hz
  refine ⟨e, he, ingests_small he, hobjects none, ?_, hobjects (some .target), ?_, hindexes, ?_⟩
  · refine ⟨[⟨0, 5, .target⟩, ⟨1, 7, .result⟩], ?_, rfl⟩
    cases he
    cbv
  · refine ⟨[⟨0, 5, .target⟩], ?_, rfl⟩
    cases he
    cbv
  · refine ⟨[⟨2, 7, .any⟩], ?_, rfl⟩
    cases he
    cbv

end Engine

end EventIndex
