import EventIndex.Query.Plan

/-! # Satisfaction — which events a condition selects

A condition is about lists: each value of each set has one. `Condition.holds` says of one event
whether it satisfies a condition, by looking for tuples of the event in these lists and without any
cursor.

A leaf holds on a tuple of the event whose role it accepts. On a split key it needs one such tuple in
the list of each half, and for objects the two tuples must have compatible roles.

Which roles a leaf accepts is said here by what the role it asks for stands for
(`Role.standsForObject`, `Role.standsForBehavior`). The lists of roles that a cursor is filtered by are
another matter; that they come to the same is `Leaf.accepts_eq`.

Main results:

* `Role.contains_objectExpansion`, `Role.contains_behaviorExpansion`, `Role.compatible_eq`: the tables
  of roles come to what the roles stand for.
* `Leaf.accepts_eq`: the filter of a leaf passes the tuples that the leaf accepts.
* `Leaf.holds_iff_of_set`, `Leaf.holds_iff_of_arrayIndex`, `Leaf.holds_iff_of_object`: when a leaf
  holds, for each way of keeping its values.
-/

namespace EventIndex

/-- The lists of an index. -/
abbrev Lists := SetId → ValueId → List Tuple

/-! ## What roles stand for -/

namespace Role

/-- Whether a role that is asked for stands for an object role: `any` stands for all of them, `anyArg` for
the argument positions, and every other role for itself. -/
def standsForObject (asked r : Role) : Bool :=
  if asked = any then true
  else if asked = anyArg then 1 ≤ r.code && r.code ≤ 127
  else r = asked

/-- Whether a role that is asked for stands for a behavior role: `behaviorAny` stands for `called`,
`executed`, `exit` and `operation`, `behaviorEnter` for the first two of these, and every other role for
itself. -/
def standsForBehavior (asked r : Role) : Bool :=
  if asked = behaviorAny then r = called || r = executed || r = exit || r = operation
  else if asked = behaviorEnter then r = called || r = executed
  else r = asked

/-- Whether two object roles may be of one reference: they are the same, or one stands for the other. -/
def overlaps (r s : Role) : Bool := r = s || r.standsForObject s || s.standsForObject r

variable {asked r s : Role}

/-- The argument positions are counted from 1 to 127. -/
theorem mem_arguments : r ∈ arguments ↔ 1 ≤ r.code ∧ r.code ≤ 127 := by
  have hcode (i : Nat) (hi : i < 127) : (Int8.ofNat (i + 1)).toInt = i + 1 :=
    Int8.toInt_ofNat_of_lt (by omega)
  rw [arguments, List.mem_map, Int8.le_iff_toInt_le, Int8.le_iff_toInt_le,
    show (1 : Int8).toInt = 1 from rfl, show (127 : Int8).toInt = 127 from rfl]
  constructor
  · rintro ⟨i, hi, rfl⟩
    rw [List.mem_range] at hi
    rw [hcode i hi]
    omega
  · rintro ⟨hlow, hhigh⟩
    have hlt : r.code.toInt.toNat - 1 < 127 := by omega
    refine ⟨r.code.toInt.toNat - 1, List.mem_range.mpr hlt, ?_⟩
    obtain ⟨code⟩ := r
    rw [mk.injEq, ← Int8.toInt_inj, hcode _ hlt]
    dsimp only at hlow ⊢
    omega

/-- The roles in the expansion of an object role are those that it stands for. -/
theorem contains_objectExpansion {allowed : List Role} (h : asked.objectExpansion = some allowed) :
    allowed.contains r = asked.standsForObject r := by
  unfold objectExpansion at h
  unfold standsForObject
  split at h
  · cases h
  rename_i hany
  rw [if_neg hany]
  split at h
  · rename_i harg
    cases h
    rw [if_pos harg, Bool.eq_iff_iff, List.contains_iff_mem, mem_arguments]
    simp
  · rename_i harg
    cases h
    rw [if_neg harg]
    simp

/-- Only `any` has no expansion, as it stands for all roles. -/
theorem standsForObject_of_none (h : asked.objectExpansion = none) : asked.standsForObject r = true := by
  unfold objectExpansion at h
  split at h
  · rename_i hany
    exact if_pos hany
  · split at h <;> cases h

/-- The roles in the expansion of a behavior role are those that it stands for. -/
theorem contains_behaviorExpansion : asked.behaviorExpansion.contains r = asked.standsForBehavior r := by
  unfold behaviorExpansion standsForBehavior
  split
  · simp [Bool.or_assoc]
  · split <;> simp

/-- Compatible roles are those of which one stands for the other. -/
theorem compatible_eq (r s : Role) : r.compatible s = r.overlaps s := by
  have harg (t : Role) : t.isArgument = (decide (1 ≤ t.code) && decide (t.code ≤ 127)) := by
    have hle := t.code.toInt_le
    rw [isArgument, ← Bool.decide_and, decide_eq_decide, Int8.lt_iff_toInt_lt, Int8.le_iff_toInt_le,
      Int8.le_iff_toInt_le, show (0 : Int8).toInt = 0 from rfl, show (1 : Int8).toInt = 1 from rfl,
      show (127 : Int8).toInt = 127 from rfl]
    rw [show Int8.maxValue.toInt = 127 from rfl] at hle
    omega
  rw [Bool.eq_iff_iff]
  simp only [compatible, overlaps, standsForObject, harg]
  by_cases hr : r = any
  · simp [hr]
  by_cases hs : s = any
  · simp [hs]
  -- different roles overlap when one of them is all arguments and the other is an argument
  by_cases hrs : r = s
  · simp [hrs]
  · simp only [hr, hs, hrs, Ne.symm hrs, decide_false, if_false]
    by_cases hrArg : r = anyArg <;> by_cases hsArg : s = anyArg <;> simp [hrArg, hsArg]

end Role

namespace Leaf

/-- The largest value that a leaf may ask for: keys that are split have 31 bits, and others 32. -/
def maxValue (l : Leaf) : UInt64 :=
  match l.dimension with
  | .object | .arrayIndex => 2147483647
  | _ => 4294967295

/-- Whether a leaf may ask for a role. -/
def mayAskRole (l : Leaf) : Bool :=
  match l.dimension with
  | .behavior | .field | .localVariable | .object => true
  | _ => false

/-- Whether a leaf asks for a value in range, and for a role only where tuples carry one. -/
def isValid (l : Leaf) : Bool := l.value ≤ l.maxValue && (l.mayAskRole || l.role.isNone)

/-- Whether a leaf takes a role: without one of its own it takes any, and otherwise those that its role
stands for. -/
def takes (l : Leaf) (r : Role) : Bool :=
  match l.role with
  | none => true
  | some asked =>
    if l.dimension = .behavior then asked.standsForBehavior r else asked.standsForObject r

/-- Whether a leaf accepts a tuple. Tuples without a role pass. -/
def accepts (l : Leaf) (t : Tuple) : Bool := t.role.all l.takes

/-- The tuples of an event that a leaf accepts. -/
def find (l : Leaf) (event : EventId) (ts : List Tuple) : List Tuple :=
  ts.filter fun t => t.key = event && l.accepts t

/-- Whether an event satisfies a leaf. -/
def holds (lists : Lists) (event : EventId) (l : Leaf) : Bool :=
  match l.dimension with
  | .object =>
    match SplitKey.split? l.value with
    | .ok (even, odd) =>
      (l.find event (lists (objectSet .even) even)).any fun t =>
        (l.find event (lists (objectSet .odd) odd)).any t.compatible
    | .error _ => false
  | .arrayIndex =>
    match SplitKey.split? l.value with
    | .ok (even, odd) =>
      !(l.find event (lists (arrayIndexSet .even) even)).isEmpty &&
        !(l.find event (lists (arrayIndexSet .odd) odd)).isEmpty
    | .error _ => false
  | d =>
    match d.set? with
    | some set => !(l.find event (lists set l.value.toUInt32)).isEmpty
    | none => false

end Leaf

namespace Condition

mutual

/-- Whether all leaves of a condition are valid. -/
def isValid : Condition → Bool
  | leaf l => l.isValid
  | all operands => areValid operands
  | any operands => areValid operands

/-- Whether all leaves of several conditions are valid. -/
def areValid : List Condition → Bool
  | [] => true
  | c :: cs => isValid c && areValid cs

end

mutual

/-- Whether a condition is true when some of its leaves are. Nothing makes all of no conditions true. -/
def eval (truth : Leaf → Bool) : Condition → Bool
  | leaf l => truth l
  | all operands => !operands.isEmpty && evalAll truth operands
  | any operands => evalAny truth operands

/-- Whether each of several conditions is true. -/
def evalAll (truth : Leaf → Bool) : List Condition → Bool
  | [] => true
  | c :: cs => eval truth c && evalAll truth cs

/-- Whether one of several conditions is true. -/
def evalAny (truth : Leaf → Bool) : List Condition → Bool
  | [] => false
  | c :: cs => eval truth c || evalAny truth cs

end

/-- Whether an event satisfies a condition. -/
def holds (lists : Lists) (event : EventId) (c : Condition) : Bool := c.eval (Leaf.holds lists event)

variable {truth truth' : Leaf → Bool}

/-- An `all` is true if each operand is. -/
theorem evalAll_iff (cs : List Condition) :
    evalAll truth cs = true ↔ ∀ c ∈ cs, c.eval truth = true := by
  induction cs with
  | nil => simp [evalAll]
  | cons c cs ih => simp [evalAll, ih]

/-- An `any` is true if some operand is. -/
theorem evalAny_iff (cs : List Condition) :
    evalAny truth cs = true ↔ ∃ c ∈ cs, c.eval truth = true := by
  induction cs with
  | nil => simp [evalAny]
  | cons c cs ih => simp [evalAny, ih]

mutual

/-- A valid condition asks for no more than the truth of valid leaves. -/
theorem eval_congr (h : ∀ l : Leaf, l.isValid = true → truth l = truth' l) : (c : Condition) →
    c.isValid = true → c.eval truth = c.eval truth'
  | leaf l, hc => by
    rw [isValid] at hc
    rw [eval, eval, h l hc]
  | all operands, hc => by
    rw [isValid] at hc
    rw [eval, eval, (evals_congr h operands hc).1]
  | any operands, hc => by
    rw [isValid] at hc
    rw [eval, eval, (evals_congr h operands hc).2]

theorem evals_congr (h : ∀ l : Leaf, l.isValid = true → truth l = truth' l) :
    (cs : List Condition) → areValid cs = true →
      evalAll truth cs = evalAll truth' cs ∧ evalAny truth cs = evalAny truth' cs
  | [], _ => ⟨by rw [evalAll, evalAll], by rw [evalAny, evalAny]⟩
  | c :: cs, hcs => by
    rw [areValid, Bool.and_eq_true] at hcs
    obtain ⟨hall, hany⟩ := evals_congr h cs hcs.2
    rw [evalAll, evalAll, evalAny, evalAny, eval_congr h c hcs.1, hall, hany]
    exact ⟨rfl, rfl⟩

end

end Condition

/-! ## Finding tuples -/

namespace Leaf

variable {l : Leaf} {lists : Lists} {event : EventId} {ts : List Tuple} {t : Tuple}

/-- What is found are the tuples of the event that the leaf accepts. -/
theorem mem_find : t ∈ l.find event ts ↔ t ∈ ts ∧ t.key = event ∧ l.accepts t = true := by
  simp [find]

theorem find_isEmpty_iff :
    (!(l.find event ts).isEmpty) = true ↔ ∃ t ∈ ts.filter l.accepts, t.key = event := by
  rw [Bool.not_eq_true', List.isEmpty_eq_false_iff_exists_mem]
  refine exists_congr fun t => ?_
  rw [mem_find, List.mem_filter]
  exact ⟨fun ⟨ht, hkey, hacc⟩ => ⟨⟨ht, hacc⟩, hkey⟩, fun ⟨⟨ht, hacc⟩, hkey⟩ => ⟨ht, hkey, hacc⟩⟩

/-- A leaf without a role takes every role. -/
theorem takes_of_isNone (h : l.role.isNone = true) (r : Role) : l.takes r = true := by
  rw [takes, Option.isNone_iff_eq_none.mp h]

/-- A leaf without a role accepts every tuple. -/
theorem accepts_of_isNone (h : l.role.isNone = true) (t : Tuple) : l.accepts t = true := by
  rw [accepts, Option.all_eq_true_iff_get]
  exact fun hsome => takes_of_isNone h _

/-- A filter by the roles that a leaf allows passes the tuples that the leaf accepts, and there is no
filter when it accepts them all. -/
theorem accepts_eq (l : Leaf) (t : Tuple) : l.accepts t =
    match l.allowedRoles with
    | some allowed => RoleFilter.accepts allowed t
    | none => true := by
  obtain ⟨key, _ | r⟩ := t
  · cases l.allowedRoles <;> rfl
  show l.takes r = _
  cases hrole : l.role with
  | none => simp only [takes, allowedRoles, hrole]
  | some asked =>
    by_cases hd : l.dimension = .behavior
    · simp only [takes, allowedRoles, hrole, hd, if_true, RoleFilter.accepts,
        Role.contains_behaviorExpansion]
    · simp only [takes, allowedRoles, hrole, hd, if_false]
      cases hexpansion : asked.objectExpansion with
      | none => exact Role.standsForObject_of_none hexpansion
      | some allowed => exact (Role.contains_objectExpansion hexpansion).symm

theorem filter_accepts (h : l.role.isNone = true) (ts : List Tuple) : ts.filter l.accepts = ts :=
  List.filter_eq_self.mpr fun t _ => accepts_of_isNone h t

/-! ## Leaves by dimension -/

/-- A leaf on a dimension whose keys are not split asks one list. -/
theorem holds_iff_of_set {set : SetId} (h : l.dimension.set? = some set) :
    l.holds lists event = true ↔
      ∃ t ∈ (lists set l.value.toUInt32).filter l.accepts, t.key = event := by
  rw [← find_isEmpty_iff]
  have hholds : l.holds lists event =
      !(l.find event (lists set l.value.toUInt32)).isEmpty := by
    unfold holds
    split
    · rename_i hd
      rw [hd] at h
      cases h
    · rename_i hd
      rw [hd] at h
      cases h
    · rw [h]
  rw [hholds]

variable {even odd : ValueId}

/-- A leaf on array indexes asks the lists of both halves. -/
theorem holds_iff_of_arrayIndex (hd : l.dimension = .arrayIndex)
    (hsplit : SplitKey.split? l.value = .ok (even, odd)) :
    l.holds lists event = true ↔
      (∃ t ∈ (lists (arrayIndexSet .even) even).filter l.accepts, t.key = event) ∧
        ∃ t ∈ (lists (arrayIndexSet .odd) odd).filter l.accepts, t.key = event := by
  rw [← find_isEmpty_iff, ← find_isEmpty_iff, ← Bool.and_eq_true]
  simp only [holds, hd, hsplit]

/-- A leaf on objects asks for compatible tuples in the lists of both halves. -/
theorem holds_iff_of_object (hd : l.dimension = .object)
    (hsplit : SplitKey.split? l.value = .ok (even, odd)) :
    l.holds lists event = true ↔
      ∃ t ∈ (lists (objectSet .even) even).filter l.accepts, t.key = event ∧
        ∃ u ∈ (lists (objectSet .odd) odd).filter l.accepts, u.key = event ∧
          t.compatible u = true := by
  simp only [holds, hd, hsplit, List.any_eq_true, mem_find, List.mem_filter]
  constructor
  · rintro ⟨t, ⟨ht, hkey, hacc⟩, u, ⟨hu, hkey', hacc'⟩, hcomp⟩
    exact ⟨t, ⟨ht, hacc⟩, hkey, u, ⟨hu, hacc'⟩, hkey', hcomp⟩
  · rintro ⟨t, ⟨ht, hacc⟩, hkey, u, ⟨hu, hacc'⟩, hkey', hcomp⟩
    exact ⟨t, ⟨ht, hkey, hacc⟩, u, ⟨hu, hkey', hacc'⟩, hcomp⟩

/-! ## Valid leaves -/

/-- The greatest value is that of a split key, or that of 32 bits. -/
theorem maxValue_eq (l : Leaf) :
    l.maxValue = if l.dimension.isSplit then SplitKey.maxKey else 4294967295 := by
  obtain ⟨d, value, role⟩ := l
  cases d <;> rfl

/-- Roles may be asked for where tuples carry them. -/
theorem mayAskRole_eq (l : Leaf) : l.mayAskRole = l.dimension.isRoleTagged := by
  obtain ⟨d, value, role⟩ := l
  cases d <;> rfl

/-- The value of a valid leaf on a split key can be split. -/
theorem split?_of_isValid (h : l.isValid = true) (hsplit : l.dimension.isSplit = true) :
    ∃ even odd, SplitKey.split? l.value = .ok (even, odd) := by
  simp only [isValid, maxValue_eq, hsplit, if_true, Bool.and_eq_true, decide_eq_true_eq] at h
  have hle : ¬ SplitKey.maxKey < l.value := UInt64.not_lt.mpr h.1
  exact ⟨_, _, if_neg hle⟩

/-- The value of any other valid leaf is that of a list. -/
theorem valueId_of_isValid (h : l.isValid = true) (hsplit : l.dimension.isSplit = false) :
    l.valueId = .ok l.value.toUInt32 := by
  simp only [isValid, maxValue_eq, hsplit, Bool.false_eq_true, if_false, Bool.and_eq_true,
    decide_eq_true_eq] at h
  exact if_pos h.1

/-- A valid leaf has no role where tuples carry none. -/
theorem role_of_isValid (h : l.isValid = true) (htagged : l.dimension.isRoleTagged = false) :
    l.role.isNone = true := by
  simp only [isValid, mayAskRole_eq, htagged, Bool.false_or, Bool.and_eq_true] at h
  exact h.2

end Leaf

end EventIndex
