import EventIndex.Proofs.Index.Ingested
import EventIndex.Proofs.Query.Satisfaction
import EventIndex.Proofs.SplitKey

/-! # Description — what operations say of a condition

Which events satisfy a condition can be told from the operations of an ingestion alone, without sets,
lists or tuples. `roles` are the roles in which an event was indexed under the values of a kind, and
`Condition.describes` reads a condition over them:

- a leaf on a whole value asks for a role that it takes;
- a leaf on an array index asks for one index with the even bits and one with the odd bits of its
  value;
- a leaf on an object does so too, in roles that it takes and that overlap.

The lists that the operations write say the same (`describes_eq`): a list has the tuples of the calls
for its value (`mem_written_of_set`), or for the keys that have its half in common
(`mem_written_of_half`).
-/

namespace EventIndex

/-! ## Keys with a half in common -/

namespace Half

/-- The bits of a key that go to a half. -/
def mask : Half → UInt64
  | even => 0x5555555555555555
  | odd => 0xAAAAAAAAAAAAAAAA

/-- Whether a key has a half in common with another one. Keys of more than 31 bits have no halves. -/
def shares (half : Half) (x y : UInt64) : Bool := y ≤ 2147483647 && y &&& half.mask = x &&& half.mask

/-- One of two halves. -/
def of {α : Type} (halves : α × α) : Half → α
  | even => halves.1
  | odd => halves.2

/-- The place of the lowest bit of a half. -/
def offset : Half → Nat
  | even => 0
  | odd => 1

/-- The mask of a half has the bits at its places. -/
theorem testBit_mask (half : Half) (j : Nat) :
    half.mask.toNat.testBit j = (decide (j < 64) && j % 2 = half.offset) := by
  by_cases hj : j < 64
  · revert j
    cases half <;> decide
  · have hle : 2 ^ 64 ≤ 2 ^ j := Nat.pow_le_pow_right Nat.two_pos (Nat.le_of_not_lt hj)
    rw [Nat.testBit_lt_two_pow (Nat.lt_of_lt_of_le half.mask.toNat_lt hle), decide_eq_false hj,
      Bool.false_and]

variable {x y : UInt64} {halves halves' : UInt32 × UInt32}

/-- A half has the bits of the key at its places. -/
theorem testBit_of (h : SplitKey.split? x = .ok halves) (half : Half) (i : Nat) :
    (half.of halves).toNat.testBit i = x.toNat.testBit (2 * i + half.offset) := by
  obtain ⟨heven, hodd⟩ := SplitKey.testBit_halves h i
  cases half with
  | even => exact heven
  | odd => exact hodd

/-- Two keys have the same half just when their bits at its places are the same. -/
theorem of_eq_iff (hx : SplitKey.split? x = .ok halves) (hy : SplitKey.split? y = .ok halves')
    (half : Half) : half.of halves = half.of halves' ↔ x &&& half.mask = y &&& half.mask := by
  rw [← UInt32.toNat_inj, ← UInt64.toNat_inj, UInt64.toNat_and, UInt64.toNat_and]
  have hoffset : half.offset < 2 := by cases half <;> decide
  constructor
  · intro heq
    refine Nat.eq_of_testBit_eq fun j => ?_
    rw [Nat.testBit_and, Nat.testBit_and, testBit_mask]
    by_cases hj : j % 2 = half.offset
    · rw [show j = 2 * (j / 2) + half.offset by omega, ← testBit_of hx, ← testBit_of hy, heq]
    · simp [hj]
  · intro heq
    refine Nat.eq_of_testBit_eq fun i => ?_
    rw [testBit_of hx, testBit_of hy]
    have hbit := congrArg (·.testBit (2 * i + half.offset)) heq
    simp only [Nat.testBit_and, testBit_mask] at hbit
    by_cases hi : 2 * i + half.offset < 64
    · simpa [hi, Nat.mod_eq_of_lt hoffset] using hbit
    · -- beyond its places a key has no bits
      have hnone (z : UInt64) : z.toNat.testBit (2 * i + half.offset) = false :=
        Nat.testBit_lt_two_pow (Nat.lt_of_lt_of_le z.toNat_lt
          (Nat.pow_le_pow_right Nat.two_pos (Nat.le_of_not_lt hi)))
      rw [hnone, hnone]

/-- Keys have a half in common if they agree at its places, and can be split. -/
theorem shares_iff {half : Half} :
    half.shares x y = true ↔ y ≤ SplitKey.maxKey ∧ y &&& half.mask = x &&& half.mask := by
  rw [shares, Bool.and_eq_true, decide_eq_true_eq, decide_eq_true_eq]
  rfl

/-- A key that can be split has both halves in common with itself. -/
theorem shares_self (half : Half) (hx : x ≤ SplitKey.maxKey) : half.shares x x = true :=
  shares_iff.mpr ⟨hx, rfl⟩

/-- Keys that have both halves in common are the same. -/
theorem eq_of_shares (hx : x ≤ SplitKey.maxKey) (heven : Half.even.shares x y = true)
    (hodd : Half.odd.shares x y = true) : y = x := by
  rw [shares_iff] at heven hodd
  obtain ⟨evenX, oddX, hsplitX⟩ := SplitKey.split?_of_le hx
  obtain ⟨evenY, oddY, hsplitY⟩ := SplitKey.split?_of_le heven.1
  have heven' : evenY = evenX := (of_eq_iff hsplitY hsplitX .even).mpr heven.2
  have hodd' : oddY = oddX := (of_eq_iff hsplitY hsplitX .odd).mpr hodd.2
  rw [heven', hodd'] at hsplitY
  exact SplitKey.split?_injective hsplitY hsplitX

end Half

/-! ## Roles of an event -/

/-- The role in which an operation indexes an event under a value of a kind. An event that is indexed
under its own role has the number of the role for a value, counted from the lowest one. -/
def Operation.roleFor? (d : Dimension) (isValue : UInt64 → Bool) (event : EventId) :
    Operation → Option Role
  | index d' value event' r => if d' = d ∧ event' = event ∧ isValue value then some r else none
  | indexRole r event' =>
    if d = .role ∧ event' = event ∧ isValue (UInt64.ofNat (r.code.toInt + 128).toNat) then some r
    else none
  | _ => none

/-- The roles in which an event was indexed under the values of a kind. -/
def roles (ops : List Operation) (d : Dimension) (isValue : UInt64 → Bool) (event : EventId) :
    List Role :=
  ops.filterMap (Operation.roleFor? d isValue event)

/-- Whether operations describe an event as a leaf asks for it. -/
def Leaf.describes (ops : List Operation) (event : EventId) (l : Leaf) : Bool :=
  match l.dimension with
  | .object =>
    (roles ops .object (Half.even.shares l.value) event).any fun r => l.takes r &&
      (roles ops .object (Half.odd.shares l.value) event).any fun s => l.takes s && r.overlaps s
  | .arrayIndex =>
    !(roles ops .arrayIndex (Half.even.shares l.value) event).isEmpty &&
      !(roles ops .arrayIndex (Half.odd.shares l.value) event).isEmpty
  | d => (roles ops d (fun value => value.toUInt32 = l.value.toUInt32) event).any l.takes

/-- Whether operations describe an event as a condition asks for it. -/
def Condition.describes (ops : List Operation) (event : EventId) (c : Condition) : Bool :=
  c.eval (Leaf.describes ops event)

variable {ops : List Operation} {d d' : Dimension} {isValue : UInt64 → Bool} {event : EventId}
  {r : Role} {t : Tuple}

/-- The roles of an event are those it was indexed in, and for the dimension of roles also those that are
its own. -/
theorem mem_roles : r ∈ roles ops d isValue event ↔
    (∃ value, Operation.index d value event r ∈ ops ∧ isValue value = true) ∨
      d = .role ∧ Operation.indexRole r event ∈ ops ∧
        isValue (UInt64.ofNat (r.code.toInt + 128).toNat) = true := by
  rw [roles, List.mem_filterMap]
  constructor
  · rintro ⟨op, hop, hrole⟩
    cases op with
    | index d' value event' r' =>
      obtain ⟨⟨rfl, rfl, hvalue⟩, heq⟩ := Option.ite_none_right_eq_some.mp hrole
      cases heq
      exact .inl ⟨value, hop, hvalue⟩
    | indexRole r' event' =>
      obtain ⟨⟨rfl, rfl, hvalue⟩, heq⟩ := Option.ite_none_right_eq_some.mp hrole
      cases heq
      exact .inr ⟨rfl, hop, hvalue⟩
    | _ => cases hrole
  · rintro (⟨value, hop, hvalue⟩ | ⟨rfl, hop, hvalue⟩)
    · exact ⟨_, hop, if_pos ⟨rfl, rfl, hvalue⟩⟩
    · exact ⟨_, hop, if_pos ⟨rfl, rfl, hvalue⟩⟩

/-- On other dimensions than that of roles, an event has the roles it was indexed in. -/
theorem mem_roles_of_ne (hd : d ≠ .role) : r ∈ roles ops d isValue event ↔
    ∃ value, Operation.index d value event r ∈ ops ∧ isValue value = true := by
  rw [mem_roles]
  exact or_iff_left fun h => hd h.1

/-! ## Where the tuples of a list come from -/

namespace Dimension

/-- The sets of both halves of a dimension whose keys are split. -/
def halves? : Dimension → Option (Half → SetId)
  | object => some objectSet
  | arrayIndex => some arrayIndexSet
  | _ => none

/-- The tuple of an event that is indexed. -/
def tuple (d : Dimension) (event : EventId) (r : Role) : Tuple :=
  if d.isRoleTagged then .tagged event r else .plain event

variable {sets sets' : Half → SetId} {half half' : Half} {set : SetId}

/-- The tuple of an event has its number for a key. -/
@[simp] theorem tuple_key (d : Dimension) (event : EventId) (r : Role) :
    (d.tuple event r).key = event := by
  unfold tuple
  split <;> rfl

/-- The lists of halves are kept in sets of the engine. -/
theorem halves_lt (h : d.halves? = some sets) (half : Half) : sets half < setShapes.length := by
  cases d <;> cases h <;> cases half <;> decide

/-- No set serves two halves. -/
theorem halves_injective (h : d.halves? = some sets) (h' : d'.halves? = some sets')
    (heq : sets half = sets' half') : d = d' ∧ half = half' := by
  cases d <;> cases h <;> cases d' <;> cases h' <;> cases half <;> cases half' <;>
    first | exact ⟨rfl, rfl⟩ | cases heq

/-- No half has the set of a whole dimension. -/
theorem halves_ne_set (h : d.halves? = some sets) (half : Half) (hset : d'.set? = some set) :
    sets half ≠ set := by
  cases d <;> cases h <;> cases d' <;> cases hset <;> cases half <;> decide

/-- No two dimensions share a set. -/
theorem set_injective (h : d.set? = some set) (h' : d'.set? = some set) : d = d' := by
  cases d <;> cases h <;> cases d' <;> first | rfl | cases h'

/-- A split dimension has entries in the sets of its halves, any other one in its set. -/
theorem mem_entries {value : UInt64} {entry : EngineSet × ValueId × Tuple}
    (h : entry ∈ d.entries value event r) :
    (∃ set, d.set? = some set ∧ (entry.1 : SetId) = set ∧
        entry.2 = (value.toUInt32, d.tuple event r)) ∨
      ∃ sets half halves, d.halves? = some sets ∧ SplitKey.split? value = .ok halves ∧
        (entry.1 : SetId) = sets half ∧ entry.2 = (half.of halves, d.tuple event r) := by
  -- the two dimensions that are split, and then those with a set of their own
  unfold entries at h
  split at h
  · split at h
    · rename_i even odd hsplit
      simp only [List.mem_cons, List.not_mem_nil, or_false] at h
      rcases h with rfl | rfl
      · exact .inr ⟨_, .even, _, rfl, hsplit, rfl, rfl⟩
      · exact .inr ⟨_, .odd, _, rfl, hsplit, rfl, rfl⟩
    · cases h
  · split at h
    · rename_i even odd hsplit
      simp only [List.mem_cons, List.not_mem_nil, or_false] at h
      rcases h with rfl | rfl
      · exact .inr ⟨_, .even, _, rfl, hsplit, rfl, rfl⟩
      · exact .inr ⟨_, .odd, _, rfl, hsplit, rfl, rfl⟩
    · cases h
  · split at h
    · rename_i set hset
      rw [List.mem_singleton.mp h]
      exact .inl ⟨set, hset, rfl, rfl⟩
    · cases h

/-- Both halves of a key that can be split have an entry. -/
theorem entries_of_halves (h : d.halves? = some sets) {value : UInt64} {halves : UInt32 × UInt32}
    (hsplit : SplitKey.split? value = .ok halves) (event : EventId) (r : Role) (half : Half) :
    (⟨sets half, halves_lt h half⟩, half.of halves, d.tuple event r) ∈ d.entries value event r := by
  rcases halves with ⟨even, odd⟩
  cases d with
  | object =>
    cases h
    simp only [entries, hsplit]
    cases half <;> simp [Half.of, tuple, isRoleTagged]
  | arrayIndex =>
    cases h
    simp only [entries, hsplit]
    cases half <;> simp [Half.of, tuple, isRoleTagged]
  | _ => cases h

end Dimension

/-- The number of a role is its value. -/
theorem toUInt32_roleValue (r : Role) :
    (UInt64.ofNat (r.code.toInt + 128).toNat).toUInt32 = roleValue r := by
  have hlt : (r.code.toInt + 128).toNat < 2 ^ 32 := by
    have hle := r.code.toInt_le
    rw [show Int8.maxValue.toInt = 127 from rfl] at hle
    omega
  rw [← UInt32.toNat_inj, UInt64.toNat_toUInt32, roleValue, UInt32.toNat_ofNat_of_lt' hlt,
    UInt64.toNat_ofNat_of_lt' (Nat.lt_trans hlt (by decide)), Nat.mod_eq_of_lt hlt]

/-- The tuples of a list come from the calls for its value. -/
theorem mem_written_of_set {set : SetId} (h : d.set? = some set) {v : ValueId} :
    t ∈ written ops set v ↔
      ∃ event, ∃ r ∈ roles ops d (fun value => value.toUInt32 = v) event, d.tuple event r = t := by
  rw [Engine.mem_written]
  simp only [mem_roles, decide_eq_true_eq, toUInt32_roleValue]
  constructor
  · rintro ⟨op, hop, entry, hentry, hset, hv, ht⟩
    cases op with
    | indexRole r event =>
      rw [Operation.entries, List.mem_singleton] at hentry
      subst hentry
      -- only the dimension of roles has the set that these calls write to
      obtain rfl : d = .role := Dimension.set_injective h (hset ▸ rfl)
      exact ⟨event, r, .inr ⟨rfl, hop, hv⟩, ht⟩
    | index d' value event r =>
      rcases Dimension.mem_entries hentry with ⟨set', h', hset', hentry'⟩ |
        ⟨sets, half, halves, h', hsplit, hset', hentry'⟩
      · obtain rfl : d = d' := Dimension.set_injective h (h'.trans (hset'.symm.trans hset ▸ rfl))
        obtain ⟨hvalue, htuple⟩ := Prod.mk.inj hentry'
        exact ⟨event, r, .inl ⟨value, hop, hvalue.symm.trans hv⟩, htuple.symm.trans ht⟩
      · exact absurd (hset'.symm.trans hset) (Dimension.halves_ne_set h' half h)
    | _ => cases hentry
  · rintro ⟨event, r, ⟨value, hop, rfl⟩ | ⟨rfl, hop, rfl⟩, rfl⟩
    · refine ⟨_, hop, (⟨set, Dimension.set_lt h⟩, value.toUInt32, d.tuple event r), ?_, rfl, rfl, rfl⟩
      rw [Operation.entries, Dimension.entries_of_set h]
      exact List.mem_singleton_self _
    · cases h
      exact ⟨_, hop, _, List.mem_singleton_self _, rfl, rfl, rfl⟩

/-- The tuples in the list of a half come from the calls for the keys that have this half. -/
theorem mem_written_of_half (ops : List Operation) {sets : Half → SetId} (h : d.halves? = some sets)
    {x : UInt64} {halves : UInt32 × UInt32} (hsplit : SplitKey.split? x = .ok halves) (half : Half) :
    t ∈ written ops (sets half) (half.of halves) ↔
      ∃ event, ∃ r ∈ roles ops d (half.shares x) event, d.tuple event r = t := by
  have hd : d ≠ .role := by
    rintro rfl
    cases h
  rw [Engine.mem_written]
  simp only [mem_roles_of_ne hd, Half.shares_iff]
  constructor
  · rintro ⟨op, hop, entry, hentry, hset, hv, ht⟩
    cases op with
    | indexRole r event =>
      -- the roles of an event are no keys that are split
      rw [Operation.entries, List.mem_singleton] at hentry
      rw [hentry] at hset
      exact absurd hset.symm (Dimension.halves_ne_set h half (rfl : Dimension.role.set? = some 6))
    | index d' value event r =>
      rcases Dimension.mem_entries hentry with ⟨set, h', hset', -⟩ |
        ⟨sets', half', halves', h', hsplit', hset', hentry'⟩
      · exact absurd (hset.symm.trans hset') (Dimension.halves_ne_set h half h')
      · -- the set tells the dimension and the half, and the value tells the half of the key
        obtain ⟨rfl, rfl⟩ := Dimension.halves_injective h h' (hset.symm.trans hset')
        obtain ⟨hvalue, htuple⟩ := Prod.mk.inj hentry'
        refine ⟨event, r, ⟨value, hop, SplitKey.le_of_split? hsplit', ?_⟩, htuple.symm.trans ht⟩
        exact (Half.of_eq_iff hsplit' hsplit half).mp (hvalue.symm.trans hv)
    | _ => cases hentry
  · rintro ⟨event, r, ⟨value, hop, hvalue, hmask⟩, rfl⟩
    obtain ⟨even, odd, hsplit'⟩ := SplitKey.split?_of_le hvalue
    exact ⟨_, hop, _, Dimension.entries_of_halves h hsplit' event r half, rfl,
      (Half.of_eq_iff hsplit' hsplit half).mpr hmask, rfl⟩

/-! ## Lists and roles say the same -/

namespace Leaf

variable {l : Leaf} {list : List Tuple}

/-- A leaf accepts the tuple of an event that is indexed in a role just when it takes the role. -/
theorem accepts_tuple (hl : l.isValid = true) (event : EventId) (r : Role) :
    l.accepts (l.dimension.tuple event r) = l.takes r := by
  unfold Dimension.tuple
  cases htagged : l.dimension.isRoleTagged with
  | true => rfl
  | false =>
    have hnone := role_of_isValid hl htagged
    rw [takes_of_isNone hnone, accepts_of_isNone hnone]

/-- The tuples of an event that a leaf accepts are those of the roles that it takes. -/
theorem exists_accepted_iff (hl : l.isValid = true)
    (hmem : ∀ t, t ∈ list ↔
      ∃ event, ∃ r ∈ roles ops l.dimension isValue event, l.dimension.tuple event r = t)
    (event : EventId) (P : Tuple → Prop) :
    (∃ t ∈ list.filter l.accepts, t.key = event ∧ P t) ↔
      ∃ r ∈ roles ops l.dimension isValue event, l.takes r = true ∧ P (l.dimension.tuple event r) := by
  simp only [List.mem_filter, hmem]
  constructor
  · rintro ⟨_, ⟨⟨event', r, hr, rfl⟩, hacc⟩, hkey, hP⟩
    rw [Dimension.tuple_key] at hkey
    subst hkey
    exact ⟨r, hr, accepts_tuple hl event' r ▸ hacc, hP⟩
  · rintro ⟨r, hr, htakes, hP⟩
    have haccepts := (accepts_tuple hl event r).trans htakes
    exact ⟨_, ⟨⟨event, r, hr, rfl⟩, haccepts⟩, l.dimension.tuple_key event r, hP⟩

/-- A leaf on a whole value is described by the roles in which the event was indexed under it. -/
theorem describes_of_set {set : SetId} (h : l.dimension.set? = some set) : l.describes ops event =
    (roles ops l.dimension (fun value => value.toUInt32 = l.value.toUInt32) event).any l.takes := by
  obtain ⟨d, value, role⟩ := l
  cases d <;> first | rfl | cases h

/-- Leaves on dimensions with a set of their own. -/
theorem describes_eq_of_set (hl : l.isValid = true) {set : SetId} (hset : l.dimension.set? = some set) :
    l.holds (written ops) event = l.describes ops event := by
  rw [Bool.eq_iff_iff, holds_iff_of_set hset, describes_of_set hset, List.any_eq_true]
  simpa using exists_accepted_iff hl (fun t => mem_written_of_set hset) event fun _ => True

/-- Leaves on array indices: both halves have to be there, in whatever roles. -/
theorem describes_eq_of_arrayIndex (hl : l.isValid = true) (hd : l.dimension = .arrayIndex) :
    l.holds (written ops) event = l.describes ops event := by
  have hhalves : l.dimension.halves? = some arrayIndexSet := by rw [hd]; rfl
  obtain ⟨even, odd, hsplit⟩ := split?_of_isValid hl (by rw [hd]; rfl)
  -- without a role in the leaf, any role will do
  have hany (half : Half) : (∃ t ∈ (written ops (arrayIndexSet half)
      (half.of (even, odd))).filter l.accepts, t.key = event) ↔
        (!(roles ops .arrayIndex (half.shares l.value) event).isEmpty) = true := by
    have hhalf := exists_accepted_iff hl (fun _ => mem_written_of_half ops hhalves hsplit half)
      event fun _ => True
    rw [Bool.not_eq_true', List.isEmpty_eq_false_iff_exists_mem]
    simpa [hd, takes_of_isNone (role_of_isValid hl (by rw [hd]; rfl))] using hhalf
  rw [Bool.eq_iff_iff, holds_iff_of_arrayIndex hd hsplit]
  simp only [describes, hd]
  rw [Bool.and_eq_true]
  exact and_congr (hany .even) (hany .odd)

/-- Leaves on objects: both halves have to be there, in roles that overlap. -/
theorem describes_eq_of_object (hl : l.isValid = true) (hd : l.dimension = .object) :
    l.holds (written ops) event = l.describes ops event := by
  have hhalves : l.dimension.halves? = some objectSet := by rw [hd]; rfl
  obtain ⟨even, odd, hsplit⟩ := split?_of_isValid hl (by rw [hd]; rfl)
  have hhalf (half : Half) (P : Tuple → Prop) :=
    exists_accepted_iff hl (fun _ => mem_written_of_half ops hhalves hsplit half) event P
  rw [Bool.eq_iff_iff, holds_iff_of_object hd hsplit]
  refine (hhalf .even _).trans ?_
  simp only [describes, hd, List.any_eq_true, Bool.and_eq_true]
  refine exists_congr fun r => and_congr_right fun _ => and_congr_right fun _ => ?_
  refine (hhalf .odd _).trans ?_
  simp only [hd]
  refine exists_congr fun s => and_congr_right fun _ => and_congr_right fun _ => ?_
  rw [← Role.compatible_eq]
  rfl

/-- A leaf finds in the written lists what the operations describe. -/
theorem describes_eq (hl : l.isValid = true) (event : EventId) :
    l.holds (written ops) event = l.describes ops event := by
  by_cases hobject : l.dimension = .object
  · exact describes_eq_of_object hl hobject
  by_cases harray : l.dimension = .arrayIndex
  · exact describes_eq_of_arrayIndex hl harray
  obtain ⟨set, hset⟩ : ∃ set, l.dimension.set? = some set := by
    cases hd : l.dimension <;> first | exact ⟨_, rfl⟩ | contradiction
  exact describes_eq_of_set hl hset

end Leaf

/-- A valid condition says of the written lists what it says of the operations. -/
theorem Condition.describes_eq {c : Condition} (hc : c.isValid = true) (event : EventId) :
    c.holds (written ops) event = c.describes ops event :=
  eval_congr (fun _ hl => Leaf.describes_eq hl event) c hc

end EventIndex
