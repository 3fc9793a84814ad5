import EventIndex.Proofs.Cursor.Merging

/-! # What a union shows

`joinAt` is the tuple that a union has for a key, if any: the first one of the first head that has
the key. A step forward takes the least of the next keys of all heads, a step back the greatest of
the last keys; a step back looks the tuple up again, so that both ways give the same one.

Both steps are folds over the heads, and the proofs are inductions on the heads. For this the fold is
written with the first head on the outside (`least_none_cons`, `greatest_none_cons`); that this makes no
difference is the associativity of `choose`.

Main results:

* `nextPick_least`, `lastPick_greatest`: which head each step takes its tuple from.
* `bounded_joins`: a union of several heads shows the merged list.
* `reads_ofHeads`: what a union shows when it is opened, also over one head or none.
-/

namespace EventIndex

open Cursor

namespace Disjunction

open Heads

variable {C : Type} [Cursor C] {ds : Disks} {heads : List C} {lists : List (List Tuple)}
  {us ts : List Tuple} {t u : Tuple} {key goal : UInt64} {found : List (Option Tuple)}

/-! ## The tuple for a key -/

/-- The tuple that a union has for a key. -/
def joinAt (lists : List (List Tuple)) (key : UInt64) : Option Tuple :=
  lists.findSome? (firstAt key)

/-- What is joined at a key has the key and comes from one of the lists. -/
theorem joinAt_mem (h : joinAt lists key = some t) : t.key = key ∧ ∃ ts ∈ lists, t ∈ ts := by
  obtain ⟨ts, hts, hfirst⟩ := List.exists_of_findSome?_eq_some h
  exact ⟨key_of_firstAt hfirst, ts, hts, mem_of_firstAt hfirst⟩

/-- Nothing is joined exactly at the keys that no list has. -/
theorem joinAt_eq_none_iff : joinAt lists key = none ↔ ∀ ts ∈ lists, ∀ t ∈ ts, t.key ≠ key := by
  simp only [joinAt, List.findSome?_eq_none_iff, firstAt_eq_none_iff]

/-- Something is joined exactly at the keys that some list has. -/
theorem joinAt_isSome_iff :
    (joinAt lists key).isSome = true ↔ ∃ ts ∈ lists, ∃ t ∈ ts, t.key = key := by
  rw [← Option.ne_none_iff_isSome, ne_eq, joinAt_eq_none_iff]
  simp

/-- The first list has the say at its own keys, and the others at the rest. -/
theorem joinAt_cons (ts : List Tuple) (lists : List (List Tuple)) (key : UInt64) :
    joinAt (ts :: lists) key = (firstAt key ts).or (joinAt lists key) := by
  rw [joinAt, List.findSome?_cons]
  cases firstAt key ts <;> rfl

/-! ## The best of several candidates -/

section Choose

variable {α : Type} {better : α → α → Bool}

/-- The better of two candidates; the first one unless the second is better. -/
def choose (better : α → α → Bool) (best : Option α) : Option α → Option α
  | none => best
  | some t => if best.all (better t) then some t else best

/-- It makes no difference how candidates are put together, if the order among them is a weak one. -/
theorem choose_assoc (htrans : ∀ a b c, better a b = true → better b c = true → better a c = true)
    (hneg : ∀ a b c, better b a = false → better c b = false → better c a = false)
    (a b c : Option α) :
    choose better (choose better a b) c = choose better a (choose better b c) := by
  cases c with
  | none => rfl
  | some c =>
    cases b with
    | none =>
      show choose better a (some c) = choose better a (if true = true then some c else none)
      rw [if_pos rfl]
    | some b =>
      cases a with
      | none => cases hcb : better c b <;> simp [choose, hcb]
      | some a =>
        -- with three candidates it is the comparison across the middle one that needs the laws
        cases hba : better b a with
        | true =>
          cases hcb : better c b with
          | true => simp [choose, hba, hcb, htrans c b a hcb hba]
          | false => simp [choose, hba, hcb]
        | false =>
          cases hcb : better c b with
          | true => simp [choose, hba, hcb]
          | false => simp [choose, hba, hcb, hneg a b c hba hcb]

end Choose

/-! ## The least of the next tuples -/

/-- Whether a tuple comes first. -/
def less (t u : Tuple) : Bool := t.key < u.key

/-- Candidates for the least key may be put together in any grouping. -/
theorem less_assoc (a b c : Option Tuple) :
    choose less (choose less a b) c = choose less a (choose less b c) := by
  refine choose_assoc (fun a b c hab hbc => ?_) (fun a b c hba hcb => ?_) a b c
  · simpa [less] using UInt64.lt_trans (by simpa [less] using hab) (by simpa [less] using hbc)
  · simpa [less] using UInt64.le_trans (a := a.key) (by simpa [less] using hba)
      (by simpa [less] using hcb)

/-- The fold takes the candidates of the heads in turn, and keeps the better one. -/
theorem least_cons_eq (best o : Option Tuple) (found : List (Option Tuple)) :
    least best (o :: found) = least (choose less best o) found := by
  cases o with
  | none => rfl
  | some t =>
    by_cases hless : best.all (less t) = true
    · have hless' : best.all (t.key < ·.key) = true := hless
      rw [least, choose, if_pos hless, if_pos hless']
    · have hless' : ¬ best.all (t.key < ·.key) = true := hless
      rw [least, choose, if_neg hless, if_neg hless']

/-- A candidate from before is put in front of the others. -/
theorem least_eq_choose (best : Option Tuple) (found : List (Option Tuple)) :
    least best found = choose less best (least none found) := by
  induction found generalizing best with
  | nil => rfl
  | cons o found ih =>
    rw [least_cons_eq, ih, less_assoc, least_cons_eq none, ih (choose less none o)]
    cases o <;> rfl

/-- The least of several heads is the better one of the first and of the least of the others. -/
theorem least_none_cons (o : Option Tuple) (found : List (Option Tuple)) :
    least none (o :: found) = choose less o (least none found) := by
  rw [least_cons_eq, least_eq_choose]
  cases o <;> rfl

/-- In one list the next tuple of its own is what a search for the next key has to find. -/
theorem nextPick_firstFrom (hs : Sorted us) (goal : UInt64) :
    NextPick (firstAt · us) goal (firstFrom us goal) := by
  cases hfind : firstFrom us goal with
  | none =>
    intro key hle
    refine firstAt_eq_none_iff.mpr fun u hu heq => ?_
    exact absurd (lt_of_firstFrom_eq_none hs hfind hu) (UInt64.not_lt.mpr (heq ▸ hle))
  | some t =>
    refine ⟨firstAt_of_firstFrom hs hfind, le_of_firstFrom hs hfind, fun key hle hlt => ?_⟩
    refine firstAt_eq_none_iff.mpr fun u hu heq => ?_
    exact absurd (firstFrom_least hs hfind hu (heq ▸ hle)) (UInt64.not_le.mpr (heq ▸ hlt))

/-- What is picked first here or there is the lesser of both. -/
theorem NextPick.or {pick pick₁ pick₂ : UInt64 → Option Tuple} {o₁ o₂ : Option Tuple}
    (hor : ∀ key, pick key = (pick₁ key).or (pick₂ key)) (h₁ : NextPick pick₁ goal o₁)
    (h₂ : NextPick pick₂ goal o₂) : NextPick pick goal (choose less o₁ o₂) := by
  cases o₂ with
  | none =>
    cases o₁ with
    | none => exact fun key hle => by rw [hor, h₁ key hle, h₂ key hle]; rfl
    | some t =>
      refine ⟨by rw [hor, h₁.1]; rfl, h₁.2.1, fun key hle hlt => ?_⟩
      rw [hor, h₁.2.2 key hle hlt, h₂ key hle]
      rfl
  | some u =>
    cases o₁ with
    | none =>
      refine ⟨by rw [hor, h₁ u.key h₂.2.1, h₂.1]; rfl, h₂.2.1, fun key hle hlt => ?_⟩
      rw [hor, h₁ key hle, h₂.2.2 key hle hlt]
      rfl
    | some t =>
      -- the smaller key wins, and the other pick has nothing before it either
      by_cases hless : u.key < t.key
      · rw [choose, if_pos (by simpa [less] using hless)]
        refine ⟨by rw [hor, h₁.2.2 u.key h₂.2.1 hless, h₂.1]; rfl, h₂.2.1, fun key hle hlt => ?_⟩
        rw [hor, h₁.2.2 key hle (UInt64.lt_trans hlt hless), h₂.2.2 key hle hlt]
        rfl
      · rw [choose, if_neg (by simpa [less] using hless)]
        refine ⟨by rw [hor, h₁.1]; rfl, h₁.2.1, fun key hle hlt => ?_⟩
        have hlt' := UInt64.lt_of_lt_of_le hlt (UInt64.not_lt.mp hless)
        rw [hor, h₁.2.2 key hle hlt, h₂.2.2 key hle hlt']
        rfl

/-- The least of the next tuples of all heads is picked first. -/
theorem nextPick_least (hs : ∀ us ∈ lists, Sorted us) (goal : UInt64) :
    NextPick (joinAt lists) goal (least none (lists.map (firstFrom · goal))) := by
  induction lists with
  | nil => exact fun key _ => rfl
  | cons us lists ih =>
    obtain ⟨hus, hrest⟩ := List.forall_mem_cons.mp hs
    rw [List.map_cons, least_none_cons]
    exact NextPick.or (joinAt_cons us lists) (nextPick_firstFrom hus goal) (ih hrest)

/-! ## The greatest of the last tuples -/

/-- Whether a key comes last. -/
def greater (a b : Nat × UInt64) : Bool := b.2 < a.2

/-- Candidates for the greatest key may be put together in any grouping. -/
theorem greater_assoc (a b c : Option (Nat × UInt64)) :
    choose greater (choose greater a b) c = choose greater a (choose greater b c) := by
  refine choose_assoc (fun a b c hab hbc => ?_) (fun a b c hba hcb => ?_) a b c
  · simpa [greater] using
      UInt64.lt_trans (by simpa [greater] using hbc) (by simpa [greater] using hab)
  · simpa [greater] using UInt64.le_trans (c := a.2) (by simpa [greater] using hcb)
      (by simpa [greater] using hba)

/-- The fold takes the candidates of the heads in turn, with their numbers, and keeps the better one. -/
theorem greatest_cons_eq (best : Option (Nat × UInt64)) (i : Nat) (o : Option Tuple)
    (found : List (Option Tuple)) :
    greatest best i (o :: found) =
      greatest (choose greater best (o.map fun t => (i, t.key))) (i + 1) found := by
  cases o with
  | none => rfl
  | some t =>
    by_cases hgreater : best.all (greater (i, t.key)) = true
    · have hgreater' : best.all (·.2 < t.key) = true := hgreater
      rw [greatest, Option.map_some, choose, if_pos hgreater, if_pos hgreater']
    · have hgreater' : ¬ best.all (·.2 < t.key) = true := hgreater
      rw [greatest, Option.map_some, choose, if_neg hgreater, if_neg hgreater']

/-- A candidate from before is put in front of the others. -/
theorem greatest_eq_choose (best : Option (Nat × UInt64)) (i : Nat) (found : List (Option Tuple)) :
    greatest best i found = choose greater best (greatest none i found) := by
  induction found generalizing best i with
  | nil => rfl
  | cons o found ih =>
    rw [greatest_cons_eq, ih, greater_assoc, greatest_cons_eq none, ih (choose greater none _)]
    cases o <;> rfl

/-- The greatest of several heads is the better one of the first and of the greatest of the others. -/
theorem greatest_none_cons (i : Nat) (o : Option Tuple) (found : List (Option Tuple)) :
    greatest none i (o :: found) =
      choose greater (o.map fun t => (i, t.key)) (greatest none (i + 1) found) := by
  rw [greatest_cons_eq, greatest_eq_choose]
  cases o <;> rfl

/-- What is known of the last key with a pick and the head that has it. -/
def LastPick (lists : List (List Tuple)) (goal : UInt64) (i : Nat) :
    Option (Nat × UInt64) → Prop
  | none => ∀ key, key < goal → joinAt lists key = none
  | some (j, k) => k < goal ∧ (∀ key, k < key → key < goal → joinAt lists key = none) ∧
    ∃ m ts t, j = i + m ∧ lists[m]? = some ts ∧ firstAt k ts = some t ∧ joinAt lists k = some t

/-- A head without any key that matters does not count. -/
theorem LastPick.cons_of_lacks {i : Nat} {best : Option (Nat × UInt64)} (h : LastPick lists goal (i + 1) best)
    (hlacks : ∀ key, (∀ b ∈ best, b.2 ≤ key) → key < goal → firstAt key us = none) :
    LastPick (us :: lists) goal i best := by
  cases best with
  | none =>
    intro key hlt
    rw [joinAt_cons, hlacks key (fun b hb => nomatch hb) hlt, h key hlt]
    rfl
  | some b =>
    rcases b with ⟨j, k⟩
    obtain ⟨hlt, hnone, m, ts, t, hj, hts, hfirst, hjoin⟩ := h
    have hfrom : ∀ key, k ≤ key → key < goal → firstAt key us = none := fun key hle =>
      hlacks key fun b hb => Option.mem_some_iff.mp hb ▸ hle
    refine ⟨hlt, fun key hgt hlt => ?_, m + 1, ts, t, by rw [hj]; omega, hts, hfirst, ?_⟩
    · rw [joinAt_cons, hfrom key (UInt64.le_of_lt hgt) hlt, hnone key hgt hlt]
      rfl
    · rw [joinAt_cons, hfrom k (UInt64.le_refl k) hlt, hjoin]
      rfl

/-- A head is picked for its last key when no later head has a greater one, and it is the first with its
key. -/
theorem LastPick.cons_self {i : Nat} (hus : Sorted us) (hfind : lastBelow us goal = some u)
    (hnone : ∀ key, u.key < key → key < goal → joinAt lists key = none) :
    LastPick (us :: lists) goal i (some (i, u.key)) := by
  have hlacks : ∀ key, u.key < key → key < goal → firstAt key us = none := fun key hgt hlt =>
    firstAt_eq_none_iff.mpr fun v hv heq =>
      absurd (lastBelow_greatest hus hfind hv (heq ▸ hlt)) (UInt64.not_le.mpr (heq ▸ hgt))
  obtain ⟨t, ht⟩ : ∃ t, firstAt u.key us = some t := by
    refine Option.isSome_iff_exists.mp (Option.isSome_iff_ne_none.mpr fun hnone => ?_)
    exact firstAt_eq_none_iff.mp hnone u (mem_of_lastBelow hfind) rfl
  refine ⟨lt_of_lastBelow hus hfind, fun key hgt hlt => ?_, 0, us, t, rfl, rfl, ht, ?_⟩
  · rw [joinAt_cons, hlacks key hgt hlt, hnone key hgt hlt]
    rfl
  · rw [joinAt_cons, ht]
    rfl

/-- The greatest of the last keys of all heads is picked last. -/
theorem lastPick_greatest (hs : ∀ us ∈ lists, Sorted us) (goal : UInt64) (i : Nat) :
    LastPick lists goal i (greatest none i (lists.map (lastBelow · goal))) := by
  induction lists generalizing i with
  | nil => exact fun key _ => rfl
  | cons us lists ih =>
    obtain ⟨hus, hrest⟩ := List.forall_mem_cons.mp hs
    have hih := ih hrest (i + 1)
    rw [List.map_cons, greatest_none_cons]
    generalize greatest none (i + 1) (lists.map (lastBelow · goal)) = best at hih
    cases hfind : lastBelow us goal with
    | none =>
      -- the head at hand has no key before the goal, so that the others decide
      rw [Option.map_none, show choose greater none best = best by cases best <;> rfl]
      refine hih.cons_of_lacks fun key _ hlt => firstAt_eq_none_iff.mpr fun u hu heq => ?_
      exact absurd (le_of_lastBelow_eq_none hus hfind hu) (UInt64.not_le.mpr (heq ▸ hlt))
    | some u =>
      cases best with
      | none => exact .cons_self hus hfind fun key _ hlt => hih key hlt
      | some b =>
        rw [Option.map_some, choose]
        -- a later head is preferred only with a greater key, an equal one stays with the earlier head
        by_cases hgreater : u.key < b.2
        · rw [if_pos (by simpa [greater] using hgreater)]
          refine hih.cons_of_lacks fun key hle hlt => firstAt_eq_none_iff.mpr fun v hv heq => ?_
          have hgt := UInt64.lt_of_lt_of_le hgreater (hle b rfl)
          exact absurd (lastBelow_greatest hus hfind hv (heq ▸ hlt)) (UInt64.not_le.mpr (heq ▸ hgt))
        · rw [if_neg (by simpa [greater] using hgreater)]
          exact .cons_self hus hfind fun key hgt hlt =>
            hih.2.1 key (UInt64.lt_of_le_of_lt (UInt64.not_lt.mp hgreater) hgt) hlt

/-! ## Searching -/

/-- A search onwards finds the first tuple of the union from the goal on. -/
theorem reads_searchForward (hm : Merges (joinAt lists) ts) (h : AllShow ds heads lists) :
    ∃ heads', Over.Reads ds (searchForward goal) heads (firstFrom ts goal) heads' ∧
      AllShow ds heads' lists := by
  obtain ⟨heads', hrun, h'⟩ := h.each_map (ahead_answers ds goal)
  refine ⟨heads', ?_, h'⟩
  rw [hm.firstFrom_eq (nextPick_least (fun us hus => h.sorted hus) goal)]
  exact hrun.bind (.pure heads' _)

/-- A search backwards finds the last tuple of the union below the goal. It asks the first head that has the
greatest key for its first tuple there, which is what a search onwards finds too. -/
theorem reads_searchBackward (hm : Merges (joinAt lists) ts) (h : AllShow ds heads lists) :
    ∃ heads', Over.Reads ds (searchBackward goal) heads (lastBelow ts goal) heads' ∧
      AllShow ds heads' lists := by
  obtain ⟨heads₁, hrun₁, h₁⟩ := h.each_map (behind_answers ds goal)
  have hlast := lastPick_greatest (fun us hus => h.sorted hus) goal 0
  -- all heads are asked first, and the head with the greatest key is read once more
  cases hg : greatest none 0 (lists.map (lastBelow · goal)) with
  | none =>
    rw [hg] at hlast
    refine ⟨heads₁, hrun₁.bind ?_, h₁⟩
    rw [hg, hm.lastBelow_eq_none hlast]
    exact .pure heads₁ _
  | some b =>
    rcases b with ⟨j, k⟩
    rw [hg] at hlast
    obtain ⟨hlt, hnone, m, us, t, hj, hus, hfirst, hjoin⟩ := hlast
    obtain rfl : j = m := by omega
    obtain rfl := key_of_firstAt hfirst
    obtain ⟨heads₂, hrun₂, h₂⟩ := h₁.at_ (ahead_answers ds t.key) j
    have hfound : lists[j]?.bind (firstFrom · t.key) = some t := by
      rw [hus, Option.bind_some, firstFrom_eq_firstAt (h.sorted (List.mem_of_getElem? hus))
        (mem_of_firstAt hfirst), hfirst]
    refine ⟨heads₂, hrun₁.bind ?_, h₂⟩
    rw [hg, hm.lastBelow_eq_some hjoin hlt hnone]
    rw [hfound] at hrun₂
    exact hrun₂

/-! ## All steps -/

/-- A union of heads other than one shows the merged list. -/
structure Joins (ds : Disks) (c : Disjunction C) (ts : List Tuple) (boundary : UInt64) : Prop where
  several : c.heads.length ≠ 1
  boundary_eq : c.boundary = boundary
  shown : ∃ lists, AllShow ds c.heads lists ∧ Merges (joinAt lists) ts

variable {x : Disjunction C} {boundary : UInt64}

/-- Moving the boundary leaves the heads where they are: each look seeks anew. -/
theorem Joins.moveTo (h : Joins ds x ts boundary) (boundary' : UInt64) :
    Joins ds { x with boundary := boundary' } ts boundary' :=
  ⟨h.several, rfl, h.shown⟩

/-- An action on the heads, for unions of other than one head. -/
theorem Joins.reads_look {search : UInt64 → Act (Over (List C)) (Option Tuple)}
    {single : Act (Over (List C)) (Option Tuple)} {answer : Option Tuple}
    (h : Joins ds x ts boundary)
    (hsearch : ∀ {heads : List C} {lists}, Merges (joinAt lists) ts → AllShow ds heads lists →
      ∃ heads', Over.Reads ds (search boundary) heads answer heads' ∧ AllShow ds heads' lists) :
    ∃ x', Over.Reads ds (do
        let c ← Over.current
        match c.heads with
        | [_] => onHeads single
        | _ => onHeads (search c.boundary)) x answer x' ∧ Joins ds x' ts boundary := by
  obtain ⟨lists, hshow, hm⟩ := h.shown
  rcases x with ⟨heads, b⟩
  obtain rfl : b = boundary := h.boundary_eq
  obtain ⟨heads', hrun, h'⟩ := hsearch hm hshow
  refine ⟨⟨heads', b⟩, (Over.Reads.current _).bind ?_, ?_, rfl, lists, h', hm⟩
  · rcases heads with _ | ⟨c₁, _ | ⟨c₂, rest⟩⟩
    · exact hrun.through
    · exact absurd rfl h.several
    · exact hrun.through
  · exact fun hone => h.several (hshow.length_eq.trans (h'.length_eq.symm.trans hone))

/-- A look onwards finds the first tuple of the union from the boundary on. -/
theorem Joins.reads_lookForward (h : Joins ds x ts boundary) :
    ∃ x', Over.Reads ds lookForward x (firstFrom ts boundary) x' ∧ Joins ds x' ts boundary :=
  h.reads_look reads_searchForward

/-- A look backwards finds the last tuple of the union below the boundary. -/
theorem Joins.reads_lookBackward (h : Joins ds x ts boundary) :
    ∃ x', Over.Reads ds lookBackward x (lastBelow ts boundary) x' ∧ Joins ds x' ts boundary :=
  h.reads_look reads_searchBackward

/-- Unions of other than one head go with their merged lists. -/
theorem bounded_joins (ds : Disks) : Bounded ds (Joins ds (C := C)) := by
  apply (merging C).bounded
  case hseveral => exact fun h => h.several
  case hmove => exact fun b' h => h.moveTo b'
  case hstrict =>
    intro x ts b h
    obtain ⟨lists, -, hm⟩ := h.shown
    exact hm.strict
  case hextent =>
    intro x ts b h
    obtain ⟨lists, hshow, hm⟩ := h.shown
    -- each result has a key of its own, and that is a key of one of the lists
    have hle : ts.length ≤ (keysOf lists).length := hm.length_le fun t ht => by
      obtain ⟨-, us, hus, hmem⟩ := joinAt_mem (hm.pick_eq ht)
      exact key_mem_keysOf hus hmem
    rw [length_keysOf] at hle
    exact Nat.le_trans hle hshow.extent
  case hnext => exact fun h => h.reads_lookForward
  case hprevious => exact fun h => h.reads_lookBackward

/-- A union of one list shows that list, with all its runs, for it hands every call on to its head. -/
theorem shows_single {us : List Tuple} {p : Nat} (hheads : x.heads = [c]) (h : Shows ds c us p) :
    Shows ds x us p :=
  (merging C).shows_single rfl hheads h

/-! ## Opening -/

/-- The tuples of a union of several heads. -/
def joins (lists : List (List Tuple)) : List Tuple := inKeyOrder (keysOf lists) (joinAt lists)

/-- The list of the union has just the tuples that are joined, one for a key. -/
theorem merges_joins (lists : List (List Tuple)) : Merges (joinAt lists) (joins lists) :=
  Merges.of_keys (fun key t hpick => (joinAt_mem hpick).1) fun key t hpick => by
    obtain ⟨rfl, us, hus, ht⟩ := joinAt_mem hpick
    exact key_mem_keysOf hus ht

variable {inputs : List (List Tuple × Nat)}

/-- A union is opened with its boundary behind the keys that its heads reach, except that the largest key
has no place behind it. -/
theorem reads_boundary (h : Stand ds heads inputs) :
    ∃ x : Disjunction C, PageFile.Reads ds (ofHeads heads) x ∧ Stand ds x.heads inputs ∧
      ∀ key, key < x.boundary ↔ reaches inputs key = true ∧ key ≠ maxKey := by
  obtain ⟨heads', boundary, hrun, h', hboundary⟩ := h.initialBoundary
  refine ⟨⟨heads', boundary⟩, fun f hf hd => ?_, h', hboundary⟩
  obtain ⟨f', hrun', hf', hd'⟩ := hrun f hf hd
  exact ⟨f', by simp only [ofHeads, hrun'], hf', hd'⟩

/-- Where no tuple has the largest key, the boundary lies behind all keys that the heads reach. -/
theorem reads_opened (h : Stand ds heads inputs) :
    ∃ x : Disjunction C, PageFile.Reads ds (ofHeads heads) x ∧ Stand ds x.heads inputs ∧
      ((∀ input ∈ inputs, ∀ t ∈ input.1, t.key ≠ maxKey) →
        ∀ key, key < x.boundary ↔ reaches inputs key = true) := by
  obtain ⟨x, hread, h', hboundary⟩ := reads_boundary h
  refine ⟨x, hread, h', fun hmax key => (hboundary key).trans ?_⟩
  exact and_iff_left_of_imp (ne_maxKey_of_reaches hmax)

/-- Heads that stand in some lists make a union of these lists. -/
theorem Joins.of_stand {x : Disjunction C} (h : Stand ds x.heads inputs) (hlen : inputs.length ≠ 1) :
    Joins ds x (joins (inputs.map Prod.fst)) x.boundary where
  several hone := hlen ((List.Forall₂.length_eq h).symm.trans hone)
  boundary_eq := rfl
  shown := ⟨_, h.allShow, merges_joins _⟩

/-- No result has the largest key when no tuple of the heads has it. -/
theorem joins_of_stand {x : Disjunction C} (h : Stand ds x.heads inputs)
    (hmax : ∀ input ∈ inputs, ∀ t ∈ input.1, t.key ≠ maxKey) (hlen : inputs.length ≠ 1) :
    Joins ds x (joins (inputs.map Prod.fst)) x.boundary ∧
      ∀ t ∈ joins (inputs.map Prod.fst), t.key ≠ maxKey := by
  refine ⟨.of_stand h hlen, fun t ht => ?_⟩
  obtain ⟨-, us, hus, hmem⟩ := joinAt_mem ((merges_joins _).pick_eq ht)
  obtain ⟨input, hinput, rfl⟩ := List.mem_map.mp hus
  exact hmax input hinput t hmem

/-- The list that a union shows: that of a single head, or the merged list. -/
def Unites : List (List Tuple) → List Tuple → Prop
  | [us], ts => ts = us
  | lists, ts => Merges (joinAt lists) ts

/-- A union of heads where they stand shows a list. -/
theorem reads_ofHeads (h : AllShow ds heads lists)
    (hmax : ∀ us ∈ lists, ∀ u ∈ us, u.key ≠ maxKey) :
    ∃ x ts p, PageFile.Reads ds (ofHeads heads) x ∧ Shows ds x ts p ∧ Unites lists ts := by
  obtain ⟨inputs, hstand, rfl⟩ := h.exists_stand
  obtain ⟨x, hread, h', -⟩ := reads_opened hstand
  by_cases hone : inputs.length = 1
  · obtain ⟨⟨us, p⟩, rfl⟩ := List.length_eq_one_iff.mp hone
    rcases hheads : x.heads with _ | ⟨c, _ | _⟩ <;> rw [hheads] at h' <;>
      rcases h' with _ | ⟨hc, ⟨⟩⟩
    exact ⟨x, us, p, hread, shows_single hheads hc, rfl⟩
  · have hjoins := joins_of_stand h' (fun input hinput => hmax _ (List.mem_map_of_mem hinput)) hone
    refine ⟨x, _, _, hread, (bounded_joins ds).mimicry.shows ⟨x.boundary, hjoins, rfl⟩, ?_⟩
    unfold Unites
    split
    · rename_i heq
      rw [← List.length_map, heq] at hone
      exact absurd rfl hone
    · exact merges_joins _

end Disjunction

end EventIndex
