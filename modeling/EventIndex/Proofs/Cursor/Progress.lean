import EventIndex.Proofs.Cursor.Intersection
import EventIndex.Proofs.Cursor.Union

/-! # How far merged cursors get

A step forward over a tuple puts the boundary of a merged cursor behind its key, and behind the largest key
there is no boundary. A merged cursor therefore goes through its results as a cursor in memory does that
never gets behind the largest key (`Move.heldFinds`), and `Advances` says what this means for steps forward
from wherever the cursor has been brought:

- a result with a lesser key is passed: a step back returns it again, and the next step forward returns a
  greater key or nothing;
- a result with the largest key is returned and not passed: the next step forward returns it again, and a
  step back does not.

Steps forward come to an end after all results ahead if none of them has the largest key, and otherwise
never (`merged_advance`).
-/

namespace EventIndex

open Cursor EventIndex.Tuple

/-! ## Held in front of the largest key -/

namespace Move

/-- The place in a list after a move that does not get behind the largest key. -/
def heldGap (ts : List Tuple) (p : Nat) : Move → Nat
  | next => min (p + 1) (place ts maxKey)
  | m => m.gap ts p

/-- The tuples that some moves find when none of them gets behind the largest key. -/
def heldFinds (ts : List Tuple) : (p : Nat) → List Move → List (Option Tuple)
  | _, [] => []
  | p, m :: moves => m.found ts p :: heldFinds ts (m.heldGap ts p) moves

/-- The place in a list after such moves. -/
def heldEnd (ts : List Tuple) : (p : Nat) → List Move → Nat
  | p, [] => p
  | p, m :: moves => heldEnd ts (m.heldGap ts p) moves

end Move

namespace Cursor

variable {ts as : List Tuple} {t : Tuple} {p n : Nat}

/-- From the place of the largest key on there is the tuple with this key, or nothing. -/
theorem drop_place_maxKey (h : ts.Pairwise fun t u => t.key < u.key) :
    ts.drop (place ts maxKey) = (firstAt maxKey ts).toList := by
  cases hlast : firstAt maxKey ts with
  | none => rw [place_maxKey (firstAt_eq_none_iff.mp hlast), List.drop_length, Option.toList_none]
  | some t =>
    obtain ⟨ht, as, bs, rfl, hless⟩ := List.find?_eq_some_iff_append.mp hlast
    have hkey : t.key = maxKey := by simpa using ht
    have hbs : bs = [] := by
      -- what comes after the tuple had a greater key
      refine List.eq_nil_iff_forall_not_mem.mpr ?_
      intro u hu
      have hgreater := (List.pairwise_cons.mp (List.pairwise_append.mp h).2.1).1 u hu
      rw [hkey] at hgreater
      exact UInt64.not_lt.mpr (le_maxKey u.key) hgreater
    subst hbs
    have hplace : place (as ++ [t]) maxKey = as.length := by
      apply place_of_split
      · intro u hu
        exact lt_maxKey_iff.mpr (by simpa using hless u hu)
      · intro u hu
        rw [List.mem_singleton.mp hu, hkey]
        exact UInt64.le_refl _
    rw [hplace, List.drop_left, Option.toList_some]

theorem getElem?_place_maxKey (h : ts.Pairwise fun t u => t.key < u.key) :
    ts[place ts maxKey]? = firstAt maxKey ts := by
  rw [← List.head?_drop, drop_place_maxKey h]
  cases firstAt maxKey ts <;> rfl

/-- A prefix does not tell how often the last value is repeated, if often enough. -/
theorem take_append_replicate {α : Type} (as : List α) (a : α) {k : Nat} (h : n ≤ k) :
    (as ++ List.replicate k a).take n = (as ++ List.replicate n a).take n := by
  rw [List.take_append, List.take_append, List.take_replicate, List.take_replicate,
    Nat.min_eq_left (by omega), Nat.min_eq_left (by omega)]

/-- Steps forward find the tuples ahead, and then the one with the largest key again and again. -/
theorem heldFinds_replicate_next (h : ts.Pairwise fun t u => t.key < u.key)
    (hp : p ≤ place ts maxKey) (n : Nat) :
    Move.heldFinds ts p (.replicate n .next) =
      ((ts.drop p).map some ++ List.replicate n (firstAt maxKey ts)).take n := by
  induction n generalizing p with
  | zero => rfl
  | succ n ih =>
    have hfinds : Move.heldFinds ts p (.replicate (n + 1) .next) =
        ts[p]? :: Move.heldFinds ts (min (p + 1) (place ts maxKey)) (.replicate n .next) := rfl
    rw [hfinds, ih (Nat.min_le_right _ _)]
    rcases Nat.lt_or_eq_of_le hp with hlt | rfl
    · -- the step moves on
      have hlt' : p < ts.length := Nat.lt_of_lt_of_le hlt (place_le ts maxKey)
      rw [Nat.min_eq_left hlt, List.getElem?_eq_getElem hlt', List.drop_eq_getElem_cons hlt',
        List.map_cons, List.cons_append, List.take_succ_cons, take_append_replicate _ _ n.le_succ]
    · -- the step stays
      rw [Nat.min_eq_right (Nat.le_succ _), getElem?_place_maxKey h, drop_place_maxKey h]
      cases firstAt maxKey ts with
      | none => simp [List.replicate_succ]
      | some t => simp [List.replicate_succ]

/-- The tuples that are found before the first step that finds none. -/
def upToNone : List (Option Tuple) → List Tuple
  | some t :: rest => t :: upToNone rest
  | _ => []

theorem upToNone_append (ts : List Tuple) (n : Nat) :
    upToNone (ts.map some ++ List.replicate n none) = ts := by
  induction ts with
  | nil => cases n <;> rfl
  | cons t ts ih => rw [List.map_cons, List.cons_append, upToNone, ih]

theorem upToNone_map_some (ts : List Tuple) : upToNone (ts.map some) = ts := by
  simpa using upToNone_append ts 0

/-- The keys of neighbours grow. -/
theorem lt_of_getElem?_succ {u : Tuple} (h : ts.Pairwise fun t u => t.key < u.key)
    (ht : ts[p]? = some t) (hu : ts[p + 1]? = some u) : t.key < u.key := by
  obtain ⟨hlt, rfl⟩ := List.getElem?_eq_some_iff.mp ht
  obtain ⟨hlt', rfl⟩ := List.getElem?_eq_some_iff.mp hu
  exact List.pairwise_iff_getElem.mp h _ _ hlt hlt' (Nat.lt_succ_self _)

/-- A list in strict key order has no more tuples than there are keys below a bound. -/
theorem length_le_of_strict (h : ts.Pairwise fun t u => t.key < u.key)
    (hbelow : ∀ t ∈ ts, t.key.toNat < n) : ts.length ≤ n := by
  -- the keys are different numbers below the bound
  have hnodup : (ts.map fun t => t.key.toNat).Nodup :=
    List.pairwise_map.mpr (h.imp fun hlt => Nat.ne_of_lt hlt)
  have hsub : (ts.map fun t => t.key.toNat) ⊆ List.range n := by
    intro k hk
    obtain ⟨t, ht, rfl⟩ := List.mem_map.mp hk
    exact List.mem_range.mpr (hbelow t ht)
  have hlen := (hnodup.subperm hsub).length_le
  rwa [List.length_map, List.length_range] at hlen

/-- The keys of a list without the largest key can all be asked for. -/
theorem length_le_allTuples (h : ts.Pairwise fun t u => t.key < u.key)
    (hbelow : ∀ t ∈ ts, t.key ≠ maxKey) : ts.length ≤ allTuples :=
  length_le_of_strict h fun t ht => UInt64.lt_iff_toNat_lt.mp (lt_maxKey_iff.mpr (hbelow t ht))

/-- All keys that a cursor returns going forward, with `last` again and again after those ahead: as many as
can be asked for. -/
def keysToCome (ahead : List Tuple) : (last : Option Tuple) → List UInt64
  | none => ahead.map Tuple.key
  | some t => (ahead.map Tuple.key ++ List.replicate allTuples t.key).take allTuples

theorem map_key_upToNone {last : Option Tuple} (h : last = none → as.length ≤ allTuples) :
    (upToNone ((as.map some ++ List.replicate allTuples last).take allTuples)).map Tuple.key =
      keysToCome as last := by
  cases last with
  | none =>
    have hlen := h rfl
    rw [List.take_append, List.take_of_length_le (by rwa [List.length_map]), List.take_replicate,
      upToNone_append]
    rfl
  | some t =>
    rw [← List.map_replicate, ← List.map_append, ← List.map_take, upToNone_map_some, List.map_take,
      List.map_append, List.map_replicate]
    rfl

/-! ## Going forward -/

variable {C : Type} [Cursor C] {ds : Disks} {R : C → List Tuple → UInt64 → Prop} {c : C} {b : UInt64}
  {pages : PageFile}

/-- How a cursor goes forward with the tuples `ahead` ahead of it, where `last` is the one of its list with
the largest key, if there is any. -/
structure Advances (s : Over C) (ahead : List Tuple) (last : Option Tuple) : Prop where
  found : ∃ s', next s = .ok ahead.head? s'
  /-- A tuple with a lesser key is passed. -/
  passed : ∀ t s', next s = .ok (some t) s' → t.key ≠ maxKey →
    (∃ s'', previous s' = .ok (some t) s'') ∧
      ∃ after s'', next s' = .ok after s'' ∧ ∀ u, after = some u → t.key < u.key
  /-- The tuple with the largest key is not. -/
  repeated : ∀ t s', next s = .ok (some t) s' → t.key = maxKey →
    (∃ behind s'', previous s' = .ok behind s'' ∧ behind ≠ some t) ∧
      ∃ s'', next s' = .ok (some t) s''
  steps : ∀ n, ∃ s', Move.walk (.replicate n .next) s =
    .ok ((ahead.map some ++ List.replicate n last).take n) s'
  remaining : ∃ s', remainingKeys s = .ok (keysToCome ahead last) s'

namespace Bounded

/-- A move finds what it finds in the list, and the boundary follows the place. -/
theorem move (hR : Bounded ds R) (h : R c ts b) (m : Move) :
    ∃ c' b', Over.Reads ds m.act c (m.found ts (place ts b)) c' ∧ R c' ts b' ∧
      place ts b' = m.heldGap ts (place ts b) := by
  cases m with
  | peekNext =>
    obtain ⟨c', hrun, h'⟩ := hR.peekNext h
    exact ⟨c', b, hrun, h', rfl⟩
  | peekPrevious =>
    obtain ⟨c', hrun, h'⟩ := hR.peekPrevious h
    exact ⟨c', b, hrun, h', rfl⟩
  | next =>
    obtain ⟨c', hrun, h'⟩ := hR.next h
    exact ⟨c', _, hrun, h', place_boundaryPast (hR.strict h) b⟩
  | previous =>
    obtain ⟨c', hrun, h'⟩ := hR.previous h
    exact ⟨c', _, hrun, h', place_boundaryBack (hR.strict h) b⟩
  | seek key =>
    obtain ⟨c', hrun, h'⟩ := hR.seek key h
    exact ⟨c', key, hrun.bind (.pure c' none), h', rfl⟩

theorem walk (hR : Bounded ds R) (h : R c ts b) (moves : List Move) :
    ∃ c' b', Over.Reads ds (Move.walk moves) c (Move.heldFinds ts (place ts b) moves) c' ∧
      R c' ts b' ∧ place ts b' = Move.heldEnd ts (place ts b) moves := by
  induction moves generalizing c b with
  | nil => exact ⟨c, b, .pure c [], h, rfl⟩
  | cons m moves ih =>
    obtain ⟨c₁, b₁, hrun₁, h₁, hplace₁⟩ := hR.move h m
    obtain ⟨c₂, b₂, hrun₂, h₂, hplace₂⟩ := ih h₁
    rw [hplace₁] at hrun₂ hplace₂
    exact ⟨c₂, b₂, hrun₁.bind (hrun₂.bind (.pure c₂ _)), h₂, hplace₂⟩

theorem collectForward (hR : Bounded ds R) (h : R c ts b) (limit : Nat) :
    ∃ c', Over.Reads ds (collectForward limit) c
      (upToNone (Move.heldFinds ts (place ts b) (.replicate limit .next))) c' := by
  induction limit generalizing c b with
  | zero => exact ⟨c, .pure c []⟩
  | succ limit ih =>
    obtain ⟨c₁, b₁, hrun₁, h₁, hplace₁⟩ := hR.move h .next
    have hfinds : Move.heldFinds ts (place ts b) (.replicate (limit + 1) .next) =
        ts[place ts b]? :: Move.heldFinds ts (place ts b₁) (.replicate limit .next) := by
      rw [hplace₁]
      rfl
    rw [hfinds]
    cases hget : ts[place ts b]? with
    | none =>
      rw [Move.found, hget] at hrun₁
      exact ⟨c₁, hrun₁.bind (.pure c₁ [])⟩
    | some t =>
      rw [Move.found, hget] at hrun₁
      obtain ⟨c₂, hrun₂⟩ := ih h₁
      exact ⟨c₂, hrun₁.bind (hrun₂.bind (.pure c₂ _))⟩

/-- What a step forward finds, and where it leads. -/
theorem next_spec (hR : Bounded ds R) (h : R c ts b) (hpages : pages.Sound) (hdisk : ds pages.disk) :
    ∃ c' b' pages', Cursor.next ⟨c, pages⟩ = .ok ts[place ts b]? ⟨c', pages'⟩ ∧ R c' ts b' ∧
      place ts b' = min (place ts b + 1) (place ts maxKey) ∧ pages'.Sound ∧ ds pages'.disk := by
  obtain ⟨c', b', hrun, h', hplace⟩ := hR.move h .next
  obtain ⟨pages', hnext, hpages', hdisk'⟩ := hrun pages hpages hdisk
  exact ⟨c', b', pages', hnext, h', hplace, hpages', hdisk'.symm ▸ hdisk⟩

theorem previous_spec (hR : Bounded ds R) (h : R c ts b) (hpages : pages.Sound)
    (hdisk : ds pages.disk) :
    ∃ s', Cursor.previous ⟨c, pages⟩ = .ok (before ts (place ts b)) s' := by
  obtain ⟨c', hrun, -⟩ := hR.previous h
  obtain ⟨pages', hprevious, -, -⟩ := hrun pages hpages hdisk
  exact ⟨_, hprevious⟩

theorem remainingKeys_spec (hR : Bounded ds R) (h : R c ts b) (hpages : pages.Sound)
    (hdisk : ds pages.disk) :
    ∃ s', remainingKeys ⟨c, pages⟩ =
      .ok (keysToCome (ts.drop (place ts b)) (firstAt maxKey ts)) s' := by
  have hstrict := hR.strict h
  obtain ⟨c', hrun⟩ := hR.collectForward h allTuples
  rw [heldFinds_replicate_next hstrict (place_mono ts (le_maxKey b))] at hrun
  obtain ⟨pages', hcollect, -, -⟩ := hrun pages hpages hdisk
  rw [← map_key_upToNone]
  · exact ⟨⟨c', pages'⟩, Act.bind_ok hcollect⟩
  · -- without the largest key, all that is ahead comes before the limit
    intro hlast
    have hbelow := firstAt_eq_none_iff.mp hlast
    apply length_le_allTuples (hstrict.drop (i := place ts b))
    intro t ht
    exact hbelow t (List.mem_of_mem_drop ht)

/-- A step forward that returns a tuple returns the one at the place, and leads behind it unless its key is
the largest. -/
theorem next_inv (hR : Bounded ds R) (h : R c ts b) (hpages : pages.Sound) (hdisk : ds pages.disk)
    {s' : Over C} (hnext : Cursor.next ⟨c, pages⟩ = .ok (some t) s') :
    ts[place ts b]? = some t ∧ ∃ b', R s'.item ts b' ∧
      place ts b' = min (place ts b + 1) (place ts maxKey) ∧ s'.pages.Sound ∧ ds s'.pages.disk := by
  obtain ⟨c', b', pages', hspec, h', hplace, hpages', hdisk'⟩ := hR.next_spec h hpages hdisk
  injection hspec.symm.trans hnext with hget hs
  subst hs
  exact ⟨hget, b', h', hplace, hpages', hdisk'⟩

/-- A tuple with a lesser key is passed: it is the next one back, and the next one forward is greater. -/
theorem passes (hR : Bounded ds R) (h : R c ts b) (hpages : pages.Sound) (hdisk : ds pages.disk)
    {s' : Over C} (hnext : Cursor.next ⟨c, pages⟩ = .ok (some t) s') (hkey : t.key ≠ maxKey) :
    (∃ s'', Cursor.previous s' = .ok (some t) s'') ∧
      ∃ after s'', Cursor.next s' = .ok after s'' ∧ ∀ u, after = some u → t.key < u.key := by
  obtain ⟨hget, b', h', hplace, hpages', hdisk'⟩ := hR.next_inv h hpages hdisk hnext
  have hstrict := hR.strict h
  have hlt : place ts b < place ts maxKey :=
    (lt_place_iff (hstrict.imp UInt64.le_of_lt) hget).mpr (lt_maxKey_iff.mpr hkey)
  rw [Nat.min_eq_left hlt] at hplace
  obtain ⟨s₂, hback⟩ := hR.previous_spec h' hpages' hdisk'
  obtain ⟨c₂, b₂, pages₂, hagain, -⟩ := hR.next_spec h' hpages' hdisk'
  rw [hplace, before_succ, hget] at hback
  rw [hplace] at hagain
  refine ⟨⟨s₂, hback⟩, _, _, hagain, ?_⟩
  intro u hu
  exact lt_of_getElem?_succ hstrict hget hu

/-- The tuple with the largest key is not passed: it is the next one forward again, and not the next one
back. -/
theorem stays (hR : Bounded ds R) (h : R c ts b) (hpages : pages.Sound) (hdisk : ds pages.disk)
    {s' : Over C} (hnext : Cursor.next ⟨c, pages⟩ = .ok (some t) s') (hkey : t.key = maxKey) :
    (∃ behind s'', Cursor.previous s' = .ok behind s'' ∧ behind ≠ some t) ∧
      ∃ s'', Cursor.next s' = .ok (some t) s'' := by
  obtain ⟨hget, b', h', hplace, hpages', hdisk'⟩ := hR.next_inv h hpages hdisk hnext
  have hsorted : Sorted ts := (hR.strict h).imp UInt64.le_of_lt
  -- the tuple is the last one, so the place is the one where the cursor is held
  have hat : place ts b = place ts maxKey := by
    refine Nat.le_antisymm (place_mono ts (le_maxKey b)) (Nat.not_lt.mp ?_)
    intro hlt
    exact lt_maxKey_iff.mp ((lt_place_iff hsorted hget).mp hlt) hkey
  rw [← hat, Nat.min_eq_right (Nat.le_succ _)] at hplace
  obtain ⟨s₂, hback⟩ := hR.previous_spec h' hpages' hdisk'
  obtain ⟨c₂, b₂, pages₂, hagain, -⟩ := hR.next_spec h' hpages' hdisk'
  rw [hplace] at hback hagain
  rw [hget] at hagain
  refine ⟨⟨_, s₂, hback, ?_⟩, _, hagain⟩
  intro hbefore
  -- what lies before the place has a lesser key
  have hless : t.key < b := lt_of_lastBelow hsorted hbefore
  rw [hkey] at hless
  exact UInt64.not_lt.mpr (le_maxKey b) hless

/-- From a boundary anywhere, the tuples from its place on lie ahead. -/
theorem advances (hR : Bounded ds R) (h : R c ts b) (hpages : pages.Sound) (hdisk : ds pages.disk) :
    Advances ⟨c, pages⟩ (ts.drop (place ts b)) (firstAt maxKey ts) where
  found := by
    obtain ⟨c', b', pages', hnext, -⟩ := hR.next_spec h hpages hdisk
    rw [List.head?_drop]
    exact ⟨_, hnext⟩
  passed _ _ hnext hkey := hR.passes h hpages hdisk hnext hkey
  repeated _ _ hnext hkey := hR.stays h hpages hdisk hnext hkey
  steps n := by
    obtain ⟨c', b', hrun, -, -⟩ := hR.walk h (.replicate n .next)
    obtain ⟨pages', hwalk, -, -⟩ := hrun pages hpages hdisk
    rw [heldFinds_replicate_next (hR.strict h) (place_mono ts (le_maxKey b))] at hwalk
    exact ⟨_, hwalk⟩
  remaining := hR.remainingKeys_spec h hpages hdisk

end Bounded

/-- An action opens a cursor with its gap at a place of a list. Wherever some moves bring it, it goes
forward from there as `Advances` says. -/
def OpensHeld (ds : Disks) (opened : Act PageFile C) (ts : List Tuple) (p : Nat) : Prop :=
  ∀ pages : PageFile, pages.Sound → ds pages.disk → ∀ moves : List Move,
    ∃ c pages₁ s, opened pages = .ok c pages₁ ∧
      Move.walk moves ⟨c, pages₁⟩ = .ok (Move.heldFinds ts p moves) s ∧
      Advances s (ts.drop (Move.heldEnd ts p moves)) (firstAt maxKey ts)

theorem Bounded.opensHeld (hR : Bounded ds R) {opened : Act PageFile C}
    (hread : PageFile.Reads ds opened c) (h : R c ts b) : OpensHeld ds opened ts (place ts b) := by
  intro pages hpages hdisk moves
  obtain ⟨pages₁, hopen, hpages₁, hdisk₁⟩ := hread pages hpages hdisk
  obtain ⟨c', b', hrun, h', hplace⟩ := hR.walk h moves
  obtain ⟨pages₂, hwalk, hpages₂, hdisk₂⟩ := hrun pages₁ hpages₁ (hdisk₁.symm ▸ hdisk)
  refine ⟨c, pages₁, _, hopen, hwalk, ?_⟩
  rw [← hplace]
  refine hR.advances h' hpages₂ ?_
  rw [hdisk₂, hdisk₁]
  exact hdisk

end Cursor

namespace Heads

variable {C : Type} [Cursor C] {ds : Disks} {heads : List C} {inputs : List (List Tuple × Nat)}
  {first : List Tuple × Nat} {ts : List Tuple}

/-- How many results lie behind a merged cursor when it is opened. -/
def passedAtFirst (inputs : List (List Tuple × Nat)) (ts : List Tuple) : Nat :=
  ts.countP fun t => reaches inputs t.key ∧ t.key ≠ maxKey

theorem place_eq_passedAtFirst {boundary : UInt64}
    (h : ∀ key, key < boundary ↔ reaches inputs key = true ∧ key ≠ maxKey) (ts : List Tuple) :
    place ts boundary = passedAtFirst inputs ts := by
  apply List.countP_congr
  intro t _
  rw [decide_eq_true_eq, decide_eq_true_eq]
  exact h t.key

theorem opensHeld_meets (h : Stand ds heads inputs) (hlen : inputs.length ≠ 1) (matchRoles : Bool) :
    OpensHeld ds (Conjunction.ofHeads heads matchRoles)
      (Conjunction.meets matchRoles (inputs.map Prod.fst))
      (passedAtFirst inputs (Conjunction.meets matchRoles (inputs.map Prod.fst))) := by
  obtain ⟨x, hread, rfl, h', hboundary⟩ := Conjunction.reads_boundary h matchRoles
  rw [← place_eq_passedAtFirst hboundary]
  exact (Conjunction.bounded_meets ds x.heads.length).opensHeld hread ⟨.of_stand h' hlen, rfl⟩

theorem opensHeld_joins (h : Stand ds heads inputs) (hlen : inputs.length ≠ 1) :
    OpensHeld ds (Disjunction.ofHeads heads) (Disjunction.joins (inputs.map Prod.fst))
      (passedAtFirst inputs (Disjunction.joins (inputs.map Prod.fst))) := by
  obtain ⟨x, hread, h', hboundary⟩ := Disjunction.reads_boundary h
  rw [← place_eq_passedAtFirst hboundary]
  exact (Disjunction.bounded_joins ds).opensHeld hread (.of_stand h' hlen)

/-- A merged cursor of two heads or more goes forward over its results, and never gets behind the largest
key.

The largest key is not excluded here. A step onwards that finds it leaves the gap in front of it, so
that the next step finds it again. -/
theorem merged_advance (h : Stand ds heads (first :: inputs)) (hlen : 2 ≤ heads.length) :
    (∃ ts, Conjunction.IsIntersection ((first :: inputs).map Prod.fst) ts ∧
      OpensHeld ds (Conjunction.ofHeads heads false) ts (passedAtFirst (first :: inputs) ts)) ∧
    (∃ ts, Conjunction.IsMatching first.1 (inputs.map Prod.fst) ts ∧
      OpensHeld ds (Conjunction.ofHeads heads true) ts (passedAtFirst (first :: inputs) ts)) ∧
    ∃ ts, Disjunction.IsUnion ((first :: inputs).map Prod.fst) ts ∧
      OpensHeld ds (Disjunction.ofHeads heads) ts (passedAtFirst (first :: inputs) ts) := by
  have hinputs : (first :: inputs).length ≠ 1 := by
    rw [← List.Forall₂.length_eq h]
    omega
  refine ⟨?_, ?_, ?_⟩
  · exact ⟨_, Conjunction.isIntersection_meets (List.cons_ne_nil _ _),
      opensHeld_meets h hinputs false⟩
  · exact ⟨_, Conjunction.isMatching_meets, opensHeld_meets h hinputs true⟩
  · exact ⟨_, Disjunction.isUnion_joins _, opensHeld_joins h hinputs⟩

/-- The largest key is in both heads, key 4 in one of them. -/
theorem merged_advance_small :
    OpensHeld (fun _ => True)
      (Disjunction.ofHeads [Listed.standing [plain 4, plain maxKey] 0,
        Listed.standing [plain maxKey] 0])
      [plain 4, plain maxKey] 0 := by
  have hstand : Stand (fun _ => True)
      [Listed.standing [plain 4, plain maxKey] 0, Listed.standing [plain maxKey] 0]
      [([plain 4, plain maxKey], 0), ([plain maxKey], 0)] :=
    .cons (Listed.shows _ (by decide) (by decide)) (.cons (Listed.shows _ (by decide) (by decide)) .nil)
  obtain ⟨-, -, ts, hts, hopens⟩ := merged_advance hstand (by decide)
  have hresult : Disjunction.joins [[plain 4, plain maxKey], [plain maxKey]] =
      [plain 4, plain maxKey] := by cbv
  have heq : ts = [plain 4, plain maxKey] := (hts.unique (Disjunction.isUnion_joins _)).trans hresult
  subst heq
  exact hopens

/-- Both merged cursors return the largest key at each of two steps forward, and nothing at a step back. -/
theorem returns_largest_again :
    ∃ fresh, PageFile.create 256 16 = .ok fresh ∧
      Act.outcome (Disjunction.ofHeads [Listed.standing [plain maxKey] 0, Listed.standing [] 0] >>=
          fun x => Over.runOn x (Move.walk [.next, .next, .previous])) fresh =
        .ok [some (plain maxKey), some (plain maxKey), none] ∧
      Act.outcome (Conjunction.ofHeads [Listed.standing [plain maxKey] 0,
          Listed.standing [plain maxKey] 0] false >>=
          fun x => Over.runOn x (Move.walk [.next, .next, .previous])) fresh =
        .ok [some (plain maxKey), some (plain maxKey), none] := by
  refine ⟨_, rfl, ?_, ?_⟩
  · cbv
  · cbv

end Heads

end EventIndex
