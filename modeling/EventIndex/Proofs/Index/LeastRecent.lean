import Mathlib.Data.List.Basic
import EventIndex.Proofs.Act
import EventIndex.Proofs.Index.Tracking

/-! # Least recent — which list makes room for another

A manager is watched while lists are entered, used and forgotten in any order and owners come and go
(`Watched`). The onlooker writes down which lists the owners were asked to write out, which lists
were entered and in which order uses were applied: an entry is a use, and a reported use is one
as soon as it is applied, not when it is reported. Which reported uses wait to be applied the onlooker
tells from the calls (`ResidencyCall.waits`): those since uses were applied last, where a use that repeats
the one before it does not count. The buffer of the manager holds just these (`Residency.Buffers`).

The order in which lists are tracked is the order of their last uses in that record (`Ranked`): the
fewer uses of any list came since, the earlier it stands. So the one that makes room, the last in
order, is the one whose last use is the oldest.

Main results:

- `Residency.Ranked.foldl_toFront`: uses that are applied leave the lists in the order of their last uses;
- `Residency.place_of_full`: only a new list that finds no room drops another, the last one in order;
- `Watched.Sound.next`, `Watched.Sound.run`: every call keeps what is known of the manager;
- `Watched.oldest_makes_room`: what each call does after any others.
-/

namespace EventIndex

/-- What a manager is asked for. -/
inductive ResidencyCall
  | register
  | unregister (set : SetId)
  | enter (key : OwnerKey)
  | touch (key : OwnerKey)
  | commit
  | forget (key : OwnerKey)

namespace ResidencyCall

variable {σ : Type}

/-- What a call does to a manager and to the owners it may reach. -/
def act (ask : OwnerKey → Act σ (Option Bool)) : ResidencyCall → Act (Residency × σ) Unit
  | register => fun (r, s) => .ok () (r.register.2, s)
  | unregister set => fun (r, s) => .ok () (r.unregister set, s)
  | enter key => Residency.track ask key
  | touch key => fun (r, s) => .ok () (r.touch key, s)
  | commit => fun (r, s) => .ok () (r.commit, s)
  | forget key => fun (r, s) => .ok () (r.forget key, s)

/-- The uses that wait when one more is reported. A use that repeats the one before it is dropped. -/
def noted (waiting : List OwnerKey) (key : OwnerKey) : List OwnerKey :=
  if waiting.getLast? = some key then waiting else waiting ++ [key]

/-- The uses that a call applies, in that order, when some wait and `limit` of them are too many to wait. -/
def uses (limit : Nat) (waiting : List OwnerKey) : ResidencyCall → List OwnerKey
  | enter key => [key]
  | touch key => if limit ≤ (noted waiting key).length then noted waiting key else []
  | commit => waiting
  | _ => []

/-- The uses that wait after a call. -/
def waits (limit : Nat) (waiting : List OwnerKey) : ResidencyCall → List OwnerKey
  | touch key => if limit ≤ (noted waiting key).length then [] else noted waiting key
  | commit => []
  | _ => waiting

/-- The lists that a call enters. -/
def entered : ResidencyCall → List OwnerKey
  | enter key => [key]
  | _ => []

end ResidencyCall

/-- A manager with its owners, and what was seen of them so far. -/
structure Watched (σ : Type) where
  residency : Residency
  owners : σ
  /-- The lists that owners were asked to write out, the first one first. -/
  asked : List OwnerKey
  /-- The lists entered, the first one first. -/
  entered : List OwnerKey
  /-- How many reported uses are too many to wait. -/
  limit : Nat
  /-- The uses reported and not yet applied, the first one first. -/
  waiting : List OwnerKey
  /-- The uses applied, the last one first. -/
  uses : List OwnerKey

namespace Residency

variable {σ : Type} {r : Residency} {key : OwnerKey} {uses tracked : List OwnerKey}

/-- Whether the set of a list is registered. -/
def hasOwner (r : Residency) (key : OwnerKey) : Bool := r.owners.contains key.set

/-- Asking as before, with a note of what was asked for. -/
def noting (ask : OwnerKey → Act σ (Option Bool)) :
    OwnerKey → Act (σ × List OwnerKey) (Option Bool) := fun key (s, asked) =>
  match ask key s with
  | .ok answer s => .ok answer (s, asked ++ [key])
  | .error e s => .error e (s, asked ++ [key])

/-! ## The order of the last uses -/

/-- The lists are in the order of their last uses: the later one stands first. -/
structure Ranked (uses tracked : List OwnerKey) : Prop where
  used : ∀ key ∈ tracked, key ∈ uses
  ordered : tracked.Pairwise fun key older => uses.idxOf key < uses.idxOf older

/-- Ranked lists are distinct: none has its last use in front of itself. -/
theorem Ranked.nodup (h : Ranked uses tracked) : tracked.Nodup :=
  h.ordered.imp fun hlt heq => absurd hlt (by rw [heq]; exact Nat.lt_irrefl _)

/-- Fewer lists in the same order are ranked too. -/
theorem Ranked.sublist {fewer : List OwnerKey} (h : Ranked uses tracked) (hs : fewer.Sublist tracked) :
    Ranked uses fewer :=
  ⟨fun key hkey => h.used key (hs.subset hkey), h.ordered.sublist hs⟩

/-- A use of another list leaves the order of the rest as it is. -/
theorem Ranked.skip (h : Ranked uses tracked) (hkey : key ∉ tracked) : Ranked (key :: uses) tracked := by
  refine ⟨fun other hother => List.mem_cons_of_mem _ (h.used other hother), ?_⟩
  refine h.ordered.imp_of_mem fun {a b} ha hb hlt => ?_
  have hne : ∀ other ∈ tracked, key ≠ other := fun other hother heq => hkey (heq ▸ hother)
  rw [List.idxOf_cons_ne _ (hne a ha), List.idxOf_cons_ne _ (hne b hb)]
  exact Nat.succ_lt_succ hlt

/-- The list used last comes first. -/
theorem Ranked.use (h : Ranked uses tracked) (key : OwnerKey) :
    Ranked (key :: uses) (key :: tracked.filter (· ≠ key)) := by
  have hrest : Ranked (key :: uses) (tracked.filter (· ≠ key)) :=
    (h.sublist List.filter_sublist).skip (by simp)
  refine ⟨fun other hother => ?_, List.pairwise_cons.mpr ⟨fun other hother => ?_, hrest.ordered⟩⟩
  · rcases List.mem_cons.mp hother with rfl | hother
    · exact List.mem_cons_self
    · exact hrest.used other hother
  · have hne : key ≠ other := fun heq => by simp [heq] at hother
    rw [List.idxOf_cons_self, List.idxOf_cons_ne _ hne]
    exact Nat.succ_pos _

/-! ## Uses that are applied -/

/-- A use makes a tracked list the first one, and is nothing to any other list. -/
def toFront (tracked : List OwnerKey) (key : OwnerKey) : List OwnerKey :=
  if key ∈ tracked then key :: tracked.filter (· ≠ key) else tracked

/-- Moving a list to the front makes no other one tracked. -/
theorem mem_toFront (tracked : List OwnerKey) (key other : OwnerKey) :
    other ∈ toFront tracked key ↔ other ∈ tracked := by
  unfold toFront
  split
  · rename_i hkey
    by_cases hother : other = key
    · simp [hother, hkey]
    · simp [hother]
  · exact Iff.rfl

/-- The uses of lists that are not tracked make no difference. -/
theorem foldl_toFront_filter (uses tracked : List OwnerKey) :
    uses.foldl toFront tracked = (uses.filter (· ∈ tracked)).foldl toFront tracked := by
  induction uses generalizing tracked with
  | nil => rfl
  | cons key uses ih =>
    have hsame : uses.filter (· ∈ toFront tracked key) = uses.filter (· ∈ tracked) :=
      List.filter_congr fun other _ => by simp only [mem_toFront]
    by_cases hkey : key ∈ tracked
    · rw [List.filter_cons_of_pos (by simpa using hkey), List.foldl_cons, List.foldl_cons, ih, hsame]
    · have hskip : toFront tracked key = tracked := if_neg hkey
      rw [List.filter_cons_of_neg (by simpa using hkey), List.foldl_cons, hskip]
      exact ih tracked

/-- A use that is applied puts its list in front and leaves the others in their order. -/
theorem Ranked.toFront (h : Ranked uses tracked) (key : OwnerKey) :
    Ranked (key :: uses) (Residency.toFront tracked key) := by
  unfold Residency.toFront
  split
  · exact h.use key
  · rename_i hkey
    exact h.skip hkey

/-- Uses that are applied one after the other leave the lists in the order of their last uses. -/
theorem Ranked.foldl_toFront {new : List OwnerKey} (h : Ranked uses tracked) :
    Ranked (new.reverse ++ uses) (new.foldl Residency.toFront tracked) := by
  induction new generalizing uses tracked with
  | nil => exact h
  | cons key new ih =>
    rw [List.reverse_cons, List.append_assoc]
    exact ih (h.toFront key)

/-- Applying a use moves its list to the front, if it is tracked. -/
theorem tracked_applyUse (r : Residency) (key : OwnerKey) :
    (r.applyUse key).tracked = toFront r.tracked key := by
  unfold applyUse toFront
  by_cases hkey : key ∈ r.tracked
  · obtain ⟨v, hfind⟩ := Option.isSome_iff_exists.mp (Recency.mem_keys_iff_find?.mp hkey)
    rw [if_pos (tracks_iff.mpr hkey), if_pos hkey]
    simp only [tracked, Recency.promote, hfind, Recency.keys_put]
  · rw [if_neg (fun h => hkey (tracks_iff.mp h)), if_neg hkey]

/-- Applying several uses moves their lists to the front, one after the other. -/
theorem tracked_foldl_applyUse (r : Residency) (uses : List OwnerKey) :
    (uses.foldl applyUse r).tracked = uses.foldl toFront r.tracked := by
  induction uses generalizing r with
  | nil => rfl
  | cons key uses ih => rw [List.foldl_cons, List.foldl_cons, ih, tracked_applyUse]

/-- A commit applies the uses in the buffer, the oldest first. -/
theorem tracked_commit (r : Residency) : r.commit.tracked = r.pending.toList.foldl toFront r.tracked :=
  tracked_foldl_applyUse _ _

/-! ## Uses that wait -/

/-- The buffer of a manager holds the uses that wait, and is emptied when there are `limit` of them. -/
structure Buffers (limit : Nat) (waiting : List OwnerKey) (r : Residency) : Prop where
  pending_eq : r.pending.toList = waiting
  pendingLimit_eq : r.pendingLimit = limit

variable {limit : Nat} {waiting : List OwnerKey}

/-- A reported use is buffered unless it repeats the one before it, as the onlooker has it. -/
theorem Buffers.note (h : r.Buffers limit waiting) (key : OwnerKey) :
    (r.note key).Buffers limit (ResidencyCall.noted waiting key) := by
  have hlast : r.pending.back? = waiting.getLast? := by rw [← h.pending_eq, Array.getLast?_toList]
  unfold Residency.note ResidencyCall.noted
  rw [hlast]
  split
  · exact h
  · exact ⟨by rw [Array.toList_push, h.pending_eq], h.pendingLimit_eq⟩

/-- Uses are applied without others being noted. -/
theorem Buffers.foldl_applyUse (h : r.Buffers limit waiting) (uses : List OwnerKey) :
    (uses.foldl applyUse r).Buffers limit waiting := by
  induction uses generalizing r with
  | nil => exact h
  | cons key uses ih =>
    refine ih ?_
    unfold applyUse
    split
    · exact ⟨h.pending_eq, h.pendingLimit_eq⟩
    · exact h

/-- After a commit no use waits. -/
theorem Buffers.commit (h : r.Buffers limit waiting) : r.commit.Buffers limit [] := by
  have hempty : ({ r with pending := #[] } : Residency).Buffers limit [] := ⟨rfl, h.pendingLimit_eq⟩
  exact hempty.foldl_applyUse _

/-- Reporting a use leaves in the buffer what waits then, and changes the order by the uses that are
applied at once, if any are. -/
theorem Buffers.touch (h : r.Buffers limit waiting) (key : OwnerKey) :
    (r.touch key).Buffers limit ((ResidencyCall.touch key).waits limit waiting) ∧
      (r.touch key).tracked =
        ((ResidencyCall.touch key).uses limit waiting).foldl toFront r.tracked := by
  have hnote := h.note key
  have htracked : (r.note key).tracked = r.tracked := by
    unfold Residency.note
    split <;> rfl
  have hsize : (r.note key).pending.size = (ResidencyCall.noted waiting key).length := by
    rw [← hnote.pending_eq, Array.length_toList]
  unfold Residency.touch ResidencyCall.waits ResidencyCall.uses
  dsimp only
  rw [hnote.pendingLimit_eq, hsize]
  split
  · exact ⟨hnote.commit, by rw [tracked_commit, hnote.pending_eq, htracked]⟩
  · exact ⟨hnote, htracked⟩

/-! ## Asking owners -/

/-- The manager but for its counters. -/
def uncounted (r : Residency) : Residency := { r with evictions := 0, staleSkips := 0 }

section Asking

variable {ask : OwnerKey → Act σ (Option Bool)}

/-- The owner of a key is asked for it, if it is still there. -/
theorem evict_noting (hask : ∀ key s, ∃ answer s', ask key s = .ok answer s') (r : Residency)
    (key : OwnerKey) (s : σ) (asked : List OwnerKey) :
    ∃ r' s', evict (noting ask) key (r, s, asked) =
        .ok () (r', s', asked ++ [key].filter r.hasOwner) ∧
      r'.uncounted = r.uncounted := by
  by_cases hset : r.hasOwner key = true
  · obtain ⟨answer, s', hrun⟩ := hask key s
    have hnoted : noting ask key (s, asked) = .ok answer (s', asked ++ [key]) := by
      simp only [noting, hrun]
    rw [List.filter_cons_of_pos hset, List.filter_nil]
    rw [hasOwner] at hset
    simp only [evict, hset, if_true, hnoted]
    rcases answer with _ | _ | _
    all_goals exact ⟨_, _, rfl, rfl⟩
  · rw [List.filter_cons_of_neg hset, List.filter_nil, List.append_nil]
    rw [hasOwner] at hset
    simp only [evict, hset, Bool.false_eq_true, if_false]
    exact ⟨_, _, rfl, rfl⟩

/-- The manager asks the owners of just those victims that have one, in order. -/
theorem evictEach_noting (hask : ∀ key s, ∃ answer s', ask key s = .ok answer s')
    (victims : List OwnerKey) (r : Residency) (s : σ) (asked : List OwnerKey) :
    ∃ r' s', evictEach (noting ask) victims (r, s, asked) =
        .ok () (r', s', asked ++ victims.filter r.hasOwner) ∧
      r'.uncounted = r.uncounted := by
  induction victims generalizing r s asked with
  | nil => exact ⟨r, s, by rw [List.filter_nil, List.append_nil]; rfl, rfl⟩
  | cons key victims ih =>
    obtain ⟨r', s', hrun, hr'⟩ := evict_noting hask r key s asked
    obtain ⟨r'', s'', hrest, hr''⟩ := ih r' s' (asked ++ [key].filter r.hasOwner)
    have howner : r'.hasOwner = r.hasOwner := by
      have h := congrArg hasOwner hr'
      exact h
    refine ⟨r'', s'', ?_, hr''.trans hr'⟩
    rw [evictEach, Act.bind_ok hrun, hrest, howner, List.append_assoc, ← List.filter_append]
    rfl

/-- A list is entered, and the owners of those that are dropped for it are asked. -/
theorem track_noting (hask : ∀ key s, ∃ answer s', ask key s = .ok answer s')
    (hr : r.isDisposed = false) (key : OwnerKey) (s : σ) (asked : List OwnerKey) :
    ∃ r' s', track (noting ask) key (r, s, asked) =
        .ok () (r', s', asked ++ (r.place key).1.filter r.hasOwner) ∧
      r'.uncounted = (r.place key).2.uncounted := by
  obtain ⟨r', s', hrun, hr'⟩ := evictEach_noting hask (r.place key).1 (r.place key).2 s asked
  refine ⟨r', s', ?_, hr'⟩
  simp only [track, hr, Bool.false_eq_true, if_false]
  exact hrun

end Asking

/-! ## Who is dropped -/

/-- The lists kept and the lists dropped are the new one and the others. -/
theorem place_split (r : Residency) (key : OwnerKey) :
    (r.place key).2.tracked ++ (r.place key).1.reverse = key :: r.tracked.filter (· ≠ key) := by
  rw [(place_spec r key).1, (place_spec r key).2, List.take_append_drop]

/-- A list that is tracked already, or one that there is room for, drops nobody. -/
theorem place_of_room (hroom : key ∈ r.tracked ∨ r.tracked.length < r.capacity)
    (hbound : r.tracked.length ≤ r.capacity) :
    (r.place key).1 = [] ∧ (r.place key).2.tracked = key :: r.tracked.filter (· ≠ key) := by
  obtain ⟨hvictims, htracked⟩ := place_spec r key
  have hlength : (key :: r.tracked.filter (· ≠ key)).length ≤ r.capacity := by
    rw [List.length_cons]
    rcases hroom with hkey | hlt
    · have hlt : (r.tracked.filter (· ≠ key)).length < r.tracked.length :=
        List.length_filter_lt_length_iff_exists.mpr ⟨key, hkey, by simp⟩
      omega
    · have hle : (r.tracked.filter (· ≠ key)).length ≤ r.tracked.length := List.length_filter_le _ _
      omega
  rw [List.drop_eq_nil_of_le hlength, List.reverse_eq_nil_iff] at hvictims
  exact ⟨hvictims, htracked.trans (List.take_of_length_le hlength)⟩

/-- A new list drops the last one in order when there is no room for both. -/
theorem place_of_full {earlier : List OwnerKey} {victim : OwnerKey} (hkey : key ∉ r.tracked)
    (hlist : r.tracked = earlier ++ [victim]) (hfull : r.tracked.length = r.capacity) :
    (r.place key).1 = [victim] ∧ (r.place key).2.tracked = key :: earlier := by
  obtain ⟨hvictims, htracked⟩ := place_spec r key
  have hrest : r.tracked.filter (· ≠ key) = r.tracked :=
    List.filter_eq_self.mpr fun other hother => by
      have hne : other ≠ key := fun heq => hkey (heq ▸ hother)
      simpa using hne
  have hlength : (key :: earlier).length = r.capacity := by
    rw [← hfull, hlist, List.length_append]
    rfl
  rw [hrest, hlist, ← List.cons_append] at hvictims htracked
  rw [List.drop_left' hlength] at hvictims
  rw [List.take_left' hlength] at htracked
  exact ⟨by rw [← List.reverse_reverse (r.place key).1, hvictims]; rfl, htracked⟩

end Residency

namespace Watched

open Residency

variable {σ : Type} {w : Watched σ} {key : OwnerKey}

/-- A manager that was just made. -/
def start (capacity useThreshold : Nat) (owners : σ) : Watched σ where
  residency := .create capacity useThreshold
  owners := owners
  asked := []
  entered := []
  limit := min (max (max capacity 1 / 8) 1) 64
  waiting := []
  uses := []

section Running

variable (ask : OwnerKey → Act σ (Option Bool))

/-- What comes of a call. -/
def outcome (w : Watched σ) (call : ResidencyCall) : Except StorageError Unit :=
  Act.outcome (call.act (noting ask)) (w.residency, w.owners, w.asked)

/-- What is there and was seen after a call. -/
def next (w : Watched σ) (call : ResidencyCall) : Watched σ :=
  let (residency, owners, asked) :=
    Act.after (call.act (noting ask)) (w.residency, w.owners, w.asked)
  { residency, owners, asked
    entered := w.entered ++ call.entered
    limit := w.limit
    waiting := call.waits w.limit w.waiting
    uses := (call.uses w.limit w.waiting).reverse ++ w.uses }

/-- What is there and was seen after some calls. -/
def run (w : Watched σ) (calls : List ResidencyCall) : Watched σ := calls.foldl (next ask) w

end Running

/-- What holds of a manager and of what was seen of it at every time. -/
structure Sound (limit : Nat) (w : Watched σ) : Prop where
  awake : w.residency.isDisposed = false
  capacity_eq : w.residency.capacity = limit
  bounded : w.residency.tracked.length ≤ limit
  buffers : w.residency.Buffers w.limit w.waiting
  ranked : Ranked w.uses w.residency.tracked
  once : ∀ key, w.asked.count key + w.residency.tracked.count key ≤ w.entered.count key

/-- The tracked list whose last use is the oldest. -/
structure IsOldest (w : Watched σ) (key : OwnerKey) : Prop where
  tracked : key ∈ w.residency.tracked
  used : key ∈ w.uses
  oldest : ∀ other ∈ w.residency.tracked, other ≠ key → w.uses.idxOf other < w.uses.idxOf key

section Calls

variable {limit : Nat} {ask : OwnerKey → Act σ (Option Bool)}

/-- A manager begins with nothing tracked and no use waiting. -/
theorem sound_start (capacity useThreshold : Nat) (owners : σ) :
    (start capacity useThreshold owners).Sound (max capacity 1) where
  awake := rfl
  capacity_eq := rfl
  bounded := Nat.zero_le _
  buffers := ⟨rfl, rfl⟩
  ranked := ⟨fun _ h => absurd h List.not_mem_nil, .nil⟩
  once _ := Nat.le_refl _

/-- Lists that leave without another one coming in leave the rest as it is. -/
theorem Sound.of_sublist {r : Residency} (hw : w.Sound limit)
    (hsub : r.tracked.Sublist w.residency.tracked) (hcap : r.capacity = w.residency.capacity)
    (hawake : r.isDisposed = w.residency.isDisposed) (hbuffers : r.Buffers w.limit w.waiting) :
    ({ w with residency := r } : Watched σ).Sound limit where
  awake := hawake.trans hw.awake
  capacity_eq := hcap.trans hw.capacity_eq
  bounded := Nat.le_trans hsub.length_le hw.bounded
  buffers := hbuffers
  ranked := hw.ranked.sublist hsub
  once key := by
    have hle := hsub.count_le key
    have honce := hw.once key
    show w.asked.count key + r.tracked.count key ≤ w.entered.count key
    omega

/-- Uses that are applied change the order by them alone. -/
theorem Sound.of_uses {r : Residency} {waiting uses : List OwnerKey} (hw : w.Sound limit)
    (hsame : w.residency.SameTracking r) (hbuffers : r.Buffers w.limit waiting)
    (horder : r.tracked = uses.foldl toFront w.residency.tracked) :
    ({ w with residency := r, waiting, uses := uses.reverse ++ w.uses } : Watched σ).Sound limit where
  awake := hsame.isDisposed_eq.trans hw.awake
  capacity_eq := hsame.capacity_eq.trans hw.capacity_eq
  bounded := Nat.le_trans (Nat.le_of_eq hsame.tracked_perm.length_eq) hw.bounded
  buffers := hbuffers
  ranked := by
    show Ranked (uses.reverse ++ w.uses) r.tracked
    rw [horder]
    exact hw.ranked.foldl_toFront
  once key := by
    show w.asked.count key + r.tracked.count key ≤ w.entered.count key
    rw [hsame.tracked_perm.count_eq]
    exact hw.once key

/-- What an entry drops, and what the owners are asked. -/
theorem enter_run (hask : ∀ key s, ∃ answer s', ask key s = .ok answer s')
    (hw : w.Sound limit) (key : OwnerKey) :
    w.outcome ask (.enter key) = .ok () ∧
      (w.next ask (.enter key)).asked =
        w.asked ++ (w.residency.place key).1.filter w.residency.hasOwner ∧
      (w.next ask (.enter key)).residency.tracked = (w.residency.place key).2.tracked ∧
      (w.next ask (.enter key)).residency.capacity = w.residency.capacity ∧
      (w.next ask (.enter key)).residency.isDisposed = false ∧
      (w.next ask (.enter key)).residency.Buffers w.limit w.waiting := by
  obtain ⟨r', s', hrun, hr'⟩ := track_noting hask hw.awake key w.owners w.asked
  have hnext : w.next ask (.enter key) =
      { residency := r', owners := s'
        asked := w.asked ++ (w.residency.place key).1.filter w.residency.hasOwner
        entered := w.entered ++ [key]
        limit := w.limit
        waiting := w.waiting
        uses := key :: w.uses } := by
    unfold next ResidencyCall.act
    rw [Act.after_ok hrun]
    rfl
  -- what is known of the manager is read off the state that it is left in, but for its counters
  have htracked := congrArg Residency.tracked hr'
  have hcap := congrArg Residency.capacity hr'
  have hawake := congrArg Residency.isDisposed hr'
  have hpending := congrArg (fun r => r.pending.toList) hr'
  have hlimit := congrArg Residency.pendingLimit hr'
  rw [hnext]
  exact ⟨Act.outcome_ok hrun, rfl, htracked, hcap, hawake.trans hw.awake,
    hpending.trans hw.buffers.pending_eq, hlimit.trans hw.buffers.pendingLimit_eq⟩

/-- An entry that drops nobody, or the list whose last use is the oldest. -/
theorem enter_cases (hw : w.Sound limit) (hpos : 0 < limit) (key : OwnerKey) :
    (key ∈ w.residency.tracked ∨ w.residency.tracked.length < limit) ∧
        (w.residency.place key).1 = [] ∧
        (w.residency.place key).2.tracked = key :: w.residency.tracked.filter (· ≠ key) ∨
      key ∉ w.residency.tracked ∧ w.residency.tracked.length = limit ∧
        ∃ victim, w.IsOldest victim ∧ (w.residency.place key).1 = [victim] ∧
          (w.residency.place key).2.tracked = key :: w.residency.tracked.filter (· ≠ victim) := by
  by_cases hroom : key ∈ w.residency.tracked ∨ w.residency.tracked.length < limit
  · -- there is room for the list, or it moves to the front
    rw [← hw.capacity_eq] at hroom
    have hplace := place_of_room hroom (hw.capacity_eq ▸ hw.bounded)
    exact .inl ⟨hw.capacity_eq ▸ hroom, hplace⟩
  · rw [not_or, Nat.not_lt] at hroom
    obtain ⟨hkey, hle⟩ := hroom
    have hfull : w.residency.tracked.length = limit := Nat.le_antisymm hw.bounded hle
    have hne : w.residency.tracked ≠ [] := List.ne_nil_of_length_pos (by omega)
    -- otherwise the last one has to leave, and all before it were used later
    obtain ⟨earlier, victim, hlist⟩ : ∃ earlier victim, w.residency.tracked = earlier ++ [victim] :=
      ⟨_, _, (List.dropLast_append_getLast hne).symm⟩
    obtain ⟨hvictims, htracked⟩ := place_of_full hkey hlist (hfull.trans hw.capacity_eq.symm)
    have hordered := hw.ranked.ordered
    rw [hlist, List.pairwise_append] at hordered
    have holder : ∀ other ∈ earlier, w.uses.idxOf other < w.uses.idxOf victim :=
      fun other hother => hordered.2.2 other hother victim List.mem_cons_self
    have hmem : victim ∈ w.residency.tracked := by
      rw [hlist]
      exact List.mem_append_right _ List.mem_cons_self
    have hrest : w.residency.tracked.filter (· ≠ victim) = earlier := by
      rw [hlist, List.filter_append, List.filter_eq_self.mpr]
      · simp
      · intro other hother
        have hlt := holder other hother
        have hother : other ≠ victim := fun heq => Nat.lt_irrefl _ (heq ▸ hlt)
        simpa using hother
    refine .inr ⟨hkey, hfull, victim, ⟨hmem, hw.ranked.used victim hmem, fun other hother hother' => ?_⟩,
      hvictims, by rw [htracked, hrest]⟩
    rw [hlist, List.mem_append, List.mem_singleton] at hother
    exact holder other (hother.resolve_right hother')

/-- An entry keeps to the capacity and to the order of the last uses. -/
theorem Sound.enter (hask : ∀ key s, ∃ answer s', ask key s = .ok answer s')
    (hw : w.Sound limit) (key : OwnerKey) : (w.next ask (.enter key)).Sound limit := by
  obtain ⟨-, hasked, htracked, hcap, hawake, hbuffers⟩ := enter_run hask hw key
  obtain ⟨-, hkept⟩ := place_spec w.residency key
  refine ⟨hawake, hcap.trans hw.capacity_eq, ?_, hbuffers, ?_, fun other => ?_⟩
  · rw [htracked, hkept, hw.capacity_eq]
    exact List.length_take_le _ _
  · rw [htracked, hkept]
    exact (hw.ranked.use key).sublist (List.take_sublist _ _)
  · have hsplit := congrArg (List.count other) (place_split w.residency key)
    rw [List.count_append, List.count_reverse, List.count_cons] at hsplit
    have hfilter : (w.residency.tracked.filter (· ≠ key)).count other ≤
        w.residency.tracked.count other := List.filter_sublist.count_le other
    have hvictims : ((w.residency.place key).1.filter w.residency.hasOwner).count other ≤
        (w.residency.place key).1.count other := List.filter_sublist.count_le other
    have honce := hw.once other
    have hentered : (w.next ask (.enter key)).entered = w.entered ++ [key] := rfl
    rw [hasked, htracked, hentered, List.count_append, List.count_append, List.count_singleton]
    omega

/-- A call that reaches no owner changes the manager alone. -/
theorem next_of_quiet {call : ResidencyCall} {r : Residency} (henters : call.entered = [])
    (hrun : call.act (noting ask) (w.residency, w.owners, w.asked) = .ok () (r, w.owners, w.asked)) :
    w.next ask call =
      { w with
        residency := r
        waiting := call.waits w.limit w.waiting
        uses := (call.uses w.limit w.waiting).reverse ++ w.uses } := by
  unfold next
  rw [Act.after_ok hrun, henters, List.append_nil]

/-- Registering an owner asks nobody. -/
theorem next_register : w.next ask .register = { w with residency := w.residency.register.2 } :=
  next_of_quiet rfl rfl

/-- When an owner goes nobody is asked; the lists of that owner are no more tracked. -/
theorem next_unregister (set : SetId) :
    w.next ask (.unregister set) = { w with residency := w.residency.unregister set } :=
  next_of_quiet rfl rfl

/-- A list is forgotten without its owner being asked. -/
theorem next_forget (key : OwnerKey) :
    w.next ask (.forget key) = { w with residency := w.residency.forget key } :=
  next_of_quiet rfl rfl

/-- A reported use waits, or all that wait are applied when there are enough of them. -/
theorem next_touch (key : OwnerKey) : w.next ask (.touch key) =
    { w with
      residency := w.residency.touch key
      waiting := (ResidencyCall.touch key).waits w.limit w.waiting
      uses := ((ResidencyCall.touch key).uses w.limit w.waiting).reverse ++ w.uses } :=
  next_of_quiet rfl rfl

/-- A commit applies what waits, and the onlooker adds it to the record. -/
theorem next_commit : w.next ask .commit =
    { w with residency := w.residency.commit, waiting := [], uses := w.waiting.reverse ++ w.uses } :=
  next_of_quiet rfl rfl

/-- One step: every call keeps what is known of the manager. -/
theorem Sound.next (hask : ∀ key s, ∃ answer s', ask key s = .ok answer s')
    (hw : w.Sound limit) (call : ResidencyCall) : (w.next ask call).Sound limit := by
  cases call with
  | enter key => exact hw.enter hask key
  -- lists that are dropped leave the others in their order
  | register =>
    rw [next_register]
    exact hw.of_sublist (.refl _) rfl rfl ⟨hw.buffers.pending_eq, hw.buffers.pendingLimit_eq⟩
  | unregister set =>
    have hsub : (w.residency.unregister set).tracked.Sublist w.residency.tracked :=
      List.filter_sublist.map Prod.fst
    rw [next_unregister]
    exact hw.of_sublist hsub rfl rfl ⟨hw.buffers.pending_eq, hw.buffers.pendingLimit_eq⟩
  | forget key =>
    have hsub : (w.residency.forget key).tracked.Sublist w.residency.tracked :=
      List.filter_sublist.map Prod.fst
    rw [next_forget]
    exact hw.of_sublist hsub rfl rfl ⟨hw.buffers.pending_eq, hw.buffers.pendingLimit_eq⟩
  -- uses that are applied are put into the record in the same order
  | touch key =>
    obtain ⟨hbuffers, htracked⟩ := hw.buffers.touch key
    rw [next_touch]
    exact hw.of_uses (sameTracking_touch key hw.ranked.nodup) hbuffers htracked
  | commit =>
    rw [next_commit]
    exact hw.of_uses (sameTracking_commit hw.ranked.nodup) hw.buffers.commit
      (hw.buffers.pending_eq ▸ tracked_commit _)

/-- Any number of calls keeps what is known of the manager. -/
theorem Sound.run (hask : ∀ key s, ∃ answer s', ask key s = .ok answer s')
    (hw : w.Sound limit) (calls : List ResidencyCall) : (w.run ask calls).Sound limit := by
  induction calls generalizing w with
  | nil => exact hw
  | cons call calls ih => exact ih (hw.next hask call)

/-! ## What a call does -/

/-- What a call does to a manager that has room for `limit` lists. -/
structure Obeys (ask : OwnerKey → Act σ (Option Bool)) (limit : Nat) (w : Watched σ)
    (call : ResidencyCall) : Prop where
  succeeds : w.outcome ask call = .ok ()
  distinct : (w.next ask call).residency.tracked.Nodup
  bounded : (w.next ask call).residency.tracked.length ≤ limit
  /-- The buffer holds the uses that wait. -/
  buffered : (w.next ask call).residency.pending.toList = call.waits w.limit w.waiting
  /-- The lists are tracked in the order of their last uses, the last one used first. -/
  ordered : (w.next ask call).residency.tracked.Pairwise fun key older =>
    (w.next ask call).uses.idxOf key < (w.next ask call).uses.idxOf older
  /-- A list is asked for no more often than it was entered, and not as long as it is tracked. -/
  once : ∀ key, (w.next ask call).asked.count key + (w.next ask call).residency.tracked.count key ≤
    (w.next ask call).entered.count key
  /-- Nobody is asked for a list that is tracked already or that there is room for. -/
  enter_room : ∀ key, call = .enter key →
    key ∈ w.residency.tracked ∨ w.residency.tracked.length < limit →
      (w.next ask call).asked = w.asked ∧
      (w.next ask call).residency.tracked = key :: w.residency.tracked.filter (· ≠ key)
  /-- A new list takes the place of the one whose last use is the oldest. -/
  enter_full : ∀ key, call = .enter key →
    key ∉ w.residency.tracked → w.residency.tracked.length = limit →
      ∃ victim, w.IsOldest victim ∧ victim ≠ key ∧
        (w.next ask call).asked = w.asked ++ [victim].filter w.residency.hasOwner ∧
        (w.next ask call).residency.tracked = key :: w.residency.tracked.filter (· ≠ victim)
  /-- Nobody is asked by any other call. -/
  quiet : (∀ key, call ≠ .enter key) →
    (w.next ask call).asked = w.asked ∧ (w.next ask call).owners = w.owners
  /-- The uses applied move their lists to the front, and those of lists that are not tracked do
  nothing. -/
  applied : (call = .commit ∨ ∃ key, call = .touch key) →
    (w.next ask call).residency.tracked.Perm w.residency.tracked ∧
    (w.next ask call).residency.tracked =
      ((call.uses w.limit w.waiting).filter (· ∈ w.residency.tracked)).foldl toFront
        w.residency.tracked
  forgets : ∀ key, call = .forget key →
    (w.next ask call).residency.tracked = w.residency.tracked.filter (· ≠ key)

/-- Whatever came before, a call keeps to the capacity and has nobody asked but the owner of the
list whose last use is the oldest, to make room for a new one.

The owners may answer what they like, as long as they answer. `Obeys` compares one more call with the
record of all calls before, which the onlooker keeps and the manager does not have. -/
theorem oldest_makes_room (capacity useThreshold : Nat) (owners : σ)
    (hask : ∀ key s, ∃ answer s', ask key s = .ok answer s') (calls : List ResidencyCall)
    (call : ResidencyCall) :
    ((start capacity useThreshold owners).run ask calls).Obeys ask (max capacity 1) call := by
  have hw := (sound_start capacity useThreshold owners).run hask calls
  generalize (start capacity useThreshold owners).run ask calls = w at hw
  have hnext := hw.next hask call
  have hpos : 0 < max capacity 1 := Nat.lt_of_lt_of_le Nat.one_pos (Nat.le_max_right _ _)
  -- what holds of any manager after the call is the invariant; the rest goes by the kind of call
  refine ⟨?_, hnext.ranked.nodup, hnext.bounded, hnext.buffers.pending_eq, hnext.ranked.ordered,
    hnext.once, ?_, ?_, ?_, ?_, ?_⟩
  · cases call with
    | enter key => exact (enter_run hask hw key).1
    | _ => rfl
  · -- a list that finds room, or is tracked already
    rintro key rfl hroom
    obtain ⟨-, hasked, htracked, -, -, -⟩ := enter_run hask hw key
    obtain ⟨-, hvictims, hkept⟩ | ⟨hkey, hfull, -⟩ := enter_cases hw hpos key
    · rw [hasked, htracked, hvictims, hkept, List.filter_nil, List.append_nil]
      exact ⟨rfl, rfl⟩
    · exact absurd hroom (by simp [hkey, hfull])
  · -- a new list where there is no room
    rintro key rfl hkey hfull
    obtain ⟨-, hasked, htracked, -, -, -⟩ := enter_run hask hw key
    obtain ⟨hroom, -, -⟩ | ⟨-, -, victim, holdest, hvictims, hkept⟩ := enter_cases hw hpos key
    · exact absurd hroom (by simp [hkey, hfull])
    · rw [hasked, htracked, hvictims, hkept]
      exact ⟨victim, holdest, fun heq => hkey (heq ▸ holdest.tracked), rfl, rfl⟩
  · intro hquiet
    cases call with
    | enter key => exact absurd rfl (hquiet key)
    | _ => exact ⟨rfl, rfl⟩
  · -- a commit, and a use that makes enough of them for one
    rintro (rfl | ⟨key, rfl⟩)
    · rw [next_commit, ← foldl_toFront_filter]
      exact ⟨(sameTracking_commit hw.ranked.nodup).tracked_perm,
        hw.buffers.pending_eq ▸ tracked_commit _⟩
    · rw [next_touch, ← foldl_toFront_filter]
      exact ⟨(sameTracking_touch key hw.ranked.nodup).tracked_perm, (hw.buffers.touch key).2⟩
  · rintro key rfl
    rw [next_forget]
    exact Recency.keys_erase _ _

/-- The lists 0 to 15 of a set are entered, and the first two are used. -/
def fullCalls : List ResidencyCall :=
  .register :: (List.range 16).map (fun i => .enter ⟨0, UInt32.ofNat i⟩) ++
    [.touch ⟨0, 0⟩, .touch ⟨0, 0⟩, .touch ⟨0, 1⟩, .touch ⟨0, 2⟩]

set_option maxRecDepth 2000 in
/-- With room for 16 lists, two reported uses are applied at once. The repeated use of list 0 does not count,
so that its use waits for that of list 1. The use of list 2 is waiting still when list 16 comes, and
list 2 is the one that makes room. -/
theorem oldest_makes_room_small :
    (∀ (key : OwnerKey) (s : Unit), ∃ answer s',
      (fun _ s => .ok (some true) s : OwnerKey → Act Unit (Option Bool)) key s = .ok answer s') ∧
    ∃ w : Watched Unit, w = (start 16 1 ()).run (fun _ s => .ok (some true) s) fullCalls ∧
      w.Obeys (fun _ s => .ok (some true) s) 16 (.enter ⟨0, 16⟩) ∧ w.waiting = [⟨0, 2⟩] ∧
      (w.next (fun _ s => .ok (some true) s) (.enter ⟨0, 16⟩)).asked = [⟨0, 2⟩] ∧
      w.Obeys (fun _ s => .ok (some true) s) 16 .commit ∧
      ((w.next (fun _ s => .ok (some true) s) .commit).next (fun _ s => .ok (some true) s)
        (.enter ⟨0, 16⟩)).asked = [⟨0, 3⟩] :=
  ⟨fun _ s => ⟨some true, s, rfl⟩, _, rfl,
    oldest_makes_room 16 1 () (fun _ s => ⟨some true, s, rfl⟩) _ _, by decide, by decide,
    oldest_makes_room 16 1 () (fun _ s => ⟨some true, s, rfl⟩) _ _, by decide⟩

end Calls

end Watched

end EventIndex
