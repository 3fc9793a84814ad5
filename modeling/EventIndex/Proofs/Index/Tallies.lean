import Mathlib.Logic.Relation
import EventIndex.Proofs.Index.Fresh

/-! # Tallies — the coming and going of lists

A set remembers of each value whether its list is in memory or written out, and it counts how many
lists it has created, written out and taken back. This part of a set is its *tally*. All that ever
happens to it are four moves of a single value (`Tally.Move`), whether the operations that make them
succeed or fail, and whoever asks for them: a batch, a reader, somebody who has a list written out, or
the bookkeeping that needs room for the list of another set.

So what the moves keep holds after any calls. A tally is balanced when what came into memory has left
it or is still there, and each value was created once (`Setup.tally_balanced`).
-/

namespace EventIndex

/-- What a set knows of the whereabouts of its lists. -/
structure Tally where
  entries : Std.HashMap ValueId Entry
  created : Nat
  discarded : Nat
  reloaded : Nat

/-- The tally of a set. -/
def IndexSet.tally (set : IndexSet) : Tally :=
  ⟨set.entries, set.created, set.discarded, set.reloaded⟩

namespace Tally

/-- The tally with another entry for a value. -/
def withEntry (t : Tally) (value : ValueId) (entry : Entry) : Tally :=
  { t with entries := t.entries.insert value entry }

/-- One value changes its state, or its list changes in memory. -/
inductive Move (t : Tally) : Tally → Prop
  | create {value : ValueId} (store : Store) (uses : Nat) (h : t.entries[value]? = none) :
      Move t { t.withEntry value (.resident store uses) with created := t.created + 1 }
  | change {value : ValueId} {store : Store} {uses : Nat} (store' : Store) (uses' : Nat)
      (h : t.entries[value]? = some (.resident store uses)) :
      Move t (t.withEntry value (.resident store' uses'))
  | discard {value : ValueId} {store : Store} {uses : Nat}
      (h : t.entries[value]? = some (.resident store uses)) :
      Move t { t.withEntry value .discarded with discarded := t.discarded + 1 }
  | reload {value : ValueId} (store : Store) (uses : Nat) (h : t.entries[value]? = some .discarded) :
      Move t { t.withEntry value (.resident store uses) with reloaded := t.reloaded + 1 }

/-- Any number of moves. -/
def Reaches : Tally → Tally → Prop := Relation.ReflTransGen Move

instance : IsPreorder Tally Reaches := inferInstanceAs (IsPreorder Tally (Relation.ReflTransGen Move))

variable {t t' : Tally} {value : ValueId} {entry : Entry}

/-! ## Balanced tallies -/

/-- Whether an entry is that of a list in memory. -/
def isIn : Entry → Bool
  | .resident _ _ => true
  | .discarded => false

/-- The number of lists in memory. -/
def residentCount (t : Tally) : Nat := t.entries.toList.countP fun e => isIn e.2

/-- What came into memory has left it again or is there, and each value known was created once. -/
structure Balanced (t : Tally) : Prop where
  in_out : t.created + t.reloaded = t.discarded + t.residentCount
  created_eq : t.created = t.entries.size

/-- Where the tally of every set begins. -/
theorem balanced_create (id : SetId) (name : String) (kind : Kind) (taskSize : Nat) :
    (IndexSet.create id name kind taskSize).tally.Balanced := by
  constructor <;> simp [IndexSet.tally, IndexSet.create, residentCount]

/-- A value that becomes known joins the count if its list is in memory. -/
theorem residentCount_of_none (h : t.entries[value]? = none) (entry : Entry) :
    (t.withEntry value entry).residentCount = t.residentCount + if isIn entry then 1 else 0 := by
  have hnew := (Table.toList_insert (m := t.entries) (k := value) (v := entry)).countP_eq
    fun e => isIn e.2
  rw [List.countP_cons, ← Table.toList_of_none h] at hnew
  exact hnew

/-- A value that is known takes the place that it had. -/
theorem residentCount_of_some {old : Entry} (h : t.entries[value]? = some old) (entry : Entry) :
    (t.withEntry value entry).residentCount + (if isIn old then 1 else 0) =
      t.residentCount + if isIn entry then 1 else 0 := by
  have hnew := (Table.toList_insert (m := t.entries) (k := value) (v := entry)).countP_eq
    fun e => isIn e.2
  have hold := (Table.toList_of_some h).countP_eq fun e => isIn e.2
  rw [List.countP_cons] at hnew hold
  simp only [residentCount, withEntry]
  dsimp only at hnew hold
  omega

/-- A value that was not there makes one entry more. -/
theorem size_of_none (h : t.entries[value]? = none) (entry : Entry) :
    (t.withEntry value entry).entries.size = t.entries.size + 1 := by
  have hmem : value ∉ t.entries := by simpa using h
  rw [withEntry, Std.HashMap.size_insert, if_neg hmem]

/-- A value that was there makes none. -/
theorem size_of_some {old : Entry} (h : t.entries[value]? = some old) (entry : Entry) :
    (t.withEntry value entry).entries.size = t.entries.size := by
  have hmem : value ∈ t.entries := Std.HashMap.mem_iff_isSome_getElem?.mpr (by rw [h]; rfl)
  rw [withEntry, Std.HashMap.size_insert, if_pos hmem]

/-- One move: a list that is created, taken back or written out is counted where it comes in or goes out. -/
theorem Move.balanced (hb : t.Balanced) (hmove : t.Move t') : t'.Balanced := by
  obtain ⟨hin, hcreated⟩ := hb
  -- each move changes one entry and the counter that goes with it
  cases hmove with
  | create store uses h =>
    have hcount := residentCount_of_none h (.resident store uses)
    have hsize := size_of_none h (.resident store uses)
    refine ⟨?_, by rw [hsize, hcreated]⟩
    show t.created + 1 + t.reloaded = t.discarded + (t.withEntry _ _).residentCount
    rw [hcount, isIn, if_pos rfl]
    omega
  | change store' uses' h =>
    have hcount := residentCount_of_some h (.resident store' uses')
    have hsize := size_of_some h (.resident store' uses')
    simp only [isIn, if_true] at hcount
    refine ⟨?_, hcreated.trans hsize.symm⟩
    show t.created + t.reloaded = t.discarded + (t.withEntry _ _).residentCount
    omega
  | discard h =>
    have hcount := residentCount_of_some h .discarded
    have hsize := size_of_some h .discarded
    simp only [isIn, if_true, Bool.false_eq_true, if_false] at hcount
    refine ⟨?_, hcreated.trans hsize.symm⟩
    show t.created + t.reloaded = t.discarded + 1 + (t.withEntry _ _).residentCount
    omega
  | reload store uses h =>
    have hcount := residentCount_of_some h (.resident store uses)
    have hsize := size_of_some h (.resident store uses)
    simp only [isIn, if_true, Bool.false_eq_true, if_false] at hcount
    refine ⟨?_, hcreated.trans hsize.symm⟩
    show t.created + (t.reloaded + 1) = t.discarded + (t.withEntry _ _).residentCount
    omega

/-- Moves keep a tally balanced. -/
theorem Reaches.balanced (hb : t.Balanced) (h : t.Reaches t') : t'.Balanced := by
  induction h with
  | refl => exact hb
  | tail _ hmove ih => exact hmove.balanced ih

end Tally

/-! ## Operations on a set -/

namespace IndexSet

open Act

variable {α : Type} {s s' : Over IndexSet} {value : ValueId} {store : Store} {uses : Nat}

/-- Two states of a set have the same tally. -/
abbrev SameTally : Over IndexSet → Over IndexSet → Prop := InvImage (· = ·) fun s => s.item.tally

/-- The tally of a set has come to that of another by moves. -/
abbrev Moves : Over IndexSet → Over IndexSet → Prop := InvImage Tally.Reaches fun s => s.item.tally

/-- Where the tally is the same no move was made. -/
theorem SameTally.moves (h : SameTally s s') : Moves s s' := by
  have htally : s.item.tally = s'.item.tally := h
  show s.item.tally.Reaches s'.item.tally
  rw [htally]
  exact refl _

/-- What is done to the file does not touch the tally. -/
theorem keeps_onPages (act : Act PageFile α) :
    Leads SameTally (Over.onPages act : Act (Over IndexSet) α) := by
  intro s
  show s.item.tally = (after (Over.onPages act) s).item.tally
  cases h : act s.pages with
  | ok a f => rw [after_ok (Over.onPages_ok (c := s.item) h)]
  | error e f => rw [after_error (Over.onPages_error (c := s.item) h)]

theorem keeps_current : Leads SameTally (Over.current : Act (Over IndexSet) IndexSet) := fun _ => rfl

/-- Reading a slot does not touch the tally. -/
theorem keeps_readSlot (value : ValueId) : Leads SameTally (readSlot value) := by
  refine keeps_current.bind fun set => Leads.get.bind fun s => ?_
  dsimp only
  split
  · exact .throw _
  · exact (keeps_onPages _).bind fun payload => .check (.ofExcept _)

/-- Beginning a slot page does not touch the tally. -/
theorem keeps_slotPage (number : Nat) : Leads SameTally (slotPage number) := by
  intro s
  have hcurrent : (Over.current : Act (Over IndexSet) IndexSet) s = .ok s.item s := rfl
  unfold slotPage
  rw [after_bind_ok hcurrent]
  split
  · exact ((keeps_onPages _).bind fun _ => .pure _) s
  · -- the set that replaces the present one differs in its slot pages
    exact after_bind_of (keeps_onPages _ s) (fun _ h => h) fun page s' h => rfl

/-- Writing a slot does not touch the tally. -/
theorem keeps_writeSlot (value : ValueId) (d : Descriptor) : Leads SameTally (writeSlot value d) :=
  Leads.get.bind fun _ => (keeps_slotPage _).bind fun _ => keeps_onPages _

/-- A list in memory is written out and its value moves, or something fails and it does not. -/
theorem discard_resident (h : s.item.entries[value]? = some (.resident store uses)) :
    (∃ s', discard value s = .ok true s' ∧ s'.item.tally =
      { s.item.tally.withEntry value .discarded with discarded := s.item.tally.discarded + 1 }) ∨
    ∃ e s', discard value s = .error e s' ∧ SameTally s s' := by
  have hcurrent : (Over.current : Act (Over IndexSet) IndexSet) s = .ok s.item s := rfl
  unfold discard
  rw [bind_ok hcurrent, h]
  dsimp only
  -- the counts stay as they are until the list is saved and its slot is written
  have hsame₁ := keeps_onPages store.save s
  cases hsave : (Over.onPages store.save : Act (Over IndexSet) Descriptor) s with
  | error e s₁ =>
    rw [after_error hsave] at hsame₁
    exact .inr ⟨e, s₁, bind_error hsave, hsame₁⟩
  | ok d s₁ =>
    rw [after_ok hsave] at hsame₁
    rw [bind_ok hsave]
    have hsame₂ := keeps_writeSlot value d s₁
    cases hwrite : writeSlot value d s₁ with
    | error e s₂ =>
      rw [after_error hwrite] at hsame₂
      exact .inr ⟨e, s₂, bind_error hwrite, Eq.trans hsame₁ hsame₂⟩
    | ok u s₂ =>
      rw [after_ok hwrite] at hsame₂
      have htally : s.item.tally = s₂.item.tally := Eq.trans hsame₁ hsame₂
      refine .inl ⟨_, bind_ok hwrite, ?_⟩
      rw [htally]
      rfl

/-- A list that leaves memory is one move, and no move if it cannot be written out. -/
theorem moves_discard (value : ValueId) : Leads Moves (discard value) := by
  intro s
  cases hresident : s.item.isResident value with
  | false =>
    rw [after_ok (discard_absent hresident)]
    exact refl s
  | true =>
    obtain ⟨store, uses, hget⟩ := isResident_iff.mp hresident
    rcases discard_resident hget with ⟨s', hrun, htally⟩ | ⟨e, s', hrun, hsame⟩
    · rw [after_ok hrun]
      show s.item.tally.Reaches s'.item.tally
      rw [htally]
      exact .single (.discard hget)
    · rw [after_error hrun]
      exact hsame.moves

/-- A list comes into memory in one move, be it created or taken back, and in none if it cannot be read. -/
theorem moves_makeResident (useThreshold : Nat) (value : ValueId) :
    Leads Moves (makeResident useThreshold value) := by
  intro s
  have hcurrent : (Over.current : Act (Over IndexSet) IndexSet) s = .ok s.item s := rfl
  unfold makeResident
  rw [after_bind_ok hcurrent]
  split
  · rename_i store uses hget
    split
    · exact .single (.change store 0 hget)
    · exact .single (.change store (uses + 1) hget)
  · -- the list is taken back, unless something fails before it is there
    rename_i hget
    refine after_bind_of (keeps_readSlot value s) (fun _ h => h.moves) fun d s₁ h₁ => ?_
    refine after_bind_of (keeps_onPages _ s₁) (fun _ h => SameTally.moves (Eq.trans h₁ h)) fun store s₂ _ => ?_
    exact .single (.reload store 0 hget)
  · rename_i hget
    exact .single (.create (.empty s.item.kind) 0 hget)

/-- An appended tuple stays within the list of its value, which is in memory. -/
theorem moves_appendTo (value : ValueId) (t : Tuple) : Leads Moves (appendTo value t) := by
  intro s
  have hcurrent : (Over.current : Act (Over IndexSet) IndexSet) s = .ok s.item s := rfl
  unfold appendTo
  rw [after_bind_ok hcurrent]
  split
  · rename_i store uses hget
    refine after_bind_of (keeps_onPages _ s) (fun _ h => h.moves) fun store' s₁ _ => ?_
    exact .single (.change store' uses hget)
  · exact refl s

/-- The entries of a batch bring their values into memory one after the other, as far as they go. -/
theorem moves_applyEntries (useThreshold : Nat) (entries : List (ValueId × Tuple)) :
    Leads Moves (applyEntries useThreshold entries) := by
  induction entries with
  | nil => exact .pure _
  | cons entry entries ih =>
    exact (moves_makeResident _ _).bind fun _ => (moves_appendTo _ _).bind fun _ =>
      ih.bind fun _ => .pure _

/-- A look-up brings its value into memory, or finds it there. -/
theorem moves_lookUp (useThreshold : Nat) (value : ValueId) :
    Leads Moves (lookUp useThreshold value) := by
  have hcurrent : Leads Moves (Over.current : Act (Over IndexSet) IndexSet) := fun s => refl s
  refine (moves_makeResident _ _).bind fun access => hcurrent.bind fun set => ?_
  split
  · exact .pure _
  · exact .throw _

end IndexSet

/-! ## Runs of an index -/

namespace Shelf

variable {R : IndexSet → IndexSet → Prop} {s : Shelf} {id : SetId} {set set' : IndexSet}

/-- Each set of a shelf comes from the one that was in its place. -/
def Setwise (R : IndexSet → IndexSet → Prop) (s s' : Shelf) : Prop :=
  ∀ (id : SetId) (set' : IndexSet), s'.sets[id]? = some set' → ∃ set, s.sets[id]? = some set ∧ R set set'

instance [IsPreorder IndexSet R] : IsPreorder Shelf (Setwise R) where
  refl s id set hset := ⟨set, hset, refl set⟩
  trans s s' s'' h h' id set'' hset'' := by
    obtain ⟨set', hset', hR'⟩ := h' id set'' hset''
    obtain ⟨set, hset, hR⟩ := h id set' hset'
    exact ⟨set, hset, IsTrans.trans _ _ _ hR hR'⟩

/-- What happens to one set happens set by set. -/
theorem Setwise.of_set [Std.Refl R] (hset : s.sets[id]? = some set) (hR : R set set') (pages : PageFile) :
    Setwise R s (s.withSet id set' pages) := by
  intro other set'' hother
  by_cases hid : other = id
  · subst hid
    rw [withSet_self hset, Option.some.injEq] at hother
    exact ⟨set, hset, hother ▸ hR⟩
  · rw [withSet_of_ne hid] at hother
    exact ⟨set'', hother, refl set''⟩

/-- On any shelf the tallies of the sets move. -/
theorem trend_moves : Trend (Setwise (InvImage Tally.Reaches IndexSet.tally)) where
  pages _ _ _ _ set hset := ⟨set, hset, refl set.tally⟩
  pending s _ set _ hset := Setwise.of_set hset (refl set.tally) s.pages
  applyEntries id useThreshold entries :=
    leads_onSet? id (IndexSet.moves_applyEntries useThreshold entries) fun _ _ t hset hmoves =>
      Setwise.of_set hset hmoves t.pages
  lookUp id useThreshold value :=
    leads_onSet? id (IndexSet.moves_lookUp useThreshold value) fun _ _ t hset hmoves =>
      Setwise.of_set hset hmoves t.pages
  discard key :=
    leads_onSet? key.set (IndexSet.moves_discard key.value) fun _ _ t hset hmoves =>
      Setwise.of_set hset hmoves t.pages

end Shelf

namespace Setup

variable {u : Setup} {r : Recorder} {id : SetId} {set : IndexSet}

/-- After any calls, whatever came of them, the tallies of all sets are balanced. -/
theorem tally_balanced (h : u.start = .ok r) (calls : List (Call u.shapes.length))
    (hset : (r.run calls).archive.set? id = some set) : set.tally.Balanced := by
  obtain ⟨fresh, hfresh, hmoves⟩ := Recorder.run_trend Shelf.trend_moves r calls id set hset
  obtain ⟨pages, -, rfl⟩ := start_eq_ok h
  have hcreated : (u.archive pages).set? id = some fresh := hfresh
  rw [(u.fresh_archive pages).set?_eq id] at hcreated
  obtain ⟨shape, -, rfl⟩ := Option.map_eq_some_iff.mp hcreated
  exact hmoves.balanced (Tally.balanced_create ..)

end Setup

end EventIndex
