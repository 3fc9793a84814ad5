import EventIndex.Proofs.Index.Slots
import Mathlib.Logic.Function.Basic

/-! # What the lists of a set hold

A list may be in memory, written out or not known yet; its `Holding` is what it holds in any case: a
store, the tuples on its sealed pages, and the scratch pages of the store while it is written out.
`LiesOn` ties the holdings of a set to what is in memory and on disk. It is the invariant of a set.

A list that is taken back or written out keeps its tuples and its sealed pages. `Extends` says so of two
holdings, and with what may be added in the meantime it is all that a snapshot relies on.
-/

namespace EventIndex

/-- A list, wherever it is. -/
structure Holding where
  store : Store
  /-- The tuples on the sealed pages. -/
  chunks : List (List Tuple)
  /-- The pages of tail and directory while the list is written out. -/
  scratch : List Nat

namespace Holding

/-- The list of a value that is not known yet. -/
def empty (k : Kind) : Holding := ⟨.empty k, [], []⟩

/-- The tuples of a list. -/
def tuples (h : Holding) : List Tuple := h.store.tuples h.chunks

/-- The pages that a list uses. -/
def pages (h : Holding) : List Nat := h.store.sealedPages ++ h.scratch

/-- From one holding to a later one, pages may have been sealed, but the old ones are still there. -/
structure Extends (h h' : Holding) : Prop where
  kind_eq : h'.store.kind = h.store.kind
  directory : h.store.directory.toList <+: h'.store.directory.toList
  chunks : h.chunks <+: h'.chunks

theorem Extends.refl (h : Holding) : h.Extends h :=
  ⟨rfl, List.prefix_refl _, List.prefix_refl _⟩

/-- Scratch pages do not matter. -/
theorem Extends.of_scratch (s : Store) (chunks : List (List Tuple)) (ps qs : List Nat) :
    Extends ⟨s, chunks, ps⟩ ⟨s, chunks, qs⟩ := ⟨rfl, List.prefix_refl _, List.prefix_refl _⟩

theorem Extends.trans {h h' h'' : Holding} (e : h.Extends h') (e' : h'.Extends h'') :
    h.Extends h'' :=
  ⟨e'.kind_eq.trans e.kind_eq, e.directory.trans e'.directory, e.chunks.trans e'.chunks⟩

end Holding

namespace IndexSet

variable {set : IndexSet} {d d' : Disk} {value : ValueId} {held : ValueId → Holding} {h : Holding}
  {entry : Entry}

/-- A holding is that of a value. -/
structure HoldsAt (set : IndexSet) (d : Disk) (value : ValueId) (h : Holding) : Prop where
  kind : h.store.kind = set.kind
  lies : h.store.LiesOn d h.chunks
  unknown : set.entries[value]? = none → h = .empty set.kind
  resident : ∀ store uses, set.entries[value]? = some (.resident store uses) →
    h.store = store ∧ h.scratch = []
  discarded : set.entries[value]? = some .discarded →
    ∃ x, set.HasSlot d value x ∧ h.store.SavedAs d x h.scratch

/-- The lists of a set lie on a disk. -/
structure LiesOn (set : IndexSet) (d : Disk) (held : ValueId → Holding) : Prop where
  slots : set.SlotsLieOn d
  holds : ∀ value, set.HoldsAt d value (held value)

/-- The pages of all values but one. -/
def pagesOfOthers (set : IndexSet) (held : ValueId → Holding) (value : ValueId) : List Nat :=
  (Table.others set.entries value).flatMap fun e => (held e.1).pages

/-- The pages that a set uses. -/
def pages (set : IndexSet) (held : ValueId → Holding) : List Nat :=
  set.slotPageList ++ set.entries.toList.flatMap fun e => (held e.1).pages

/-! ## One value and the others -/

/-- The pages of a set are those of one value, those of the others, and the slot pages. -/
theorem pages_perm (hlies : set.LiesOn d held) (value : ValueId) :
    (set.pages held).Perm
      ((held value).pages ++ (set.slotPageList ++ set.pagesOfOthers held value)) := by
  have hentries : (set.entries.toList.flatMap fun e => (held e.1).pages).Perm
      ((held value).pages ++ set.pagesOfOthers held value) := by
    cases hget : set.entries[value]? with
    | some entry => exact (Table.toList_of_some hget).flatMap_right fun e => (held e.1).pages
    | none =>
      have hempty := (hlies.holds value).unknown hget
      rw [Table.toList_of_none hget, hempty]
      exact .refl _
  exact (hentries.append_left _).trans (List.perm_append_comm_assoc _ _ _)

/-- The same for a set in which one value has come to another state. -/
theorem pages_perm_of_insert {set' : IndexSet} (held : ValueId → Holding) (h : Holding)
    (hentries : set'.entries = set.entries.insert value entry) :
    (set'.pages (Function.update held value h)).Perm
      (h.pages ++ (set'.slotPageList ++ set.pagesOfOthers held value)) := by
  have hothers : ((Table.others set.entries value).flatMap fun e =>
      (Function.update held value h e.1).pages) = set.pagesOfOthers held value :=
    List.flatMap_congr fun e he => by
      rw [Function.update_of_ne (Table.ne_of_mem_others he)]
  have hperm := (Table.toList_insert (m := set.entries) (k := value) (v := entry)).flatMap_right
    fun e => (Function.update held value h e.1).pages
  rw [List.flatMap_cons, hothers, Function.update_self, ← hentries] at hperm
  exact (hperm.append_left _).trans (List.perm_append_comm_assoc _ _ _)

/-! ## Keeping the invariant -/

theorem HoldsAt.keep (hat : set.HoldsAt d value h) (hcap : d'.capacity = d.capacity)
    (hk : d.Keeps d' (set.slotPageList ++ h.pages)) : set.HoldsAt d' value h where
  kind := hat.kind
  lies := hat.lies.keep hcap (hk.mono fun p hp =>
    List.mem_append_right _ (List.mem_append_left _ hp))
  unknown := hat.unknown
  resident := hat.resident
  discarded hget := by
    obtain ⟨x, hslot, hsaved⟩ := hat.discarded hget
    exact ⟨x, hslot.keep hcap (hk.mono (List.subset_append_left _ _)),
      hsaved.keep (hk.mono fun p hp => List.mem_append_right _ (List.mem_append_right _ hp))⟩

theorem pages_subset (hlies : set.LiesOn d held) (value : ValueId) :
    (held value).pages ⊆ set.pages held := fun _ hp =>
  (pages_perm hlies value).symm.subset (List.mem_append_left _ hp)

/-- The lists of a set depend on its own pages alone. -/
theorem LiesOn.keep (hlies : set.LiesOn d held) (hcap : d'.capacity = d.capacity)
    (hk : d.Keeps d' (set.pages held)) : set.LiesOn d' held where
  slots := hlies.slots.keep hcap (hk.mono (List.subset_append_left _ _))
  holds value := (hlies.holds value).keep hcap (hk.mono (List.append_subset.mpr
    ⟨List.subset_append_left _ _, pages_subset hlies value⟩))

theorem pages_subset_others (hlies : set.LiesOn d held) {w : ValueId} (hw : w ≠ value) :
    (held w).pages ⊆ set.pagesOfOthers held value := by
  intro p hp
  cases hget : set.entries[w]? with
  | some entry =>
    exact List.mem_flatMap.mpr ⟨(w, entry), Table.mem_others_of_getElem? hget hw, hp⟩
  | none =>
    rw [(hlies.holds w).unknown hget] at hp
    cases hp

/-- One value comes to another state. The others stay as they are when their pages and their slots
do. -/
theorem LiesOn.setEntry {set' : IndexSet} (hlies : set.LiesOn d held)
    (hentries : set'.entries = set.entries.insert value entry) (hkind : set'.kind = set.kind)
    (hslots : set'.SlotsLieOn d') (hcap : d'.capacity = d.capacity)
    (hkeep : d.Keeps d' (set.pagesOfOthers held value))
    (hslot : ∀ w x, w ≠ value → set.HasSlot d w x → set'.HasSlot d' w x)
    (hat : set'.HoldsAt d' value h) : set'.LiesOn d' (Function.update held value h) where
  slots := hslots
  holds w := by
    by_cases hw : w = value
    · rw [hw, Function.update_self]
      exact hat
    · -- another value has the pages it had, and its entry is the same
      have hold := hlies.holds w
      have hpages : d.Keeps d' (held w).pages := hkeep.mono (pages_subset_others hlies hw)
      have hget : set'.entries[w]? = set.entries[w]? := by
        rw [hentries, Std.HashMap.getElem?_insert, if_neg (by simpa using Ne.symm hw)]
      rw [Function.update_of_ne hw]
      refine ⟨hold.kind.trans hkind.symm,
        hold.lies.keep hcap (hpages.mono (List.subset_append_left _ _)), ?_, ?_, ?_⟩
      · rw [hget, hkind]
        exact hold.unknown
      · rw [hget]
        exact hold.resident
      · rw [hget]
        intro hdiscarded
        obtain ⟨x, hx, hsaved⟩ := hold.discarded hdiscarded
        exact ⟨x, hslot w x hw hx, hsaved.keep (hpages.mono (List.subset_append_right _ _))⟩

end IndexSet

end EventIndex
