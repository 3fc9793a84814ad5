import EventIndex.Proofs.Index.Book
import EventIndex.Proofs.Index.Holdings

/-! # Operations on the lists of a set

A set over a page file is `Sound` when its lists lie on the disk of the file, and each page of the
disk is free, used by the set or used by bystanders. A `Step` takes a sound set to a sound set; the
bystanders do not notice. Each operation is a step, and of what it does to the tuples of the lists
and to their residency the specifications say the rest.

Main results:

* `makeResident_spec`: an access brings a list into memory, created or taken back.
* `lookUp_spec`, `appendTo_spec`: reading a list and adding to it.
* `applyEntries_spec`: a batch, entry by entry, up to the first that is refused.
* `discard_spec`: a list leaves memory, and no tuple changes.
-/

namespace EventIndex

namespace IndexSet

/-- A set lies on the disk of its page file, beside the pages of others. -/
structure Sound (s : Over IndexSet) (held : ValueId → Holding) (rest : List Nat) : Prop where
  file : s.pages.Sound
  lies : s.item.LiesOn s.pages.disk held
  owned : s.pages.disk.Owned (s.item.pages held ++ rest)

/-- What no operation on the lists of a set changes. -/
structure Outline where
  id : SetId
  name : String
  kind : Kind
  pending : Batch
  isDisposed : Bool

/-- The outline of a set. -/
def outline (set : IndexSet) : Outline :=
  ⟨set.id, set.name, set.kind, set.pending, set.isDisposed⟩

/-- From one state of a set to the next: the set has its pages exchanged, lies on disk as before,
and is still the same set. -/
structure Step (s s' : Over IndexSet) (held held' : ValueId → Holding) : Prop where
  file : s'.pages.Sound
  lies : s'.item.LiesOn s'.pages.disk held'
  exchange : s.pages.disk.Exchange s'.pages.disk (s.item.pages held) (s'.item.pages held')
  extends_ : ∀ v, (held v).Extends (held' v)
  outline_eq : s'.item.outline = s.item.outline

variable {s s' s'' : Over IndexSet} {held held' held'' : ValueId → Holding} {rest : List Nat}
  {value : ValueId} {t : Tuple}

/-- Two steps are one. -/
theorem Step.trans (h : Step s s' held held') (h' : Step s' s'' held' held'') :
    Step s s'' held held'' where
  file := h'.file
  lies := h'.lies
  exchange := h.exchange.trans h'.exchange
  extends_ v := (h.extends_ v).trans (h'.extends_ v)
  outline_eq := h'.outline_eq.trans h.outline_eq

/-- A set stays of its kind. -/
theorem Step.kind_eq (h : Step s s' held held') : s'.item.kind = s.item.kind :=
  congrArg Outline.kind h.outline_eq

/-- A step leads from a sound set to a sound one. -/
theorem Step.sound (h : Step s s' held held') (hs : Sound s held rest) : Sound s' held' rest :=
  ⟨h.file, h.lies, h.exchange.owned rest hs.owned⟩

/-- A sound set steps to itself. -/
theorem Sound.step_refl (hs : Sound s held rest) : Step s s held held :=
  ⟨hs.file, hs.lies, .refl _ _, fun v => .refl (held v), rfl⟩

/-- The pages of one value in front of all others. -/
theorem Sound.owned_value (hs : Sound s held rest) (value : ValueId) :
    s.pages.disk.Owned ((held value).pages ++
      (s.item.slotPageList ++ s.item.pagesOfOthers held value ++ rest)) := by
  rw [← List.append_assoc]
  exact hs.owned.perm ((pages_perm hs.lies value).append_right rest)

/-- A step that brings one value to another state. The pages of the value and of the slots may be
exchanged; those of the other values stay. -/
theorem Step.of_insert {entry : Entry} {h : Holding} (hs : Sound s held rest)
    (hfile : s'.pages.Sound) (hentries : s'.item.entries = s.item.entries.insert value entry)
    (hx : s.pages.disk.Exchange s'.pages.disk ((held value).pages ++ s.item.slotPageList)
      (h.pages ++ s'.item.slotPageList))
    (hext : (held value).Extends h) (hslots : s'.item.SlotsLieOn s'.pages.disk)
    (hslot : ∀ w x, w ≠ value → s.item.HasSlot s.pages.disk w x → s'.item.HasSlot s'.pages.disk w x)
    (hat : s'.item.HoldsAt s'.pages.disk value h)
    (hsame : s'.item.outline = s.item.outline) :
    Step s s' held (Function.update held value h) := by
  -- only the pages of this list and of the slots are exchanged: those of the others are a frame
  have hkind : s'.item.kind = s.item.kind := congrArg Outline.kind hsame
  have hperm := pages_perm hs.lies value
  have hperm' := pages_perm_of_insert held h hentries
  have hown : s.pages.disk.Owned ((held value).pages ++ s.item.slotPageList ++
      (s.item.pagesOfOthers held value ++ rest)) := by
    have hown := hs.owned_value value
    simp only [List.append_assoc] at hown ⊢
    exact hown
  refine ⟨hfile, ?_, ?_, fun w => ?_, hsame⟩
  · exact hs.lies.setEntry hentries hkind hslots hx.capacity_eq
      ((hx.kept _ hown).mono (List.subset_append_left _ _)) hslot hat
  · have hframe := hx.frame (s.item.pagesOfOthers held value)
    rw [List.append_assoc, List.append_assoc] at hframe
    exact hframe.perm hperm.symm hperm'.symm
  · by_cases hw : w = value
    · rw [hw, Function.update_self]
      exact hext
    · rw [Function.update_of_ne hw]
      exact .refl _

/-- A holding of a list in memory is that of its value. -/
theorem HoldsAt.ofResident {set : IndexSet} {d : Disk} {store : Store} {uses : Nat}
    {chunks : List (List Tuple)} (hget : set.entries[value]? = some (.resident store uses))
    (hkind : store.kind = set.kind) (hlies : store.LiesOn d chunks) :
    set.HoldsAt d value ⟨store, chunks, []⟩ where
  kind := hkind
  lies := hlies
  unknown h := by rw [hget] at h; cases h
  resident store' uses' h := by
    rw [hget] at h
    cases h
    exact ⟨rfl, rfl⟩
  discarded h := by rw [hget] at h; cases h

/-- The scratch pages of one value in front of all others. -/
theorem Sound.owned_scratch (hs : Sound s held rest) (value : ValueId) :
    s.pages.disk.Owned ((held value).scratch ++ ((held value).store.sealedPages ++
      (s.item.slotPageList ++ s.item.pagesOfOthers held value ++ rest))) := by
  refine (hs.owned_value value).perm ?_
  simp only [Holding.pages, List.append_assoc]
  exact List.perm_append_comm_assoc _ _ _

/-! ## Residency -/

/-- A list is in memory if its entry says so. -/
theorem isResident_iff {set : IndexSet} :
    set.isResident value = true ↔ ∃ store uses, set.entries[value]? = some (.resident store uses) := by
  unfold isResident
  split
  · rename_i store uses h
    exact iff_of_true rfl ⟨store, uses, h⟩
  · rename_i h
    exact iff_of_false Bool.false_ne_true fun ⟨store, uses, hget⟩ => h store uses hget

/-- A list that comes into memory is there, and the others are where they were. -/
theorem isResident_insert {set set' : IndexSet} {store : Store} {uses : Nat}
    (h : set'.entries = set.entries.insert value (.resident store uses)) (w : ValueId) :
    set'.isResident w = (set.isResident w || w == value) := by
  rw [isResident, h, Std.HashMap.getElem?_insert]
  by_cases hw : w = value
  · simp [hw]
  · simp [hw, Ne.symm hw, isResident]

/-- A list that leaves memory is not there, and the others are where they were. -/
theorem isResident_discarded {set set' : IndexSet}
    (h : set'.entries = set.entries.insert value .discarded) (w : ValueId) :
    set'.isResident w = (set.isResident w && w != value) := by
  rw [isResident, h, Std.HashMap.getElem?_insert]
  by_cases hw : w = value
  · simp [hw]
  · simp [hw, Ne.symm hw, isResident]

/-- What is held of a list in memory. -/
theorem Sound.held_resident (hs : Sound s held rest) {store : Store} {uses : Nat}
    (hget : s.item.entries[value]? = some (.resident store uses)) :
    held value = ⟨store, (held value).chunks, []⟩ ∧ store.kind = s.item.kind ∧
      store.LiesOn s.pages.disk (held value).chunks := by
  have hat := hs.lies.holds value
  obtain ⟨rfl, hscratch⟩ := hat.resident store uses hget
  refine ⟨?_, hat.kind, hat.lies⟩
  rw [← hscratch]

/-- A list in memory has its sealed pages and no others. -/
theorem Sound.pages_resident (hs : Sound s held rest) {store : Store} {uses : Nat}
    (hget : s.item.entries[value]? = some (.resident store uses)) :
    (held value).pages = store.sealedPages := by
  rw [(hs.held_resident hget).1]
  exact List.append_nil _

/-- The sealed pages of a list in memory in front of all others. -/
theorem Sound.owned_resident (hs : Sound s held rest) {store : Store} {uses : Nat}
    (hget : s.item.entries[value]? = some (.resident store uses)) :
    s.pages.disk.Owned (store.sealedPages ++
      (s.item.slotPageList ++ s.item.pagesOfOthers held value ++ rest)) :=
  hs.pages_resident hget ▸ hs.owned_value value

/-- A value may be held in another way and have the same tuples. -/
theorem tuples_update_same {h : Holding} (heq : h.tuples = (held value).tuples) (w : ValueId) :
    (Function.update held value h w).tuples = (held w).tuples := by
  by_cases hw : w = value
  · rw [hw, Function.update_self, heq]
  · rw [Function.update_of_ne hw]

/-! ## Coming into memory -/

/-- An access to a list in memory is counted, and the list stays as it is. -/
theorem Sound.step_counted (hs : Sound s held rest) {store : Store} {uses : Nat}
    (hget : s.item.entries[value]? = some (.resident store uses)) (uses' : Nat) :
    Step s ⟨s.item.setEntry value (.resident store uses'), s.pages⟩ held
      (Function.update held value (held value)) := by
  obtain ⟨hheld, hkind, hlies⟩ := hs.held_resident hget
  refine Step.of_insert hs hs.file rfl (.refl _ _) (.refl _) hs.lies.slots (fun _ _ _ h => h) ?_ rfl
  rw [hheld]
  exact .ofResident Std.HashMap.getElem?_insert_self hkind hlies

/-- A new value gets an empty list. -/
theorem Sound.step_created (hs : Sound s held rest) (hget : s.item.entries[value]? = none) :
    Step s ⟨{ s.item.setEntry value (.resident (.empty s.item.kind) 0) with
      created := s.item.created + 1 }, s.pages⟩ held (Function.update held value (held value)) := by
  refine Step.of_insert hs hs.file rfl (.refl _ _) (.refl _) hs.lies.slots (fun _ _ _ h => h) ?_ rfl
  rw [(hs.lies.holds value).unknown hget]
  exact .ofResident Std.HashMap.getElem?_insert_self rfl (Store.liesOn_empty _ _)

/-- A discarded list is taken back from its descriptor, and its scratch pages are released. -/
theorem makeResident_discarded (threshold : Nat) (hs : Sound s held rest)
    (hget : s.item.entries[value]? = some .discarded) :
    ∃ f, makeResident threshold value s = .ok .entered
        ⟨{ s.item.setEntry value (.resident (held value).store 0) with
          reloaded := s.item.reloaded + 1 }, f⟩ ∧
      Step s ⟨{ s.item.setEntry value (.resident (held value).store 0) with
          reloaded := s.item.reloaded + 1 }, f⟩ held
        (Function.update held value ⟨(held value).store, (held value).chunks, []⟩) := by
  have hcurrent : (Over.current : Act (Over IndexSet) IndexSet) s = .ok s.item s := rfl
  have hat := hs.lies.holds value
  obtain ⟨x, hslot, hsaved⟩ := hat.discarded hget
  obtain ⟨f₁, hread, hf₁, hd₁⟩ := readSlot_spec hs.file hs.lies.slots hslot
  obtain ⟨f₂, hload, hf₂, hx, hpages⟩ :=
    Store.load_spec hf₁ (hd₁ ▸ hs.owned_scratch value) (hd₁ ▸ hat.lies) (hd₁ ▸ hsaved)
  rw [hd₁] at hx hpages
  rw [hat.kind] at hload
  -- what the pages hold stays, those that are released included
  have hkeep : ∀ ps, s.pages.disk.Keeps f₂.disk ps := fun ps p _ payload hp => hpages ▸ hp
  refine ⟨f₂, ?_, ?_⟩
  · unfold makeResident
    rw [Act.bind_ok hcurrent, hget]
    dsimp only
    rw [Act.bind_ok hread, Act.bind_ok (Over.onPages_ok (c := s.item) hload)]
    rfl
  · refine Step.of_insert hs hf₂ rfl ?_ (.of_scratch _ _ _ _) (hs.lies.slots.keep hx.capacity_eq (hkeep _))
      (fun w y _ hy => hy.keep hx.capacity_eq (hkeep _)) ?_ rfl
    · have hframe := hx.frame ((held value).store.sealedPages ++ s.item.slotPageList)
      refine hframe.perm ?_ ?_
      · rw [Holding.pages, ← List.append_assoc]
        exact List.perm_append_comm.append_right _
      · simp only [Holding.pages, List.append_nil, List.nil_append]
        exact .refl _
    · exact .ofResident Std.HashMap.getElem?_insert_self hat.kind
        (hat.lies.keep hx.capacity_eq (hkeep _))

/-- An access changes nothing but the count of accesses when the list is in memory; otherwise the list
comes into memory. No tuple changes. -/
theorem makeResident_spec (threshold : Nat) (value : ValueId) (hs : Sound s held rest) :
    ∃ access s' held', makeResident threshold value s = .ok access s' ∧ Step s s' held held' ∧
      (∀ w, (held' w).tuples = (held w).tuples) ∧
      (∀ w, s'.item.isResident w = (s.item.isResident w || w == value)) ∧
      (access = .entered ↔ s.item.isResident value = false) := by
  have hcurrent : (Over.current : Act (Over IndexSet) IndexSet) s = .ok s.item s := rfl
  cases hget : s.item.entries[value]? with
  | some entry =>
    cases entry with
    | resident store uses =>
      -- the list is there: its uses are counted, up to the threshold
      have hresident : s.item.isResident value = true := isResident_iff.mpr ⟨_, _, hget⟩
      unfold makeResident
      rw [Act.bind_ok hcurrent, hget]
      dsimp only
      split
      · exact ⟨.used, _, _, rfl, hs.step_counted hget 0, tuples_update_same rfl, isResident_insert rfl,
          by simp [hresident]⟩
      · exact ⟨.quiet, _, _, rfl, hs.step_counted hget (uses + 1), tuples_update_same rfl,
          isResident_insert rfl, by simp [hresident]⟩
    | discarded =>
      -- the list is on disk: it is loaded
      obtain ⟨f, hrun, hstep⟩ := makeResident_discarded threshold hs hget
      exact ⟨.entered, _, _, hrun, hstep, tuples_update_same rfl, isResident_insert rfl,
        by simp [isResident, hget]⟩
  | none =>
    unfold makeResident
    rw [Act.bind_ok hcurrent, hget]
    exact ⟨.entered, _, _, rfl, hs.step_created hget, tuples_update_same rfl, isResident_insert rfl,
      by simp [isResident, hget]⟩

/-- A value that was just accessed is in memory. -/
theorem isResident_self {set set' : IndexSet}
    (h : ∀ w, set'.isResident w = (set.isResident w || w == value)) :
    set'.isResident value = true := by
  rw [h value]
  simp

/-! ## Looking up -/

/-- The snapshot shows the list as it is. -/
theorem lookUp_spec (threshold : Nat) (value : ValueId) (hs : Sound s held rest) :
    ∃ access view s' held', lookUp threshold value s = .ok (access, view) s' ∧
      Step s s' held held' ∧ (∀ w, (held' w).tuples = (held w).tuples) ∧
      (∀ w, s'.item.isResident w = (s.item.isResident w || w == value)) ∧
      (access = .entered ↔ s.item.isResident value = false) ∧
      view = (held' value).store.snapshot := by
  obtain ⟨access, s', held', hrun, hstep, htuples, hresident, haccess⟩ :=
    makeResident_spec threshold value hs
  obtain ⟨store, uses, hget⟩ := isResident_iff.mp (isResident_self hresident)
  have hcurrent : (Over.current : Act (Over IndexSet) IndexSet) s' = .ok s'.item s' := rfl
  refine ⟨access, store.snapshot, s', held', ?_, hstep, htuples, hresident, haccess, ?_⟩
  · unfold lookUp
    rw [Act.bind_ok hrun, Act.bind_ok hcurrent, hget]
    rfl
  · rw [((hstep.sound hs).held_resident hget).1]

/-! ## Appending -/

/-- A list in memory takes a tuple exactly when the list of its tuples does; if it does not, nothing
changes. -/
theorem appendTo_spec (hs : Sound s held rest) (hresident : s.item.isResident value = true)
    (ht : s.item.kind.Holds t) :
    match s.item.kind.extend (held value).tuples t with
    | .ok ts => ∃ s' h, appendTo value t s = .ok () s' ∧
        Step s s' held (Function.update held value h) ∧ h.tuples = ts ∧
        ∀ w, s'.item.isResident w = s.item.isResident w
    | .error e => appendTo value t s = .error e s := by
  obtain ⟨store, uses, hget⟩ := isResident_iff.mp hresident
  obtain ⟨hheld, hkind, hlies⟩ := hs.held_resident hget
  have hcurrent : (Over.current : Act (Over IndexSet) IndexSet) s = .ok s.item s := rfl
  have hown := hs.owned_resident hget
  have hspec := Store.append_spec hs.file hown hlies (hkind ▸ ht)
  have htuples : (held value).tuples = store.tuples (held value).chunks := by
    rw [hheld]
    rfl
  rw [htuples, ← hkind]
  unfold appendTo
  rw [Act.bind_ok hcurrent, hget]
  dsimp only
  cases hext : store.kind.extend (store.tuples (held value).chunks) t with
  | error e =>
    rw [hext] at hspec
    exact Act.bind_error (Over.onPages_error (c := s.item) hspec)
  | ok ts =>
    rw [hext] at hspec
    obtain ⟨store', f', chunks', new, hrun, hf', hx, hlies', hkind', hsame, hpages, hdir, hchunks⟩ :=
      hspec
    have hkeep := hx.kept _ hown
    refine ⟨⟨s.item.setEntry value (.resident store' uses), f'⟩, ⟨store', chunks', []⟩, ?_, ?_, hsame,
      ?_⟩
    · rw [Act.bind_ok (Over.onPages_ok (c := s.item) hrun)]
      rfl
    · -- the pages of the list are exchanged, and the slots stay where they are
      have hslotKeep : s.pages.disk.Keeps f'.disk s.item.slotPageList :=
        hkeep.mono fun p hp => by simp [hp]
      refine Step.of_insert hs hf' rfl ?_ ?_ (hs.lies.slots.keep hx.capacity_eq hslotKeep)
        (fun w y _ hy => hy.keep hx.capacity_eq hslotKeep) ?_ rfl
      · have hframe := hx.frame ((held value).pages ++ s.item.slotPageList)
        refine hframe.perm (.refl _) ?_
        rw [hs.pages_resident hget, Holding.pages, hpages, List.append_nil, ← List.append_assoc]
        exact List.perm_append_comm.append_right _
      · rw [hheld]
        exact ⟨hkind', hdir, hchunks⟩
      · exact .ofResident Std.HashMap.getElem?_insert_self (hkind'.trans hkind) hlies'
    · intro w
      rw [isResident_insert rfl w]
      by_cases hw : w = value
      · simp [hw, hresident]
      · simp [hw]

/-! ## Batches -/

/-- A report names a value if its access brought it into memory. -/
theorem prepend_entered (r : Report) (access : Access) :
    (r.prepend value access).entered =
      if access = .entered then value :: r.entered else r.entered := by
  cases access <;> rfl

/-- An access leaves in memory the list it is to, and reports it if it was not there before. -/
theorem contains_prepend {set : IndexSet} {access : Access}
    (haccess : access = .entered ↔ set.isResident value = false) (r : Report) (w : ValueId) :
    (set.isResident w || (r.prepend value access).entered.contains w) =
      (set.isResident w || w == value || r.entered.contains w) := by
  rw [prepend_entered]
  split
  · rw [List.contains_cons, Bool.or_assoc]
  · rename_i hquiet
    have hvalue : set.isResident value = true := by
      rw [haccess] at hquiet
      simpa using hquiet
    by_cases hw : w = value
    · rw [hw, hvalue]
      rfl
    · rw [show (w == value) = false by simpa using hw, Bool.or_false]

/-- No value is reported twice, if the values reported later were not in memory when they were accessed. -/
theorem nodup_prepend {r : Report} (h : r.entered.Nodup) (hnot : value ∉ r.entered) (access : Access) :
    (r.prepend value access).entered.Nodup := by
  rw [prepend_entered]
  split
  · exact List.nodup_cons.mpr ⟨hnot, h⟩
  · exact h

/-- The values reported are those that were not in memory before. -/
theorem mem_prepend_entered {set : IndexSet} {access : Access} {r : Report} {reached : List ValueId}
    (haccess : access = .entered ↔ set.isResident value = false)
    (hrest : ∀ w, w ∈ r.entered ↔ (set.isResident w || w == value) = false ∧ w ∈ reached)
    (w : ValueId) : w ∈ (r.prepend value access).entered ↔
      set.isResident w = false ∧ w ∈ value :: reached := by
  rw [prepend_entered, List.mem_cons]
  by_cases hw : w = value
  · subst hw
    have hnot : w ∉ r.entered := by
      rw [hrest]
      simp
    split
    · rename_i hentered
      simp [haccess.mp hentered]
    · rename_i hquiet
      rw [haccess] at hquiet
      simp [hnot, hquiet]
  · have hrest := hrest w
    rw [show (w == value) = false by simpa using hw, Bool.or_false] at hrest
    split
    · simp [hw, hrest]
    · simp [hw, hrest]

/-- A report names the values that came into memory of those that were reached, each of them once. -/
structure Report.Names (r : Report) (set set' : IndexSet) (reached : List ValueId) : Prop where
  resident_eq : ∀ w, set'.isResident w = (set.isResident w || r.entered.contains w)
  nodup : r.entered.Nodup
  mem_iff : ∀ w, w ∈ r.entered ↔ set.isResident w = false ∧ w ∈ reached

/-- Nothing was reached, and nothing came into memory. -/
theorem Report.Names.nothing (set : IndexSet) : Report.Names ⟨[], []⟩ set set [] where
  resident_eq _ := by simp
  nodup := List.nodup_nil
  mem_iff _ := by simp

/-- An access comes before those that a report is about. -/
theorem Report.Names.prepend {r : Report} {set set₁ set' : IndexSet} {access : Access}
    {reached : List ValueId} (h : r.Names set₁ set' reached)
    (hresident : ∀ w, set₁.isResident w = (set.isResident w || w == value))
    (haccess : access = .entered ↔ set.isResident value = false) :
    (r.prepend value access).Names set set' (value :: reached) where
  resident_eq w := by rw [h.resident_eq, hresident, contains_prepend haccess]
  nodup := by
    refine nodup_prepend h.nodup (fun hmem => ?_) access
    have hfalse := ((h.mem_iff value).mp hmem).1
    rw [hresident value] at hfalse
    simp at hfalse
  mem_iff := mem_prepend_entered haccess fun w => by rw [h.mem_iff, hresident]

/-- Another holding of one value changes the tuples of that value alone. -/
theorem tuples_update (held : ValueId → Holding) (value : ValueId) (h : Holding) :
    (fun w => (Function.update held value h w).tuples) =
      Function.update (fun w => (held w).tuples) value h.tuples := by
  funext w
  by_cases hw : w = value
  · rw [hw, Function.update_self, Function.update_self]
  · rw [Function.update_of_ne hw, Function.update_of_ne hw]

/-- A batch does to the lists of a set what it does to lists of tuples. The report tells which
values came into memory for it, also when it is not handed out because the batch failed. -/
theorem applyEntries_spec (threshold : Nat) {entries : List (ValueId × Tuple)} (hs : Sound s held rest)
    (hentries : ∀ e ∈ entries, s.item.kind.Holds e.2) :
    ∃ s' held' report, Step s s' held held' ∧
      (match s.item.kind.extendEach entries fun w => (held w).tuples with
        | .ok _ lists => applyEntries threshold entries s = .ok report s' ∧
            (fun w => (held' w).tuples) = lists
        | .error e lists => applyEntries threshold entries s = .error e s' ∧
            (fun w => (held' w).tuples) = lists) ∧
      Report.Names report s.item s'.item (s.item.kind.reached entries fun w => (held w).tuples) := by
  induction entries generalizing s held with
  | nil => exact ⟨s, held, ⟨[], []⟩, hs.step_refl, ⟨rfl, rfl⟩, .nothing s.item⟩
  | cons entry entries ih =>
    obtain ⟨value, t⟩ := entry
    -- the list comes into memory, if it is not there
    obtain ⟨access, s₁, held₁, hmake, hstep₁, htuples₁, hres₁, haccess⟩ :=
      makeResident_spec threshold value hs
    have hs₁ := hstep₁.sound hs
    have hlists₁ : (fun w => (held₁ w).tuples) = fun w => (held w).tuples := funext htuples₁
    have ht : s₁.item.kind.Holds t := by
      rw [hstep₁.kind_eq]
      exact hentries (value, t) List.mem_cons_self
    have hspec := appendTo_spec hs₁ (isResident_self hres₁) ht
    rw [hstep₁.kind_eq, htuples₁] at hspec
    simp only [Kind.extendEach, Kind.reached, applyEntries]
    rw [Act.bind_ok hmake]
    cases hext : s.item.kind.extend (held value).tuples t with
    | error e =>
      -- it stays there, though the tuple is refused
      rw [hext] at hspec
      exact ⟨s₁, held₁, (⟨[], []⟩ : Report).prepend value access, hstep₁,
        ⟨Act.bind_error hspec, hlists₁⟩, (Report.Names.nothing s₁.item).prepend hres₁ haccess⟩
    | ok ts =>
      rw [hext] at hspec
      obtain ⟨s₂, h, happend, hstep₂, hts, hres₂⟩ := hspec
      have hkind₂ : s₂.item.kind = s.item.kind := hstep₂.kind_eq.trans hstep₁.kind_eq
      obtain ⟨s₃, held₃, report, hstep₃, hrun, hnames⟩ := ih (hstep₂.sound hs₁) fun e he => by
        rw [hkind₂]
        exact hentries e (List.mem_cons_of_mem _ he)
      have hlists₂ : (fun w => (Function.update held₁ value h w).tuples) =
          Function.update (fun w => (held w).tuples) value ts := by
        rw [tuples_update, hlists₁, hts]
      rw [hkind₂, hlists₂] at hrun hnames
      refine ⟨s₃, held₃, report.prepend value access, hstep₁.trans (hstep₂.trans hstep₃), ?_,
        hnames.prepend (fun w => (hres₂ w).trans (hres₁ w)) haccess⟩
      rw [Act.bind_ok happend]
      dsimp only
      split
      · rename_i lists hall
        rw [hall] at hrun
        exact ⟨Act.bind_ok hrun.1, hrun.2⟩
      · rename_i e lists hall
        rw [hall] at hrun
        exact ⟨Act.bind_error hrun.1, hrun.2⟩

/-! ## Leaving memory -/

/-- The set after the list of a value was written out, with the slot pages that it needed. -/
def withoutList (set : IndexSet) (value : ValueId) (m : Std.HashMap Nat PageId) : IndexSet :=
  { (set.withSlotPages m).setEntry value .discarded with discarded := set.discarded + 1 }

/-- A list that is not in memory is left alone, and nothing changes. -/
theorem discard_absent (h : s.item.isResident value = false) : discard value s = .ok false s := by
  have hcurrent : (Over.current : Act (Over IndexSet) IndexSet) s = .ok s.item s := rfl
  unfold discard
  rw [Act.bind_ok hcurrent]
  rcases hget : s.item.entries[value]? with _ | ⟨store, uses⟩ | _
  · rfl
  · rw [isResident_iff.mpr ⟨_, _, hget⟩] at h
    cases h
  · rfl

/-- A list in memory goes to fresh pages, and its descriptor to its slot. -/
theorem discard_present (hs : Sound s held rest) {store : Store} {uses : Nat}
    (hget : s.item.entries[value]? = some (.resident store uses)) :
    ∃ x scratch m f, discard value s = .ok true ⟨s.item.withoutList value m, f⟩ ∧ f.Sound ∧
      s.pages.disk.Exchange f.disk (store.sealedPages ++ s.item.slotPageList)
        (store.sealedPages ++ scratch ++ (s.item.withSlotPages m).slotPageList) ∧
      s.pages.disk.Keeps f.disk store.sealedPages ∧
      (s.item.withSlotPages m).SlotsLieOn f.disk ∧ (s.item.withSlotPages m).HasSlot f.disk value x ∧
      (∀ w y, w ≠ value → s.item.HasSlot s.pages.disk w y →
        (s.item.withSlotPages m).HasSlot f.disk w y) ∧
      (f.disk.pageCount ≤ maxPages → store.SavedAs f.disk x scratch) := by
  have hcurrent : (Over.current : Act (Over IndexSet) IndexSet) s = .ok s.item s := rfl
  obtain ⟨-, -, hlies⟩ := hs.held_resident hget
  have hown := hs.owned_resident hget
  -- the list is saved first, and then its slot is written
  obtain ⟨x, scratch, f₁, hsave, hf₁, hx₁, hsaved⟩ := Store.save_spec hs.file hown hlies
  have hkeep₁ := hx₁.kept _ hown
  have hslotKeep : s.pages.disk.Keeps f₁.disk s.item.slotPageList :=
    hkeep₁.mono fun p hp => by simp [hp]
  have hown₁ : f₁.disk.Owned (s.item.slotPageList ++ (store.sealedPages ++ scratch ++
      (s.item.pagesOfOthers held value ++ rest))) := by
    refine (hx₁.owned (store.sealedPages ++
      (s.item.slotPageList ++ s.item.pagesOfOthers held value ++ rest)) hown).perm ?_
    exact List.perm_iff_count.mpr fun p => by simp only [List.count_append]; omega
  obtain ⟨m, f₂, hwrite, hf₂, hx₂, hslots₂, hslot₂, hothers⟩ :=
    writeSlot_spec (s := ⟨s.item, f₁⟩) value x hf₁ hown₁
      (hs.lies.slots.keep hx₁.capacity_eq hslotKeep)
  have hkeep₂ := hx₂.kept _ hown₁
  refine ⟨x, scratch, m, f₂, ?_, hf₂, ?_, ?_, hslots₂, hslot₂, fun w y hw hy => ?_, fun hroom => ?_⟩
  · unfold discard
    rw [Act.bind_ok hcurrent, hget]
    dsimp only
    rw [Act.bind_ok (Over.onPages_ok (c := s.item) hsave), Act.bind_ok hwrite]
    rfl
  · have hframe₁ := hx₁.frame (store.sealedPages ++ s.item.slotPageList)
    have hframe₂ := hx₂.frame (store.sealedPages ++ scratch)
    rw [List.nil_append] at hframe₁
    refine hframe₁.trans (hframe₂.perm ?_ List.perm_append_comm)
    exact List.perm_iff_count.mpr fun p => by simp only [List.count_append]; omega
  · exact (hkeep₁.mono (List.subset_append_left _ _)).trans (hkeep₂.mono fun p hp => by simp [hp])
  · exact hothers w y hw (hy.keep hx₁.capacity_eq hslotKeep)
  · have hroom₁ := Nat.le_trans hx₂.pageCount_le hroom
    exact (hsaved hroom₁).keep (hkeep₂.mono fun p hp => by simp [hp])

/-- A list in memory is written out; one that is not is left alone. No tuple changes. -/
theorem discard_spec (hs : Sound s held rest)
    (hroom : (Act.after (discard value) s).pages.disk.pageCount ≤ maxPages) :
    ∃ s' held', discard value s = .ok (s.item.isResident value) s' ∧ Step s s' held held' ∧
      (∀ w, (held' w).tuples = (held w).tuples) ∧
      ∀ w, s'.item.isResident w = (s.item.isResident w && w != value) := by
  cases hresident : s.item.isResident value with
  | false =>
    refine ⟨s, held, discard_absent hresident, hs.step_refl, fun _ => rfl, fun w => ?_⟩
    by_cases hw : w = value
    · simp [hw, hresident]
    · simp [hw]
  | true =>
    obtain ⟨store, uses, hget⟩ := isResident_iff.mp hresident
    obtain ⟨hheld, hkind, hlies⟩ := hs.held_resident hget
    obtain ⟨x, scratch, m, f, hrun, hf, hx, hsealed, hslots, hslot, hothers, hsaved⟩ :=
      discard_present hs hget
    have hdiscarded : (s.item.withoutList value m).entries[value]? = some .discarded :=
      Std.HashMap.getElem?_insert_self
    rw [Act.after_ok hrun] at hroom
    refine ⟨⟨s.item.withoutList value m, f⟩,
      Function.update held value ⟨store, (held value).chunks, scratch⟩, hrun, ?_,
      tuples_update_same (by rw [hheld]; rfl), isResident_discarded rfl⟩
    · -- the list has pages for its tail and its directory now, besides the sealed ones
      refine Step.of_insert hs hf rfl (hs.pages_resident hget ▸ hx) ?_ hslots hothers ?_ rfl
      · rw [hheld]
        exact .of_scratch _ _ _ _
      · refine ⟨hkind, hlies.keep hx.capacity_eq hsealed, fun h => ?_, fun store' uses' h => ?_,
          fun _ => ⟨x, hslot, hsaved hroom⟩⟩
        · rw [hdiscarded] at h
          cases h
        · rw [hdiscarded] at h
          cases h

end IndexSet

end EventIndex
