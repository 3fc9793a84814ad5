import Mathlib.Data.List.Perm.Basic
import EventIndex.Proofs.Cursor.Walks
import EventIndex.Proofs.Growth
import EventIndex.Proofs.Index.ArchiveCalls

/-! # Stores that share a page file

Stores need no index. A `Bench` has any number of stores over one page file, each of them in memory or
written out, and `Deed`s are what happens to it: a store gets another tuple, seals its tail, is written
out or taken back. What one store gives up another one may get, so all pages are accounted for
(`Bench.Sound`), and a deed is an exchange of the pages of one store with the others as bystanders
(`Bench.change_spec`). Each store has the tuples it has accepted (`Bench.run_accepted_spec`), written out and
taken back or not.

No deed gives a sealed page up. A snapshot of one of the stores therefore answers for good what it
answers when it is taken (`Bench.isolated`).
-/

namespace EventIndex

/-! ## Benches -/

/-- A store, in memory or written out. -/
inductive Kept where
  | inMemory (store : Store)
  | saved (kind : Kind) (descriptor : Descriptor)
deriving Repr

/-- What can be done to a store. -/
inductive Change where
  | append (key : UInt64) (role : Option Role)
  | sealTail
  | save
  | load
deriving Repr

/-- Stores over one page file. -/
structure Bench where
  pages : PageFile
  stores : List Kept

/-- One thing that can happen to the stores of a bench. -/
inductive Deed where
  /-- A store without tuples comes to the bench. -/
  | create (kind : Kind)
  | change (number : Nat) (change : Change)
  /-- Somebody reads a page. -/
  | readPage (page : PageId)
deriving Repr

/-- Does something to a store. A store that is written out has to be taken back first, and only then. -/
def Kept.act : Change → Kept → Act PageFile Kept
  | .append key role, .inMemory s => return .inMemory (← s.append (s.kind.tuple key role))
  | .sealTail, .inMemory s => return .inMemory (← s.sealTail)
  | .save, .inMemory s => return .saved s.kind (← s.save)
  | .load, .saved kind descriptor => return .inMemory (← Store.load kind descriptor)
  | _, kept => return kept

/-- The tuple that a store takes up by what is done to it, if any: that of an append which does not fail. -/
def Kept.taken : Change → Kept → PageFile → List Tuple
  | .append key role, .inMemory s, pages =>
    match s.append (s.kind.tuple key role) pages with
    | .ok _ _ => [s.kind.tuple key role]
    | .error _ _ => []
  | _, _, _ => []

/-- Whether a deed writes a store out. -/
def Deed.Saves : Deed → Prop
  | .change _ .save => True
  | _ => False

namespace Bench

/-- Does something to a page file and to one store of a bench, if there is the store. A store to which it
cannot be done stays as it is. -/
def onStore (number : Nat) (act : Kept → Act PageFile Kept) : Act Bench Unit := fun b =>
  match b.stores[number]? with
  | none => .ok () b
  | some kept =>
    match act kept b.pages with
    | .ok kept pages => .ok () ⟨pages, b.stores.set number kept⟩
    | .error e pages => .error e ⟨pages, b.stores⟩

/-- A bench without stores. -/
def start (pages : PageFile) : Bench := ⟨pages, []⟩

/-- The bench after a deed, whether it failed or not. -/
def next (b : Bench) : Deed → Bench
  | .create kind => ⟨b.pages, b.stores ++ [.inMemory (.empty kind)]⟩
  | .change number change => Act.after (onStore number (Kept.act change)) b
  | .readPage page => ⟨Act.after (PageFile.read page) b.pages, b.stores⟩

/-- The bench after some deeds. -/
def run (b : Bench) (deeds : List Deed) : Bench := deeds.foldl next b

/-- The tuples that a store takes up by a deed. -/
def taken (b : Bench) (number : Nat) : Deed → List Tuple
  | .change n change =>
    if n = number then b.stores[n]?.elim [] fun kept => kept.taken change b.pages else []
  | _ => []

/-- The tuples that a store takes up by some deeds, in order. -/
def accepted (b : Bench) (number : Nat) : List Deed → List Tuple
  | [] => []
  | deed :: deeds => b.taken number deed ++ (b.next deed).accepted number deeds

/-- The page files that a bench may come to have. -/
def laterPages (b : Bench) (pages : PageFile) : Prop :=
  ∃ deeds, (b.run deeds).pages.pageCount ≤ maxPages ∧ pages = (b.run deeds).pages

end Bench

/-! ## One store -/

/-- What a store holds, wherever it is. -/
inductive Kept.Holds (d : Disk) : Kept → Holding → Prop
  | inMemory {s : Store} {chunks : List (List Tuple)} (h : s.LiesOn d chunks) :
      Holds d (.inMemory s) ⟨s, chunks, []⟩
  | saved {s : Store} {chunks : List (List Tuple)} {scratch : List Nat} {x : Descriptor}
      (h : s.LiesOn d chunks) (hx : s.SavedAs d x scratch) :
      Holds d (.saved s.kind x) ⟨s, chunks, scratch⟩

/-- An action on the page file brings a store to another state and adds some tuples to it, or a key is
refused and nothing happens. -/
def Kept.Brings (x : Act PageFile Kept) (f : PageFile) (h : Holding) (added : List Tuple) : Prop :=
  (∃ kept f' h', x f = .ok kept f' ∧ f'.Sound ∧ f.disk.Exchange f'.disk h.pages h'.pages ∧
    kept.Holds f'.disk h' ∧ h.Extends h' ∧ h'.tuples = h.tuples ++ added) ∨
  ∃ key last, x f = .error (.outOfOrder key last) f ∧ added = []

namespace Kept

variable {d d' : Disk} {kept : Kept} {h : Holding} {f : PageFile} {s : Store}
  {chunks : List (List Tuple)} {rest scratch : List Nat}

/-- What a store holds depends on its own pages alone. -/
theorem Holds.keep (hk : kept.Holds d h) (hcap : d'.capacity = d.capacity)
    (hkeep : d.Keeps d' h.pages) : kept.Holds d' h := by
  cases hk with
  | inMemory h => exact .inMemory (h.keep hcap (hkeep.mono (List.subset_append_left _ _)))
  | saved h hx =>
    exact .saved (h.keep hcap (hkeep.mono (List.subset_append_left _ _)))
      (hx.keep (hkeep.mono (List.subset_append_right _ _)))

/-- The sealed pages of a store lie on the disk, whether the rest of it is in memory or written out. -/
theorem Holds.lies (hk : kept.Holds d h) : h.store.LiesOn d h.chunks := by
  cases hk with
  | inMemory h => exact h
  | saved h hx => exact h

/-- Pages that a store gets come behind those it has. -/
theorem exchange_behind {new : List Nat} (hx : d.Exchange d' [] new) (pages : List Nat) :
    d.Exchange d' pages (pages ++ new) :=
  (hx.frame pages).perm (.refl _) List.perm_append_comm

/-- A tuple that comes in order is put behind the others, on a fresh page if the tail is full. One that
comes out of order is refused, and nothing happens. -/
theorem brings_append (hf : f.Sound) (hown : f.disk.Owned (s.sealedPages ++ rest))
    (hs : s.LiesOn f.disk chunks) (key : UInt64) (role : Option Role) :
    Brings (act (.append key role) (.inMemory s)) f ⟨s, chunks, []⟩
      (taken (.append key role) (.inMemory s) f) := by
  have hspec := Store.append_spec hf hown hs (Kind.holds_tuple s.kind key role)
  cases hext : s.kind.extend (s.tuples chunks) (s.kind.tuple key role) with
  | ok ts =>
    rw [hext] at hspec
    obtain ⟨s', f', chunks', new, hrun, hf', hx, hs', hkind, htuples, hpages, hdirectory, hchunks⟩ :=
      hspec
    refine .inl ⟨.inMemory s', f', ⟨s', chunks', []⟩, Act.bind_ok hrun, hf', ?_, .inMemory hs',
      ⟨hkind, hdirectory, hchunks⟩, ?_⟩
    · simp only [Holding.pages, List.append_nil, hpages]
      exact exchange_behind hx s.sealedPages
    · simp only [taken, hrun]
      exact htuples.trans (Kind.eq_append_of_extend hext)
  | error e =>
    obtain ⟨last, rfl⟩ := Kind.error_of_extend hext
    rw [hext] at hspec
    refine .inr ⟨_, last, Act.bind_error hspec, ?_⟩
    simp only [taken, hspec]

/-- A tail is sealed on a fresh page, with the tuples that the store has. -/
theorem brings_seal (hf : f.Sound) (hown : f.disk.Owned (s.sealedPages ++ rest))
    (hs : s.LiesOn f.disk chunks) : Brings (act .sealTail (.inMemory s)) f ⟨s, chunks, []⟩ [] := by
  rcases Nat.eq_zero_or_pos s.tail.size with hempty | hpos
  · -- there is nothing to seal
    have hrun : s.sealTail f = .ok s f := by
      have htail : s.tail = #[] := Array.eq_empty_of_size_eq_zero hempty
      unfold Store.sealTail
      rw [htail]
      rfl
    exact .inl ⟨.inMemory s, f, _, Act.bind_ok hrun, hf, .refl _ _, .inMemory hs, .refl _,
      (List.append_nil _).symm⟩
  · obtain ⟨page, s', f', hrun, hf', hx, hs', hkind, htuples, hpages, hdirectory⟩ :=
      Store.sealTail_spec hf hown hs.view hs.fits hpos (Nat.le_of_lt hs.tail_lt) hs.lastKey
    refine .inl ⟨.inMemory s', f', ⟨s', _, []⟩, Act.bind_ok hrun, hf', ?_, .inMemory hs',
      ⟨hkind, hdirectory, List.prefix_append _ _⟩, htuples.trans (List.append_nil _).symm⟩
    simp only [Holding.pages, List.append_nil, hpages]
    exact exchange_behind hx s.sealedPages

/-- A store that is written out has its tail and its directory on fresh pages. -/
theorem brings_save (hf : f.Sound) (hown : f.disk.Owned (s.sealedPages ++ rest))
    (hs : s.LiesOn f.disk chunks)
    (hroom : (Act.after (act .save (.inMemory s)) f).pageCount ≤ maxPages) :
    Brings (act .save (.inMemory s)) f ⟨s, chunks, []⟩ [] := by
  obtain ⟨x, scratch, f', hrun, hf', hx, hsaved⟩ := Store.save_spec hf hown hs
  have hact : act .save (.inMemory s) f = .ok (.saved s.kind x) f' := Act.bind_ok hrun
  rw [Act.after_ok hact] at hroom
  refine .inl ⟨_, f', ⟨s, chunks, scratch⟩, hact, hf', ?_, .saved ?_ (hsaved hroom),
    .of_scratch s chunks [] scratch, (List.append_nil _).symm⟩
  · simp only [Holding.pages, List.append_nil]
    exact exchange_behind hx s.sealedPages
  · exact hs.keep hx.capacity_eq ((hx.kept _ hown).mono (List.subset_append_left _ _))

/-- A store that is taken back gives up the pages of its tail and its directory, and no others. -/
theorem brings_load {x : Descriptor} (hf : f.Sound)
    (hown : f.disk.Owned (s.sealedPages ++ scratch ++ rest)) (hs : s.LiesOn f.disk chunks)
    (hx : s.SavedAs f.disk x scratch) :
    Brings (act .load (.saved s.kind x)) f ⟨s, chunks, scratch⟩ [] := by
  have hown' : f.disk.Owned (scratch ++ (s.sealedPages ++ rest)) := by
    refine hown.perm ?_
    rw [← List.append_assoc]
    exact List.perm_append_comm.append_right rest
  obtain ⟨f', hrun, hf', hexchange, hpages⟩ := Store.load_spec hf hown' hs hx
  refine .inl ⟨.inMemory s, f', ⟨s, chunks, []⟩, Act.bind_ok hrun, hf', ?_, .inMemory ?_,
    .of_scratch s chunks scratch [], (List.append_nil _).symm⟩
  · simp only [Holding.pages, List.append_nil]
    exact (hexchange.frame s.sealedPages).perm List.perm_append_comm (.refl _)
  · exact hs.keep hexchange.capacity_eq fun p _ payload hp => hpages ▸ hp

/-- What cannot be done to a store in its state is not done. -/
theorem brings_pure (hf : f.Sound) (hk : kept.Holds f.disk h) : Brings (pure kept) f h [] :=
  .inl ⟨kept, f, h, rfl, hf, .refl _ _, hk, .refl h, (List.append_nil _).symm⟩

/-- Whatever is done to a store. -/
theorem Holds.brings (hk : kept.Holds f.disk h) (hf : f.Sound)
    (hown : f.disk.Owned (h.pages ++ rest)) (change : Change)
    (hroom : change = .save → (Act.after (act change kept) f).pageCount ≤ maxPages) :
    Brings (act change kept) f h (taken change kept f) := by
  have hk' := hk
  cases hk with
  | inMemory hs =>
    rw [Holding.pages, List.append_nil] at hown
    cases change with
    | append key role => exact brings_append hf hown hs key role
    | sealTail => exact brings_seal hf hown hs
    | save => exact brings_save hf hown hs (hroom rfl)
    | load => exact brings_pure hf hk'
  | saved hs hx =>
    cases change with
    | load => exact brings_load hf hown hs hx
    | _ => exact brings_pure hf hk'

/-- Nothing that is done to a store takes pages out of the file. -/
theorem grows_act (change : Change) (kept : Kept) : Act.Grows PageFile.pageCount (act change kept) := by
  cases kept with
  | inMemory s =>
    cases change with
    | append key role => exact (s.grows_append _).bind fun _ => .pure _
    | sealTail => exact s.grows_sealTail.bind fun _ => .pure _
    | save => exact s.grows_save.bind fun _ => .pure _
    | load => exact .pure _
  | saved kind x =>
    cases change with
    | load => exact (Store.grows_load kind x).bind fun _ => .pure _
    | _ => exact .pure _

end Kept

/-! ## All stores -/

namespace Bench

variable {b : Bench} {held held' held'' : List Holding} {v : Snapshot}

/-- Each store lies on the disk of the page file, and every page is free or of one store. -/
structure Sound (b : Bench) (held : List Holding) : Prop where
  file : b.pages.Sound
  length_eq : held.length = b.stores.length
  holds : ∀ (i : Nat) (kept : Kept) (h : Holding), b.stores[i]? = some kept → held[i]? = some h →
    kept.Holds b.pages.disk h
  owned : b.pages.disk.Owned (held.flatMap Holding.pages)

/-- From one state to a later one, stores may have sealed pages and other stores may have come. -/
def Later (held held' : List Holding) : Prop :=
  ∀ (i : Nat) (h : Holding), held[i]? = some h → ∃ h', held'[i]? = some h' ∧ h.Extends h'

/-- The tuples of a store, of which there are none if there is no such store. -/
def tuplesAt (held : List Holding) (number : Nat) : List Tuple :=
  held[number]?.elim [] Holding.tuples

/-- Another state of one store is seen at its own number. -/
theorem tuplesAt_set {i : Nat} {h : Holding} (hlt : i < held.length) (number : Nat) :
    tuplesAt (held.set i h) number = if i = number then h.tuples else tuplesAt held number := by
  rw [tuplesAt, List.getElem?_set]
  split <;> rfl

/-- A store without tuples is not seen. -/
theorem tuplesAt_create (held : List Holding) (kind : Kind) (number : Nat) :
    tuplesAt (held ++ [.empty kind]) number = tuplesAt held number := by
  rw [tuplesAt, tuplesAt, List.getElem?_append]
  split
  · rfl
  · rename_i hge
    rw [List.getElem?_eq_none (Nat.le_of_not_lt hge)]
    -- the store that comes has no tuples yet
    cases number - held.length <;> rfl

theorem Later.refl (held : List Holding) : Later held held := fun _ h hget => ⟨h, hget, .refl h⟩

/-- What is later than something later is later. -/
theorem Later.trans (h₁ : Later held held') (h₂ : Later held' held'') :
    Later held held'' := fun i h hget =>
  let ⟨h', hget', hext⟩ := h₁ i h hget
  let ⟨h'', hget'', hext'⟩ := h₂ i h' hget'
  ⟨h'', hget'', hext.trans hext'⟩

/-- A bench begins with no stores over a file of no pages. -/
theorem sound_start {pages : PageFile} (hf : pages.Sound) (hcount : pages.disk.pageCount = 1)
    (hfree : pages.disk.free = []) : (start pages).Sound [] where
  file := hf
  length_eq := rfl
  holds _ _ _ hget := by cases hget
  owned := Disk.owned_nil hcount hfree

/-- The pages of a store, and those of all others. -/
theorem Sound.ownedApart (hs : b.Sound held) {i : Nat} {h : Holding} (hget : held[i]? = some h) :
    b.pages.disk.Owned (h.pages ++ (held.eraseIdx i).flatMap Holding.pages) := by
  obtain ⟨hlt, rfl⟩ := List.getElem?_eq_some_iff.mp hget
  exact hs.owned.perm ((List.getElem_cons_eraseIdx_perm hlt).symm.flatMap_right Holding.pages)

/-- One store comes to another state. Its pages are exchanged, and the others do not notice. -/
theorem Sound.set (hs : b.Sound held) {i : Nat} {kept : Kept} {h h' : Holding} {f' : PageFile}
    (hget : held[i]? = some h) (hf' : f'.Sound)
    (hx : b.pages.disk.Exchange f'.disk h.pages h'.pages) (hk : kept.Holds f'.disk h')
    (hext : h.Extends h') :
    Sound ⟨f', b.stores.set i kept⟩ (held.set i h') ∧ Later held (held.set i h') := by
  have hown := hs.ownedApart hget
  obtain ⟨hlt, rfl⟩ := List.getElem?_eq_some_iff.mp hget
  have hafter : ((held.set i h').flatMap Holding.pages).Perm
      (h'.pages ++ (held.eraseIdx i).flatMap Holding.pages) :=
    (List.set_perm_cons_eraseIdx hlt h').flatMap_right Holding.pages
  have hkeeps : b.pages.disk.Keeps f'.disk ((held.eraseIdx i).flatMap Holding.pages) := hx.keeps hown
  refine ⟨⟨hf', by simp [hs.length_eq], fun j kept' g hkept' hg => ?_, ?_⟩, fun j g hg => ?_⟩
  · by_cases hj : i = j
    · -- the store itself
      subst hj
      rw [List.getElem?_set_self hlt, Option.some.injEq] at hg
      rw [List.getElem?_set_self (hs.length_eq ▸ hlt), Option.some.injEq] at hkept'
      exact hkept' ▸ hg ▸ hk
    · rw [List.getElem?_set_ne hj] at hg hkept'
      have hmem : g ∈ held.eraseIdx i := List.mem_eraseIdx_iff_getElem?.mpr ⟨j, Ne.symm hj, hg⟩
      exact (hs.holds j kept' g hkept' hg).keep hx.capacity_eq
        (hkeeps.mono fun p hp => List.mem_flatMap.mpr ⟨g, hmem, hp⟩)
  · exact (hx.owned _ hown).perm hafter.symm
  · by_cases hj : i = j
    · subst hj
      rw [List.getElem?_eq_getElem hlt, Option.some.injEq] at hg
      exact ⟨h', List.getElem?_set_self hlt, hg ▸ hext⟩
    · exact ⟨g, (List.getElem?_set_ne hj).trans hg, .refl g⟩

/-- A new store has no pages, so that the others have the file as before. -/
theorem Sound.create (hs : b.Sound held) (kind : Kind) :
    (b.next (.create kind)).Sound (held ++ [.empty kind]) ∧ Later held (held ++ [.empty kind]) := by
  refine ⟨⟨hs.file, by simp [next, hs.length_eq], fun i kept h hkept hget => ?_, ?_⟩,
    fun i h hget => ⟨h, ?_, .refl h⟩⟩
  · have hkept' : (b.stores ++ [.inMemory (.empty kind)])[i]? = some kept := hkept
    -- the lists from before stay in their places, and the new one is empty
    by_cases hi : i < b.stores.length
    · rw [List.getElem?_append_left hi] at hkept'
      rw [List.getElem?_append_left (hs.length_eq ▸ hi)] at hget
      exact hs.holds i kept h hkept' hget
    · rw [List.getElem?_append_right (Nat.le_of_not_lt hi)] at hkept'
      rw [List.getElem?_append_right (hs.length_eq ▸ Nat.le_of_not_lt hi), hs.length_eq] at hget
      obtain ⟨hindex, rfl⟩ := List.getElem?_eq_some_iff.mp hkept'
      obtain ⟨-, rfl⟩ := List.getElem?_eq_some_iff.mp hget
      simp only [List.getElem_singleton]
      exact .inMemory (Store.liesOn_empty _ kind)
  · rw [List.flatMap_append]
    have hempty : [Holding.empty kind].flatMap Holding.pages = [] := rfl
    rw [hempty, List.append_nil]
    exact hs.owned
  · rw [List.getElem?_append_left (List.getElem?_eq_some_iff.mp hget).1]
    exact hget

/-- Whatever is done to one of the stores. -/
theorem Sound.brings (hs : b.Sound held) {number : Nat} {kept : Kept}
    (hkept : b.stores[number]? = some kept) (change : Change)
    (hroom : change = .save → (b.next (.change number change)).pages.pageCount ≤ maxPages) :
    ∃ h, held[number]? = some h ∧
      Kept.Brings (Kept.act change kept) b.pages h (kept.taken change b.pages) := by
  have hlt : number < held.length := hs.length_eq ▸ (List.getElem?_eq_some_iff.mp hkept).1
  have hget : held[number]? = some held[number] := List.getElem?_eq_getElem hlt
  have hroom' : change = .save → (Act.after (Kept.act change kept) b.pages).pageCount ≤ maxPages := by
    refine fun hsave => Nat.le_trans (Nat.le_of_eq ?_) (hroom hsave)
    cases hact : Kept.act change kept b.pages <;>
      simp only [Act.after, next, onStore, hkept, hact]
  exact ⟨_, hget,
    (hs.holds number kept _ hkept hget).brings hs.file (hs.ownedApart hget) change hroom'⟩

/-- Whatever is done to a store, it has the tuples it took up behind those it had, and the others have
theirs. -/
theorem change_spec (hs : b.Sound held) (number : Nat) (change : Change)
    (hroom : change = .save → (b.next (.change number change)).pages.pageCount ≤ maxPages) :
    ∃ held', (b.next (.change number change)).Sound held' ∧ Later held held' ∧
      ∀ i, tuplesAt held' i = tuplesAt held i ++ b.taken i (.change number change) := by
  cases hkept : b.stores[number]? with
  | none =>
    -- there is no such list
    have hrun : onStore number (Kept.act change) b = .ok () b := by simp only [onStore, hkept]
    rw [next, Act.after_ok hrun]
    refine ⟨held, hs, .refl held, fun i => ?_⟩
    simp only [taken, hkept, Option.elim_none, ite_self, List.append_nil]
  | some kept =>
    obtain ⟨h, hget, hbrings⟩ := hs.brings hkept change hroom
    have hlt : number < held.length := (List.getElem?_eq_some_iff.mp hget).1
    rcases hbrings with
      ⟨kept', f', h', hact, hf', hx, hk', hext, htuples⟩ | ⟨key, last, hact, hnone⟩
    · -- the list changes, and the others are a frame
      have hrun : onStore number (Kept.act change) b = .ok () ⟨f', b.stores.set number kept'⟩ := by
        simp only [onStore, hkept, hact]
      rw [next, Act.after_ok hrun]
      obtain ⟨hs', hlater⟩ := hs.set hget hf' hx hk' hext
      refine ⟨_, hs', hlater, fun i => ?_⟩
      simp only [tuplesAt_set hlt, taken, hkept, Option.elim_some]
      split
      · rename_i hi
        rw [← hi, tuplesAt, hget, Option.elim_some, htuples]
      · rw [List.append_nil]
    · -- a refused key changes nothing
      have hrun : onStore number (Kept.act change) b = .error (.outOfOrder key last) b := by
        simp only [onStore, hkept, hact]
      rw [next, Act.after_error hrun]
      refine ⟨held, hs, .refl held, fun i => ?_⟩
      simp only [taken, hkept, Option.elim_some, hnone, ite_self, List.append_nil]

/-- A deed, as a step of all stores. Only what is written out needs room for its page numbers. -/
theorem next_spec (hs : b.Sound held) (deed : Deed)
    (hroom : deed.Saves → (b.next deed).pages.pageCount ≤ maxPages) :
    ∃ held', (b.next deed).Sound held' ∧ Later held held' ∧
      ∀ i, tuplesAt held' i = tuplesAt held i ++ b.taken i deed := by
  cases deed with
  | create kind =>
    obtain ⟨hs', hlater⟩ := hs.create kind
    refine ⟨_, hs', hlater, fun i => ?_⟩
    rw [tuplesAt_create]
    exact (List.append_nil _).symm
  | change number change =>
    refine change_spec hs number change ?_
    rintro rfl
    exact hroom trivial
  | readPage page =>
    obtain ⟨hfile, hdisk⟩ := PageFile.after_read hs.file page
    refine ⟨held, ⟨hfile, hs.length_eq, fun i kept h hkept hget => ?_, ?_⟩, .refl held,
      fun i => (List.append_nil _).symm⟩
    · exact (hdisk.symm ▸ hs.holds i kept h hkept hget :)
    · exact (hdisk.symm ▸ hs.owned :)

/-- No deed takes pages out of the file. -/
theorem pageCount_le_next (b : Bench) (deed : Deed) :
    b.pages.pageCount ≤ (b.next deed).pages.pageCount := by
  cases deed with
  | create kind => exact Nat.le_refl _
  | change number change =>
    rw [next]
    cases hkept : b.stores[number]? with
    | none => simp only [Act.after, onStore, hkept, Nat.le_refl]
    | some kept =>
      have hgrows := Kept.grows_act change kept b.pages
      cases hact : Kept.act change kept b.pages <;>
        simpa only [Act.after, onStore, hkept, hact] using hgrows
  | readPage page => exact PageFile.grows_read page b.pages

theorem pageCount_le_run (b : Bench) (deeds : List Deed) :
    b.pages.pageCount ≤ (b.run deeds).pages.pageCount := by
  induction deeds generalizing b with
  | nil => exact Nat.le_refl _
  | cons deed deeds ih => exact Nat.le_trans (b.pageCount_le_next deed) (ih _)

/-- Any deeds, as steps of all stores. Each has the tuples that it took up. -/
theorem run_accepted_spec (hs : b.Sound held) (deeds : List Deed)
    (hroom : (∃ deed ∈ deeds, deed.Saves) → (b.run deeds).pages.pageCount ≤ maxPages) :
    ∃ held', (b.run deeds).Sound held' ∧ Later held held' ∧
      ∀ i, tuplesAt held' i = tuplesAt held i ++ b.accepted i deeds := by
  induction deeds generalizing b held with
  | nil => exact ⟨held, hs, .refl held, fun i => (List.append_nil _).symm⟩
  | cons deed deeds ih =>
    have hfirst : deed.Saves → (b.next deed).pages.pageCount ≤ maxPages := by
      intro hsaves
      exact Nat.le_trans (pageCount_le_run _ deeds) (hroom ⟨deed, List.mem_cons_self, hsaves⟩)
    obtain ⟨held₁, hs₁, hlater₁, htuples₁⟩ := next_spec hs deed hfirst
    obtain ⟨held₂, hs₂, hlater₂, htuples₂⟩ := ih hs₁ fun ⟨other, hmem, hsaves⟩ =>
      hroom ⟨other, List.mem_cons_of_mem _ hmem, hsaves⟩
    refine ⟨held₂, hs₂, hlater₁.trans hlater₂, fun i => ?_⟩
    rw [htuples₂, htuples₁, accepted, List.append_assoc]

/-- After any deeds each store is later than it was. -/
theorem run_spec (hs : b.Sound held) (deeds : List Deed)
    (hroom : (b.run deeds).pages.pageCount ≤ maxPages) :
    ∃ held', (b.run deeds).Sound held' ∧ Later held held' := by
  obtain ⟨held', hs', hlater, -⟩ := run_accepted_spec hs deeds fun _ => hroom
  exact ⟨held', hs', hlater⟩

/-! ## Snapshots of stores -/

/-- The disks on which a snapshot of one of the stores lies. -/
theorem Sound.liesOn (hs : b.Sound held) {i : Nat} {h : Holding} {chunks : List (List Tuple)}
    (hget : held[i]? = some h) (hv : v.Within h chunks) : v.LiesOn b.pages.disk chunks := by
  have hlt : i < b.stores.length := hs.length_eq ▸ (List.getElem?_eq_some_iff.mp hget).1
  exact hv.liesOn (hs.holds i _ h (List.getElem?_eq_getElem hlt) hget).lies

/-- A store in memory holds what lies on its pages and in its tail. -/
theorem Sound.inMemory (hs : b.Sound held) {i : Nat} {s : Store}
    (hstore : b.stores[i]? = some (.inMemory s)) :
    ∃ chunks, held[i]? = some ⟨s, chunks, []⟩ ∧ s.LiesOn b.pages.disk chunks := by
  have hlt : i < held.length := hs.length_eq ▸ (List.getElem?_eq_some_iff.mp hstore).1
  have hget : held[i]? = some held[i] := List.getElem?_eq_getElem hlt
  have hholds := hs.holds i _ held[i] hstore hget
  generalize held[i] = h at hget hholds
  generalize hkept : Kept.inMemory s = kept at hholds
  cases hholds with
  | @inMemory _ chunks hlies =>
    cases hkept
    exact ⟨chunks, hget, hlies⟩
  | saved hlies hx => cases hkept

/-- A snapshot of one of the stores answers for good what it answers now. -/
theorem Sound.isolated (hs : b.Sound held) (hroom : b.pages.pageCount ≤ maxPages) {i : Nat} {s : Store}
    (hstore : b.stores[i]? = some (.inMemory s)) : s.snapshot.Isolated b.pages b.laterPages := by
  obtain ⟨chunks, hget, hstands⟩ := hs.inMemory hstore
  have hwithin : s.snapshot.Within ⟨s, chunks, []⟩ chunks :=
    Snapshot.within_self (h := ⟨s, chunks, []⟩) hstands
  have hlies : s.snapshot.LiesOnAll (fun d => ∃ pages, b.laterPages pages ∧ pages.disk = d)
      chunks := by
    refine ⟨⟨b.pages.disk, b.pages, ⟨[], hroom, rfl⟩, rfl⟩, ?_⟩
    rintro _ ⟨_, ⟨deeds, hroom', rfl⟩, rfl⟩
    obtain ⟨held', hs', hlater⟩ := run_spec hs deeds hroom'
    obtain ⟨h', hget', hext⟩ := hlater i _ hget
    exact hs'.liesOn hget' (hwithin.extends hext)
  refine hlies.isolated ⟨hs.file, b.pages, ⟨[], hroom, rfl⟩, rfl⟩ fun pages hpages => ⟨?_, pages, hpages, rfl⟩
  obtain ⟨deeds, hroom', rfl⟩ := hpages
  obtain ⟨held', hs', -⟩ := run_spec hs deeds hroom'
  exact hs'.file

end Bench

end EventIndex
