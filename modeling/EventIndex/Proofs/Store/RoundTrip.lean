import EventIndex.Proofs.Store.Lookups

/-! # There and back

A store that is written out and taken back is the store that it was. Others may do to the other pages of
the file what they like in between, as long as they leave alone the pages of the store (`Store.Returns`). All
that happens to the file is that the pages that were taken for tail and directory are given back.

This holds of every store that can be come by (`Shared.comes_back`). A `Shared` page file has one store and
others beside it: the store is appended to, written out and taken back, and they get pages, write to them,
read and give them back, all in any order.

Main results:

* `PageOp.act_spec`: what others do to their pages is an exchange of them.
* `Store.LiesOn.returns`: one round trip.
* `Shared.sound_run`: what holds after any turns, so that the trip may begin there.
-/

namespace EventIndex

/-! ## Other pages of the file -/

/-- What is done to a page of the file. -/
inductive PageOp where
  | allocate
  | write (page : PageId) (payload : List UInt8)
  | release (page : PageId)
  | read (page : PageId)
deriving Repr

namespace PageOp

/-- Does it. The answer is the page that was handed out, if any. -/
def act : PageOp → Act PageFile (Option PageId)
  | allocate => return some (← PageFile.allocate)
  | write page payload => do
    PageFile.write page payload
    return none
  | release page => do
    PageFile.release page
    return none
  | read page => do
    let _ ← PageFile.read page
    return none

/-- The page that is written to or given back. -/
def changed : PageOp → Option PageId
  | write page _ | release page => some page
  | allocate | read _ => none

/-- The pages that are left of some afterwards. -/
def left (held : List PageId) : PageOp → List PageId
  | release page => held.erase page
  | allocate | write _ _ | read _ => held

/-- The page file after some operations, whether they failed or not. -/
def runAll (f : PageFile) (ops : List PageOp) : PageFile :=
  ops.foldl (fun f op => Act.after op.act f) f

variable {f : PageFile} {held rest own : List Nat}

/-- Whoever has some pages exchanges them, or nothing happens. -/
theorem act_spec (op : PageOp) (hf : f.Sound) (hown : f.disk.Owned (held ++ rest))
    (hheld : ∀ p ∈ op.changed, p ∈ held) :
    (∃ new f', op.act f = .ok new f' ∧ f'.Sound ∧
      f.disk.Exchange f'.disk held (new.toList ++ op.left held)) ∨
    ∃ e f', op.act f = .error e f' ∧ f'.Sound ∧ f'.disk = f.disk := by
  cases op with
  | allocate =>
    obtain ⟨page, f', hrun, hf', hx, -⟩ := PageFile.allocate_spec hf
    exact .inl ⟨some page, f', Act.bind_ok hrun, hf', hx.frame held⟩
  | write page payload =>
    have hmem : page ∈ held := hheld page rfl
    have hpage : page ≠ noPage := hown.ne_noPage (List.mem_append_left _ hmem)
    by_cases hsize : f.payloadCapacity < payload.length
    · have hrun : PageFile.write page payload f =
          .error (.oversizedPayload payload.length f.payloadCapacity) f := by
        rw [PageFile.write, if_neg hpage, if_pos hsize]
      exact .inr ⟨_, f, Act.bind_error hrun, hf, rfl⟩
    · obtain ⟨f', hrun, hf', -, hx⟩ := PageFile.write_spec hf hpage (Nat.le_of_not_lt hsize)
      -- a page that is written is given up for itself
      have hperm : (page :: held.erase page).Perm held := (List.perm_cons_erase hmem).symm
      exact .inl ⟨none, f', Act.bind_ok hrun, hf', (hx.frame (held.erase page)).perm hperm hperm⟩
  | release page =>
    have hmem : page ∈ held := hheld page rfl
    obtain ⟨f', hrun, hf', hdisk⟩ :=
      PageFile.release_spec hf (hown.ne_noPage (List.mem_append_left _ hmem))
    -- a page that is given back is given up for nothing
    have hx : f.disk.Exchange f'.disk [page] [] := by
      rw [hdisk]
      exact PageFile.exchange_released f.disk [page]
    exact .inl ⟨none, f', Act.bind_ok hrun, hf',
      (hx.frame (held.erase page)).perm (List.perm_cons_erase hmem).symm (.refl _)⟩
  | read page =>
    obtain ⟨hf', hdisk⟩ := PageFile.after_read hf page
    cases hrun : PageFile.read page f with
    | ok payload f' =>
      rw [Act.after_ok hrun] at hf' hdisk
      refine .inl ⟨none, f', Act.bind_ok hrun, hf', ?_⟩
      rw [hdisk]
      exact .refl _ _
    | error e f' =>
      rw [Act.after_error hrun] at hf' hdisk
      exact .inr ⟨e, f', Act.bind_error hrun, hf', hdisk⟩

theorem grows_act (op : PageOp) : Act.Grows PageFile.pageCount op.act := by
  cases op with
  | allocate => exact PageFile.grows_allocate.bind fun _ => .pure _
  | write page payload => exact (PageFile.grows_write page payload).bind fun _ => .pure _
  | release page => exact (PageFile.grows_release page).bind fun _ => .pure _
  | read page => exact (PageFile.grows_read page).bind fun _ => .pure _

/-- Some pages were left alone. -/
structure Spares (own : List Nat) (f f' : PageFile) : Prop where
  file : f'.Sound
  free : noPage ∉ f'.free
  capacity_eq : f'.disk.capacity = f.disk.capacity
  keeps : f.disk.Keeps f'.disk own

theorem Spares.trans {f' f'' : PageFile} (h : Spares own f f') (h' : Spares own f' f'') :
    Spares own f f'' where
  file := h'.file
  free := h'.free
  capacity_eq := h'.capacity_eq.trans h.capacity_eq
  keeps := h.keeps.trans h'.keeps

/-- Pages that are neither written to nor given back are left alone, whoever has the others. -/
theorem after_act (op : PageOp) (hf : f.Sound) (hfree : noPage ∉ f.free)
    (hspares : ∀ p ∈ op.changed, p ∉ own) : Spares own f (Act.after op.act f) := by
  cases op with
  | allocate =>
    obtain ⟨page, f', hrun, hf', -, hfree', hcap, hpages⟩ := PageFile.allocate_ne_noPage hf hfree
    have hact : act .allocate f = .ok (some page) f' := Act.bind_ok hrun
    rw [Act.after_ok hact]
    exact ⟨hf', hfree', hcap, fun p _ payload h => hpages ▸ h⟩
  | write page payload =>
    obtain ⟨hf', hcap, hsame, hkeeps⟩ := PageFile.after_write hf page payload
    have hafter : Act.after (act (.write page payload)) f =
        Act.after (PageFile.write page payload) f := Act.after_bind_pure _ _
    rw [hafter]
    exact ⟨hf', hsame ▸ hfree, hcap, hkeeps own (hspares page rfl)⟩
  | release page =>
    have hafter : Act.after (act (.release page)) f = Act.after (PageFile.release page) f :=
      Act.after_bind_pure _ _
    rw [hafter]
    by_cases hpage : page = noPage
    · -- there is no such page to give back
      have hrun : PageFile.release page f = .ok () f := if_pos hpage
      rw [Act.after_ok hrun]
      exact ⟨hf, hfree, rfl, .refl _ _⟩
    · obtain ⟨f', hrun, hf', hdisk⟩ := PageFile.release_spec hf hpage
      have hlist : f'.free = page :: f.free := congrArg Disk.free hdisk
      rw [Act.after_ok hrun]
      refine ⟨hf', ?_, by rw [hdisk], fun p _ payload h => by rwa [hdisk]⟩
      rw [hlist, List.mem_cons, not_or]
      exact ⟨Ne.symm hpage, hfree⟩
  | read page =>
    obtain ⟨hf', hdisk⟩ := PageFile.after_read hf page
    have hafter : Act.after (act (.read page)) f = Act.after (PageFile.read page) f :=
      Act.after_bind_pure _ _
    have hlist : (Act.after (PageFile.read page) f).free = f.free := congrArg Disk.free hdisk
    rw [hafter]
    exact ⟨hf', hlist ▸ hfree, congrArg Disk.capacity hdisk, fun p _ payload h => by rwa [hdisk]⟩

/-- Pages are left alone by operations that name others. -/
theorem spares_runAll (hf : f.Sound) (hfree : noPage ∉ f.free) {ops : List PageOp}
    (hspares : ∀ op ∈ ops, ∀ p ∈ op.changed, p ∉ own) : Spares own f (runAll f ops) := by
  induction ops generalizing f with
  | nil => exact ⟨hf, hfree, rfl, .refl _ _⟩
  | cons op ops ih =>
    have hfirst := op.after_act hf hfree (hspares op List.mem_cons_self)
    exact hfirst.trans
      (ih hfirst.file hfirst.free fun op' hop' => hspares op' (List.mem_cons_of_mem op hop'))

end PageOp

/-! ## Appending later on -/

namespace Store

variable {s s' : Store} {f f' : PageFile} {t : Tuple}

/-- What becomes of tuples that are offered to a store one after another: an error, or nothing if the tuple is
taken up. -/
def verdicts (s : Store) (f : PageFile) : List Tuple → List (Option StorageError)
  | [] => []
  | t :: ts =>
    match s.append t f with
    | .ok s' f' => none :: s'.verdicts f' ts
    | .error e f' => some e :: s.verdicts f' ts

/-- There is room for one more tuple in the tail, and a page for the tail when it is full. -/
structure Ready (s : Store) (f : PageFile) : Prop where
  file : f.Sound
  free : noPage ∉ f.free
  tail_lt : s.tail.size < f.disk.perPage s.kind

/-- A tail that is not overfull is sealed, whatever its tuples are. -/
theorem sealTail_ready (hf : f.Sound) (hfree : noPage ∉ f.free) (hpos : 0 < s.tail.size)
    (hle : s.tail.size ≤ f.disk.perPage s.kind) :
    ∃ s' f', s.sealTail f = .ok s' f' ∧ s'.Ready f' ∧ s'.kind = s.kind ∧ s'.lastKey = s.lastKey := by
  obtain ⟨page, f₁, halloc, hf₁, hpage, hfree₁, hcap, -⟩ := PageFile.allocate_ne_noPage hf hfree
  have hlen : s.tail.toList.length ≤ f.disk.perPage s.kind := by
    rw [Array.length_toList]
    exact hle
  -- the tail is written in its plain form if packing does not pay, and that fits
  have hfit : (TuplePage.encode s.kind s.tail.toList).length ≤ f₁.disk.capacity := by
    rw [hcap]
    exact Nat.le_trans (TuplePage.length_encodeWith_le _ _ _) (hf.plain_le hlen)
  obtain ⟨f₂, hwrite, hf₂, -, -⟩ := PageFile.write_spec hf₁ hpage hfit
  have hfree₂ : noPage ∉ f₂.free := by
    obtain ⟨-, -, hsame, -⟩ := PageFile.after_write hf₁ page (TuplePage.encode s.kind s.tail.toList)
    rw [Act.after_ok hwrite] at hsame
    rwa [hsame]
  have hfirst : s.tail[0]? = some s.tail[0] := Array.getElem?_eq_getElem hpos
  have hlast : s.tail.back? = some s.tail[s.tail.size - 1] := by
    rw [Array.back?_eq_getElem?]
    exact Array.getElem?_eq_getElem _
  obtain ⟨ref, hrun⟩ : ∃ ref, s.sealTail f = .ok { s with
      directory := s.directory.push ref
      tail := #[]
      sealedLength := s.sealedLength + s.tail.size } f₂ := by
    unfold sealTail
    rw [hfirst, hlast]
    dsimp only
    rw [Act.bind_ok halloc, Act.bind_ok hwrite]
    exact ⟨_, rfl⟩
  exact ⟨_, f₂, hrun, ⟨hf₂, hfree₂, f₂.disk.perPage_pos s.kind⟩, rfl, rfl⟩

/-- A store takes a tuple up and is ready for the next one, or it refuses the tuple. Only the last key and the
kind of the store matter. -/
theorem Ready.append_cases (h : s.Ready f) (t : Tuple) :
    (s.accepts t.key = true ∧ ∃ s' f', s.append t f = .ok s' f' ∧ s'.Ready f' ∧ s'.kind = s.kind ∧
      s'.lastKey = some t.key) ∨
    (s.accepts t.key = false ∧ s.append t f = .error (.outOfOrder t.key (s.lastKey.getD 0)) f) := by
  cases haccepts : s.accepts t.key with
  | false => exact .inr ⟨rfl, append_of_refuses haccepts⟩
  | true =>
    refine .inl ⟨rfl, ?_⟩
    have hsize : (s.push t).tail.size = s.tail.size + 1 := Array.size_push _
    rw [append_of_accepts haccepts]
    split
    · have hle : (s.push t).tail.size ≤ f.disk.perPage s.kind := hsize ▸ h.tail_lt
      obtain ⟨s', f', hseal, hready, hkind, hlast⟩ :=
        sealTail_ready (s := s.push t) h.file h.free (hsize ▸ Nat.succ_pos _) hle
      exact ⟨s', f', hseal, hready, hkind, hlast⟩
    · rename_i hroom
      exact ⟨s.push t, f, rfl, ⟨h.file, h.free, Nat.lt_of_not_le hroom⟩, rfl, rfl⟩

/-- Two stores of one kind and with one last key take up the same tuples, and refuse the others with the same
errors, wherever they are. -/
theorem Ready.verdicts_eq (h : s.Ready f) (h' : s'.Ready f') (hkind : s'.kind = s.kind)
    (hlast : s'.lastKey = s.lastKey) (ts : List Tuple) : s'.verdicts f' ts = s.verdicts f ts := by
  induction ts generalizing s s' f f' with
  | nil => rfl
  | cons t ts ih =>
    have hsame : s'.accepts t.key = s.accepts t.key := by rw [accepts, accepts, hkind, hlast]
    rw [verdicts, verdicts]
    -- both stores compare the next tuple with the same last key, so they agree on it
    rcases h.append_cases t with ⟨hyes, s₁, f₁, hrun, hready, hkind₁, hlast₁⟩ | ⟨hno, hrun⟩
    · rcases h'.append_cases t with ⟨-, s₂, f₂, hrun', hready', hkind₂, hlast₂⟩ | ⟨hno, -⟩
      · rw [hrun, hrun']
        dsimp only
        rw [ih hready hready' (by rw [hkind₂, hkind₁, hkind]) (by rw [hlast₂, hlast₁])]
      · rw [hsame, hyes] at hno
        cases hno
    · rcases h'.append_cases t with ⟨hyes, -⟩ | ⟨-, hrun'⟩
      · rw [hsame, hno] at hyes
        cases hyes
      · rw [hrun, hrun']
        dsimp only
        rw [ih h h' hkind hlast, hlast]

/-! ## One round trip -/

/-- A store is written out, and whatever is done to other pages of the file, the bytes of its descriptor bring
it back as it was. -/
structure Returns (s : Store) (f : PageFile) (x : Descriptor) (saved : PageFile) (scratch : List Nat) :
    Prop where
  written : s.save f = .ok x saved
  readBack : Descriptor.ofBytes x.toBytes = .ok x
  /-- The pages for tail and directory were free or not yet handed out. They are the only ones that no longer
  are. -/
  allocated : (scratch ++ saved.free).Perm
    (f.free ++ List.range' f.pageCount (saved.pageCount - f.pageCount))
  /-- Just these pages are given back. The store looks up what it looked up before, and takes up later on what
  it would have taken up. -/
  loaded : ∀ ops : List PageOp, (∀ op ∈ ops, ∀ p ∈ op.changed, p ∉ s.sealedPages ++ scratch) →
    ∃ back released, load s.kind x (PageOp.runAll saved ops) = .ok s back ∧ released.Perm scratch ∧
      back.disk = { (PageOp.runAll saved ops).disk with
        free := released ++ (PageOp.runAll saved ops).free } ∧
      (∃ ts, s.snapshot.LooksUp f ts ∧ s.snapshot.LooksUp back ts) ∧
      ∀ ts, s.verdicts back ts = s.verdicts f ts

variable {chunks : List (List Tuple)} {rest : List Nat}

/-- The pages of a store that was written out are not those of anybody else. -/
theorem LiesOn.returns (hf : f.Sound) (hown : f.disk.Owned (s.sealedPages ++ rest))
    (h : s.LiesOn f.disk chunks) (hroom : (Act.after s.save f).pageCount ≤ maxPages) :
    ∃ x saved scratch, s.Returns f x saved scratch ∧ ∀ p ∈ rest, p ∉ s.sealedPages ++ scratch := by
  obtain ⟨x, scratch, saved, hsave, hsaved, hx, hdescribed⟩ := save_spec hf hown h
  rw [Act.after_ok hsave] at hroom
  have hkept : f.disk.Keeps saved.disk s.sealedPages :=
    (hx.kept _ hown).mono (List.subset_append_left _ _)
  have hown' : saved.disk.Owned (scratch ++ (s.sealedPages ++ rest)) := hx.owned _ hown
  have hready : s.Ready f := ⟨hf, hown.noPage_not_mem_free, h.tail_lt⟩
  refine ⟨x, saved, scratch, ⟨hsave, x.ofBytes_toBytes,
    hown.perm_of_allocated hown' hf.pageCount_pos hx.pageCount_le, fun ops hspares => ?_⟩, ?_⟩
  · -- what is done to the file in between spares the pages of this list
    have hbetween := PageOp.spares_runAll hsaved hown'.noPage_not_mem_free hspares
    generalize PageOp.runAll saved ops = between at hbetween ⊢
    have hcap : between.disk.capacity = f.disk.capacity := hbetween.capacity_eq.trans hx.capacity_eq
    have hlies : s.LiesOn between.disk chunks :=
      h.keep hcap (hkept.trans (hbetween.keeps.mono (List.subset_append_left _ _)))
    have hthere : s.SavedAs between.disk x scratch :=
      (hdescribed hroom).keep (hbetween.keeps.mono (List.subset_append_right _ _))
    have hnodup : scratch.Nodup := (List.nodup_append.mp hown'.nodup).1
    -- so the list is loaded as it was saved, and its description is given back
    obtain ⟨back, released, hload, hback, hperm, hdisk⟩ := load_exact hbetween.file hnodup hlies hthere
    have hfree : back.free = released ++ between.free := congrArg Disk.free hdisk
    have hstill : s.LiesOn back.disk chunks :=
      hlies.keep (by rw [hdisk]) fun p _ payload hp => by rwa [hdisk]
    refine ⟨back, released, hload, hperm, hdisk, ⟨s.tuples chunks, ?_, ?_⟩, ?_⟩
    · exact h.view.onAll.looksUp hf rfl
    · exact hstill.view.onAll.looksUp hback rfl
    · refine hready.verdicts_eq ⟨hback, ?_, hstill.tail_lt⟩ rfl rfl
      rw [hfree, List.mem_append, not_or]
      refine ⟨fun hmem => ?_, hbetween.free⟩
      exact hown'.ne_noPage (List.mem_append_left _ (hperm.subset hmem)) rfl
  · intro p hp
    -- no page of others is among those of the list
    have hperm : (scratch ++ (s.sealedPages ++ rest)).Perm (rest ++ (s.sealedPages ++ scratch)) :=
      List.perm_iff_count.mpr fun q => by simp only [List.count_append]; omega
    exact (hown'.perm hperm).not_mem_of_mem hp

end Store

/-! ## A store and others -/

/-- A store over a page file, and the pages that others have. -/
structure Shared where
  pages : PageFile
  kept : Kept
  others : List PageId

/-- One thing that happens to the store or to the pages of others. -/
inductive Turn where
  | store (change : Change)
  | other (op : PageOp)
deriving Repr

namespace Shared

/-- A store without tuples, and nobody else. -/
def start (pages : PageFile) (kind : Kind) : Shared := ⟨pages, .inMemory (.empty kind), []⟩

/-- What comes of a turn. Others write to and give back what they have, and no other page. -/
def next (x : Shared) : Turn → Shared
  | .store change =>
    match Kept.act change x.kept x.pages with
    | .ok kept pages => { x with pages, kept }
    | .error _ pages => { x with pages }
  | .other op =>
    if op.changed.all (x.others.contains ·) then
      match op.act x.pages with
      | .ok new pages => { x with pages, others := new.toList ++ op.left x.others }
      | .error _ pages => { x with pages }
    else x

/-- What comes of some turns. -/
def run (x : Shared) (turns : List Turn) : Shared := turns.foldl next x

/-- Every page is free, of the store or of others, and the store lies on its pages. -/
structure Sound (x : Shared) (h : Holding) : Prop where
  file : x.pages.Sound
  holds : x.kept.Holds x.pages.disk h
  owned : x.pages.disk.Owned (h.pages ++ x.others)

variable {x : Shared} {h : Holding}

/-- What is done to the store keeps everything in its place. -/
theorem sound_store (hs : x.Sound h) (change : Change)
    (hroom : change = .save → (x.next (.store change)).pages.pageCount ≤ maxPages) :
    ∃ h', (x.next (.store change)).Sound h' := by
  have hroom' : change = .save → (Act.after (Kept.act change x.kept) x.pages).pageCount ≤ maxPages := by
    refine fun hsave => Nat.le_trans (Nat.le_of_eq ?_) (hroom hsave)
    cases hact : Kept.act change x.kept x.pages <;> simp only [Act.after, next, hact]
  rcases hs.holds.brings hs.file hs.owned change hroom' with
    ⟨kept, f', h', hact, hf', hx, hholds, -, -⟩ | ⟨key, last, hact, -⟩
  · refine ⟨h', ?_⟩
    simp only [next, hact]
    exact ⟨hf', hholds, hx.owned _ hs.owned⟩
  · refine ⟨h, ?_⟩
    simp only [next, hact]
    exact hs

/-- What others do to their pages is nothing to the store. -/
theorem sound_other (hs : x.Sound h) (op : PageOp) : (x.next (.other op)).Sound h := by
  rw [next]
  split
  · rename_i hheld
    have hmem : ∀ p ∈ op.changed, p ∈ x.others := by
      intro p hp
      rw [Option.mem_def] at hp
      simpa [hp] using hheld
    have hown : x.pages.disk.Owned (x.others ++ h.pages) := hs.owned.perm List.perm_append_comm
    rcases op.act_spec hs.file hown hmem with
      ⟨new, f', hrun, hf', hx⟩ | ⟨e, f', hrun, hf', hdisk⟩
    · simp only [hrun]
      exact ⟨hf', hs.holds.keep hx.capacity_eq (hx.keeps hown),
        (hx.owned _ hown).perm List.perm_append_comm⟩
    · simp only [hrun]
      exact ⟨hf', hdisk ▸ hs.holds, hdisk ▸ hs.owned⟩
  · exact hs

theorem pageCount_le_next (x : Shared) (turn : Turn) :
    x.pages.pageCount ≤ (x.next turn).pages.pageCount := by
  cases turn with
  | store change =>
    have hgrows := Kept.grows_act change x.kept x.pages
    cases hact : Kept.act change x.kept x.pages <;> simpa only [Act.after, next, hact] using hgrows
  | other op =>
    have hgrows := op.grows_act x.pages
    rw [next]
    split
    · cases hact : op.act x.pages <;> simpa only [Act.after, hact] using hgrows
    · exact Nat.le_refl _

theorem pageCount_le_run (x : Shared) (turns : List Turn) :
    x.pages.pageCount ≤ (x.run turns).pages.pageCount := by
  induction turns generalizing x with
  | nil => exact Nat.le_refl _
  | cons turn turns ih => exact Nat.le_trans (x.pageCount_le_next turn) (ih _)

/-- Turns of the store and of others, in any order, keep everything in its place. -/
theorem sound_run (hs : x.Sound h) (turns : List Turn)
    (hroom : (x.run turns).pages.pageCount ≤ maxPages) : ∃ h', (x.run turns).Sound h' := by
  induction turns generalizing x h with
  | nil => exact ⟨h, hs⟩
  | cons turn turns ih =>
    have hnext : (x.next turn).pages.pageCount ≤ maxPages := Nat.le_trans (pageCount_le_run _ turns) hroom
    cases turn with
    | store change =>
      obtain ⟨h', hs'⟩ := sound_store hs change fun _ => hnext
      exact ih hs' hroom
    | other op => exact ih (sound_other hs op) hroom

/-- Whatever a store and others have done to their page file, the store comes back when it is written out, and
the others have no page of its own.

`Store.Returns` holds whatever is done in between to pages that the store does not have, and the second
part says that the others have no page that it does. -/
theorem comes_back {pageSize cachePages : Nat} {fresh : PageFile}
    (h : PageFile.create pageSize cachePages = .ok fresh) (kind : Kind) (turns : List Turn) {s : Store}
    (hstore : ((start fresh kind).run turns).kept = .inMemory s)
    (hroom : (Act.after s.save ((start fresh kind).run turns).pages).pageCount ≤ maxPages) :
    ∃ x saved scratch, s.Returns ((start fresh kind).run turns).pages x saved scratch ∧
      ∀ p ∈ ((start fresh kind).run turns).others, p ∉ s.sealedPages ++ scratch := by
  obtain ⟨hf, hcount, hfree⟩ := PageFile.create_spec h
  have hstart : (start fresh kind).Sound (.empty kind) :=
    ⟨hf, .inMemory (Store.liesOn_empty _ kind), Disk.owned_nil hcount hfree⟩
  obtain ⟨held, hs⟩ := sound_run hstart turns (Nat.le_trans (s.grows_save _) hroom)
  obtain ⟨hfile, hholds, hown⟩ := hs
  rw [hstore] at hholds
  cases hholds with
  | inMemory hlies =>
    rw [Holding.pages, List.append_nil] at hown
    exact hlies.returns hfile hown hroom

/-- A store seals a page beside that of another, who writes to his. -/
def busy : List Turn :=
  [.other .allocate, .store (.append 5 (some .target)), .store .sealTail, .other (.write 1 [7]),
    .store (.append 5 (some .value))]

/-- The store after that. -/
def settled : Store where
  kind := .role
  directory := #[⟨2, 5, 5, 1, 0⟩]
  tail := #[.tagged 5 .value]
  sealedLength := 1
  lastKey := some 5

set_option maxRecDepth 4000 in
/-- It comes back, with a directory and a tail. -/
theorem comes_back_small :
    ∃ fresh, PageFile.create 256 1 = .ok fresh ∧ ((start fresh .role).run busy).others = [1] ∧
      ∃ x saved scratch, settled.Returns ((start fresh .role).run busy).pages x saved scratch := by
  obtain ⟨fresh, hfresh⟩ : ∃ fresh, PageFile.create 256 1 = .ok fresh := ⟨_, rfl⟩
  have hstore : ((start fresh .role).run busy).kept = .inMemory settled := by
    cases hfresh
    cbv
  have hothers : ((start fresh .role).run busy).others = [1] := by
    cases hfresh
    cbv
  have hcount : (Act.after settled.save ((start fresh .role).run busy).pages).pageCount = 5 := by
    cases hfresh
    cbv
  have hroom : (Act.after settled.save ((start fresh .role).run busy).pages).pageCount ≤ maxPages := by
    rw [hcount]
    decide
  obtain ⟨x, saved, scratch, hreturns, -⟩ := comes_back hfresh .role busy hstore hroom
  exact ⟨fresh, hfresh, hothers, x, saved, scratch, hreturns⟩

end Shared

end EventIndex
