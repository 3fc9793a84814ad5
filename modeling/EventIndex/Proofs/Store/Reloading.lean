import Mathlib
import EventIndex.Proofs.Page.Disk
import EventIndex.Proofs.Page.TuplePage
import EventIndex.Store.Basic

/-! # Taking a list back that cannot be read

`load` gives pages back while it reads: each page of the directory as soon as it is read, and the page
of the tail before the tail is counted. When it fails later on, these pages are free, and the descriptor
still points at them. `load_error_releases` says which loads that fail have given pages back: those
that came as far as the first of them.

`Releases x f ps` says that an action gave the pages `ps` back, the last one first, and did nothing else
to the disk.

The actions of a load are put together by `bind`, so the pages that each of them gives back are read off
one after the other. What matters of these pages is the first one: `ReleasesFirst` says which it is, and
that there is none.

Main results:

* `Releases.bind`: one action after another.
* `releases_loadDirectory`, `releases_finishLoad`: the two parts of a load.
* `load_releases`: a load that fails changes the disk just by the pages that it gave back until then.
-/

namespace EventIndex

variable {α β : Type}

/-! ## Pages given back -/

/-- All that an action does to the disk is to give some pages back. -/
def Releases (x : Act PageFile α) (f : PageFile) (ps : List PageId) : Prop :=
  (Act.after x f).disk = { f.disk with free := ps ++ f.disk.free }

namespace Releases

variable {x : Act PageFile α} {y : α → Act PageFile β} {f f' : PageFile} {p q : List PageId} {a : α}
  {e : StorageError}

/-- Doing nothing gives nothing back. -/
theorem pure (a : α) (f : PageFile) : Releases (pure a) f [] := rfl

/-- Failing gives nothing back. -/
theorem throw (e : StorageError) (f : PageFile) : Releases (throw e : Act PageFile α) f [] := rfl

/-- Handing an answer on gives nothing back. -/
theorem ofExcept (r : Except StorageError α) (f : PageFile) :
    Releases (Act.ofExcept r : Act PageFile α) f [] := by
  cases r <;> rfl

/-- Reading a page gives nothing back, whether it fails or not. -/
theorem read (page : PageId) (f : PageFile) : Releases (PageFile.read page) f [] := by
  unfold Releases Act.after PageFile.read
  cases f.cache.find? page with
  | some payload => rfl
  | none =>
    dsimp only
    cases PageFile.load _ page <;> rfl

/-- An action that goes as another one does gives back the same pages. -/
theorem of_eq {z : Act PageFile α} (hz : Releases z f' p) (hdisk : f'.disk = f.disk) (h : x f = z f') :
    Releases x f p := by
  unfold Releases at hz ⊢
  rw [Act.after_congr h, hz, hdisk]

/-- Behind an action that succeeds the next one gives its own pages back, later. -/
theorem bind_ok (h : x f = .ok a f') (hx : Releases x f p) (hy : Releases (y a) f' q) :
    Releases (x >>= y) f (q ++ p) := by
  have hfree : f'.disk = { f.disk with free := p ++ f.disk.free } := Act.after_ok h ▸ hx
  unfold Releases at hy ⊢
  rw [Act.after_bind_ok h, hy, hfree, List.append_assoc]

/-- Behind an action that fails nothing comes. -/
theorem bind_error (h : x f = .error e f') (hx : Releases x f p) : Releases (x >>= y) f p := by
  unfold Releases at hx ⊢
  rw [Act.after_error (Act.bind_error h), ← Act.after_error h]
  exact hx

/-- A page is given back. -/
theorem release {page : PageId} (hpage : page ≠ noPage) (f : PageFile) :
    ∃ f', PageFile.release page f = .ok () f' ∧ Releases (PageFile.release page) f [page] := by
  have hrun : PageFile.release page f =
      .ok () { f with cache := f.cache.erase page, free := page :: f.free } := if_neg hpage
  refine ⟨_, hrun, ?_⟩
  rw [Releases, Act.after_ok hrun]
  rfl

/-- What came of the first action decides how it goes on. -/
theorem bind (hx : Releases x f p) (hy : ∀ a f', x f = .ok a f' → ∃ q, Releases (y a) f' q) :
    ∃ q, Releases (x >>= y) f (q ++ p) := by
  cases h : x f with
  | ok a f' =>
    obtain ⟨q, hq⟩ := hy a f' h
    exact ⟨q, bind_ok h hx hq⟩
  | error e f' => exact ⟨[], bind_error h hx⟩

end Releases

namespace Store

variable {f : PageFile} {page : PageId}

/-! ## Chains -/

/-- A page of a chain in front of the rest, unless the rest has no end. -/
def inFront (payload : List UInt8) : Option (List UInt8) → Act PageFile (Option (List UInt8))
  | none => return none
  | some rest => return some (payload.drop 4 ++ rest)

/-- Putting a page in front of the rest gives nothing back. -/
theorem releases_inFront (payload : List UInt8) (rest : Option (List UInt8)) (f : PageFile) :
    Releases (inFront payload rest) f [] := by
  cases rest with
  | none => exact .pure _ f
  | some rest => exact .pure _ f

/-- A page of a chain is given back as soon as it is read. -/
theorem readChainWithin_succ (hpage : page ≠ noPage) (fuel : Nat) :
    readChainWithin (fuel + 1) page = (do
      let payload ← PageFile.read page
      if payload.length < 4 then throw (.corrupt (.chainPageTooShort page))
      PageFile.release page
      let rest ← readChainWithin fuel (Binary.numberAt payload 0 4)
      inFront payload rest) := by
  rw [readChainWithin]
  exact if_neg hpage

/-- A page that can be followed is given back, and one that cannot ends the chain at once. -/
theorem releases_step (hpage : page ≠ noPage) {fuel : Nat} (f : PageFile)
    (hrest : ∀ next f', ∃ ps, Releases (readChainWithin fuel next) f' ps) :
    ∃ ps, Releases (readChainWithin (fuel + 1) page) f ps ∧
      (ps = [] → ∃ e f', readChainWithin (fuel + 1) page f = .error e f') ∧
      ∀ p, ps.getLast? = some p ↔ p = page ∧
        ∃ payload, Act.outcome (PageFile.read page) f = .ok payload ∧ 4 ≤ payload.length := by
  rw [readChainWithin_succ hpage]
  cases hread : PageFile.read page f with
  | error e f₁ =>
    refine ⟨[], .bind_error hread (.read page f), fun _ => ⟨e, f₁, Act.bind_error hread⟩,
      fun p => ⟨fun h => (by cases h), ?_⟩⟩
    rintro ⟨-, payload, hok, -⟩
    rw [Act.outcome_error hread] at hok
    cases hok
  | ok payload f₁ =>
    have hok := Act.outcome_ok hread
    by_cases hshort : payload.length < 4
    · -- a page without a link is not given back, and the chain ends in an error
      refine ⟨[], ?_, fun _ => ⟨.corrupt (.chainPageTooShort page), f₁, ?_⟩,
        fun p => ⟨fun h => (by cases h), ?_⟩⟩
      · refine Releases.bind_ok (q := []) hread (.read page f) ?_
        rw [if_pos hshort]
        exact .throw _ f₁
      · rw [Act.bind_ok hread, if_pos hshort]
        rfl
      · rintro ⟨-, payload', hok', hlength⟩
        cases hok.symm.trans hok'
        omega
    · -- the page is given back before the rest is read, so it is the first whatever comes of the rest
      obtain ⟨f₂, hrelease, hreleases⟩ := Releases.release hpage f₁
      obtain ⟨ps, hps⟩ := hrest (Binary.numberAt payload 0 4) f₂
      obtain ⟨qs, hqs⟩ := hps.bind fun rest f' _ => ⟨[], releases_inFront payload rest f'⟩
      refine ⟨(qs ++ ps ++ [page]) ++ [], ?_, fun h => by simp at h, fun p => ?_⟩
      · refine Releases.bind_ok hread (.read page f) ?_
        rw [if_neg hshort]
        exact Releases.bind_ok hrelease hreleases hqs
      · rw [List.append_nil, List.getLast?_concat, Option.some.injEq]
        exact ⟨fun h => ⟨h.symm, payload, hok, Nat.le_of_not_lt hshort⟩, fun h => h.1.symm⟩

/-- Reading a chain only gives pages back. -/
theorem releases_readChainWithin (fuel : Nat) (page : PageId) (f : PageFile) :
    ∃ ps, Releases (readChainWithin fuel page) f ps := by
  induction fuel generalizing page f with
  | zero =>
    rw [readChainWithin]
    split
    · exact ⟨[], .pure _ f⟩
    · exact ⟨[], .pure _ f⟩
  | succ fuel ih =>
    by_cases hpage : page = noPage
    · rw [readChainWithin, if_pos hpage]
      exact ⟨[], .pure _ f⟩
    · obtain ⟨ps, hps, -, -⟩ := releases_step hpage f ih
      exact ⟨ps, hps⟩

/-- What a chain comes to when it was followed. -/
def chainRead (page : PageId) : Option (List UInt8) → Act PageFile (List UInt8)
  | some bytes => pure bytes
  | none => throw (.corrupt (.unendingChain page))

/-- Reading the chain of a directory gives its first page back if that can be followed. -/
theorem releases_readChain (hpage : page ≠ noPage) (f : PageFile) :
    ∃ ps, Releases (readChain page) f ps ∧ (ps = [] → ∃ e f', readChain page f = .error e f') ∧
      ∀ p, ps.getLast? = some p ↔ p = page ∧
        ∃ payload, Act.outcome (PageFile.read page) f = .ok payload ∧ 4 ≤ payload.length := by
  -- the bound allows for a first page, whose reading decides what is given back first
  obtain ⟨fuel, hfuel⟩ : ∃ fuel, chainBound f = fuel + 1 := ⟨chainBound f - 1, by
    unfold chainBound
    have hpos : 0 < (f.wholePages + 1) * (f.cache.size + 1) := Nat.mul_pos (by omega) (by omega)
    omega⟩
  obtain ⟨ps, hps, hfails, hfirst⟩ := releases_step hpage f (releases_readChainWithin fuel)
  have hact : readChain page f = (readChainWithin (fuel + 1) page >>= chainRead page) f := by
    have hget : (get : Act PageFile PageFile) f = .ok f f := rfl
    rw [← hfuel]
    exact Act.bind_ok hget
  cases hrun : readChainWithin (fuel + 1) page f with
  | error e f' =>
    refine ⟨ps, .of_eq (.bind_error hrun hps) rfl hact, fun _ => ⟨e, f', ?_⟩, hfirst⟩
    rw [hact, Act.bind_error hrun]
  | ok answer f' =>
    refine ⟨ps, .of_eq (Releases.bind_ok (q := []) hrun hps ?_) rfl hact, fun h => ?_, hfirst⟩
    · cases answer with
      | none => exact .throw _ f'
      | some bytes => exact .pure _ f'
    · obtain ⟨e, f'', herror⟩ := hfails h
      cases hrun.symm.trans herror

/-! ## Directory and tail -/

/-- Reading a directory gives its first page back first, if that can be followed, and nothing at all only if
it fails. -/
theorem releases_loadDirectory {d : Descriptor} (hd : d.directory ≠ 0) (f : PageFile) :
    ∃ ps, Releases (loadDirectory d) f ps ∧ (ps = [] → ∃ e f', loadDirectory d f = .error e f') ∧
      ∀ p, ps.getLast? = some p ↔ p = d.directory.toNat ∧
        ∃ payload, Act.outcome (PageFile.read d.directory.toNat) f = .ok payload ∧
          4 ≤ payload.length := by
  have hpage : d.directory.toNat ≠ noPage := fun h => hd (UInt32.toNat_inj.mp h)
  obtain ⟨ps, hps, hfails, hfirst⟩ := releases_readChain hpage f
  rw [loadDirectory, if_neg hd]
  cases hrun : readChain d.directory.toNat f with
  | error e f' => exact ⟨ps, .bind_error hrun hps, fun _ => ⟨e, f', Act.bind_error hrun⟩, hfirst⟩
  | ok bytes f' =>
    refine ⟨ps, Releases.bind_ok (q := []) hrun hps ?_, fun h => ?_, hfirst⟩
    · cases directoryOf? bytes with
      | none => exact .throw _ f'
      | some directory => exact .pure _ f'
    · obtain ⟨e, f'', herror⟩ := hfails h
      cases hrun.symm.trans herror

/-- Reading a tail gives its page back if the page can be read and decoded. -/
theorem releases_loadTail (kind : Kind) {d : Descriptor} (hd : d.tailPage ≠ 0) (f : PageFile) :
    ∃ ps, Releases (loadTail kind d) f ps ∧ ∀ p, ps.getLast? = some p ↔ p = d.tailPage.toNat ∧
      ∃ payload tuples, Act.outcome (PageFile.read d.tailPage.toNat) f = .ok payload ∧
        TuplePage.decode kind payload = .ok tuples := by
  have hpage : d.tailPage.toNat ≠ noPage := fun h => hd (UInt32.toNat_inj.mp h)
  rw [loadTail, if_neg hd]
  cases hread : PageFile.read d.tailPage.toNat f with
  | error e f₁ =>
    refine ⟨[], .bind_error hread (.read _ f), fun p => ⟨fun h => (by cases h), ?_⟩⟩
    rintro ⟨-, payload, tuples, hok, -⟩
    rw [Act.outcome_error hread] at hok
    cases hok
  | ok payload f₁ =>
    have hok := Act.outcome_ok hread
    cases hdecode : TuplePage.decode kind payload with
    | error e =>
      have hthrow : (Act.ofExcept (TuplePage.decode kind payload) : Act PageFile (List Tuple)) f₁ =
          .error e f₁ := by
        rw [hdecode]
        rfl
      refine ⟨[] ++ [], .bind_ok hread (.read _ f) (.bind_error hthrow (.ofExcept _ f₁)),
        fun p => ⟨fun h => (by cases h), ?_⟩⟩
      rintro ⟨-, payload', tuples, hok', hdecode'⟩
      cases hok.symm.trans hok'
      cases hdecode.symm.trans hdecode'
    | ok tuples =>
      have hpure : (Act.ofExcept (TuplePage.decode kind payload) : Act PageFile (List Tuple)) f₁ =
          .ok tuples f₁ := by
        rw [hdecode]
        rfl
      obtain ⟨f₂, hrelease, hreleases⟩ := Releases.release hpage f₁
      -- read, decoded, given back: what is wrong with the count is found out afterwards
      refine ⟨([] ++ [d.tailPage.toNat]) ++ [] ++ [], .bind_ok hread (.read _ f)
        (.bind_ok hpure (.ofExcept _ f₁) (.bind_ok hrelease hreleases (.pure tuples _))), fun p => ?_⟩
      simp only [List.nil_append, List.append_nil, List.getLast?_singleton, Option.some.injEq]
      exact ⟨fun h => ⟨h.symm, payload, tuples, hok, hdecode⟩, fun h => h.1.symm⟩

/-! ## Loads that fail -/

/-- The first page that a load gives back: that of the directory if it can be followed, or that of the
tail if there is no directory and the tail can be read. -/
inductive ReleasesFirst (kind : Kind) (d : Descriptor) (f : PageFile) : PageId → Prop
  | directory {payload : List UInt8} (hsome : d.directory ≠ 0)
      (hread : Act.outcome (PageFile.read d.directory.toNat) f = .ok payload)
      (hlink : 4 ≤ payload.length) : ReleasesFirst kind d f d.directory.toNat
  | tail {payload : List UInt8} {tuples : List Tuple} (hnone : d.directory = 0)
      (hcount : d.pageCount = 0) (hsome : d.tailPage ≠ 0)
      (hread : Act.outcome (PageFile.read d.tailPage.toNat) f = .ok payload)
      (htuples : TuplePage.decode kind payload = .ok tuples) :
      ReleasesFirst kind d f d.tailPage.toNat

/-- What comes of a load when directory and tail are there. -/
def countLoaded (kind : Kind) (d : Descriptor) (directory : List PageRef) (tail : List Tuple) :
    Act PageFile Store := do
  if tail.length ≠ d.tailLength.toNat then
    throw (.corrupt (.tailCount tail.length d.tailLength.toNat))
  let sealedLength := (directory.getLast?.map PageRef.stop).getD 0
  if sealedLength + tail.length ≠ d.length.toNat then
    throw (.corrupt (.tupleCount (sealedLength + tail.length) d.length.toNat))
  return {
    kind
    directory := directory.toArray
    tail := tail.toArray
    sealedLength
    lastKey := d.lastKey }

/-- What comes of a load when the directory is there. -/
def finishLoad (kind : Kind) (d : Descriptor) (directory : List PageRef) : Act PageFile Store := do
  if directory.length ≠ d.pageCount.toNat then
    throw (.corrupt (.directoryCount directory.length d.pageCount.toNat))
  let tail ← loadTail kind d
  countLoaded kind d directory tail

/-- A load reads the directory and goes on from there. -/
theorem load_eq (kind : Kind) (d : Descriptor) :
    load kind d = loadDirectory d >>= finishLoad kind d := rfl

/-- Counting gives nothing back; it is the last that can fail. -/
theorem releases_countLoaded (kind : Kind) (d : Descriptor) (directory : List PageRef)
    (tail : List Tuple) (f : PageFile) : Releases (countLoaded kind d directory tail) f [] := by
  unfold countLoaded
  split
  · exact .throw _ f
  · dsimp only
    split
    · exact .throw _ f
    · exact .pure _ f

/-- Behind the directory only the page of the tail is given back, and only if the directory was long enough. -/
theorem releases_finishLoad (kind : Kind) (d : Descriptor) (directory : List PageRef) (f : PageFile) :
    ∃ ps, Releases (finishLoad kind d directory) f ps ∧ ∀ p, ps.getLast? = some p ↔
      directory.length = d.pageCount.toNat ∧ d.tailPage ≠ 0 ∧ p = d.tailPage.toNat ∧
      ∃ payload tuples, Act.outcome (PageFile.read d.tailPage.toNat) f = .ok payload ∧
        TuplePage.decode kind payload = .ok tuples := by
  unfold finishLoad
  by_cases hcount : directory.length = d.pageCount.toNat
  · rw [if_neg (not_not.mpr hcount)]
    by_cases hnone : d.tailPage = 0
    · -- there is no open page
      have hrun : loadTail kind d f = .ok [] f := by
        rw [loadTail, if_pos hnone]
        rfl
      refine ⟨[], .of_eq (releases_countLoaded kind d directory [] f) rfl (Act.bind_ok hrun),
        fun p => ⟨fun h => (by cases h), fun h => absurd hnone h.2.1⟩⟩
    · -- the page of the open tuples is given back when it has been read
      obtain ⟨ps, hps, hfirst⟩ := releases_loadTail kind hnone f
      refine ⟨ps, ?_, fun p =>
        (hfirst p).trans ⟨fun h => ⟨hcount, hnone, h⟩, fun h => h.2.2⟩⟩
      cases hrun : loadTail kind d f with
      | error e f' => exact .bind_error hrun hps
      | ok tail f' =>
        exact Releases.bind_ok (q := []) hrun hps (releases_countLoaded kind d directory tail f')
  · -- the directory is not the one that was described: the open page is not reached
    rw [if_pos hcount]
    exact ⟨[], .throw _ f, fun p => ⟨fun h => (by cases h), fun h => absurd h.1 hcount⟩⟩

/-- A load only gives pages back. The first of them is one that the descriptor points at. -/
theorem load_releases (kind : Kind) (d : Descriptor) (f : PageFile) :
    ∃ ps, Releases (load kind d) f ps ∧ ∀ p, ps.getLast? = some p ↔ ReleasesFirst kind d f p := by
  rw [load_eq]
  by_cases hd : d.directory = 0
  · have hrun : loadDirectory d f = .ok [] f := by
      rw [loadDirectory, if_pos hd]
      rfl
    obtain ⟨ps, hps, hfirst⟩ := releases_finishLoad kind d [] f
    refine ⟨ps ++ [], Releases.bind_ok hrun (by rw [Releases, Act.after_ok hrun]; rfl) hps, fun p => ?_⟩
    rw [List.append_nil, hfirst]
    constructor
    · rintro ⟨hcount, hsome, rfl, payload, tuples, hread, htuples⟩
      exact .tail hd (UInt32.toNat_inj.mp hcount.symm) hsome hread htuples
    · rintro (⟨hsome, -, -⟩ | ⟨-, hcount, hsome, hread, htuples⟩)
      · exact absurd hd hsome
      · exact ⟨by rw [hcount]; rfl, hsome, rfl, _, _, hread, htuples⟩
  · -- a directory is read first, so that the tail cannot give the first page back
    obtain ⟨ps, hps, hfails, hfirst⟩ := releases_loadDirectory hd f
    have hiff (p : PageId) : ps.getLast? = some p ↔ ReleasesFirst kind d f p := by
      rw [hfirst]
      constructor
      · rintro ⟨rfl, payload, hread, hlink⟩
        exact .directory hd hread hlink
      · rintro (⟨-, hread, hlink⟩ | ⟨hnone, -, -, -, -⟩)
        · exact ⟨rfl, _, hread, hlink⟩
        · exact absurd hnone hd
    cases hrun : loadDirectory d f with
    | error e f' => exact ⟨ps, .bind_error hrun hps, hiff⟩
    | ok directory f' =>
      obtain ⟨qs, hqs, -⟩ := releases_finishLoad kind d directory f'
      refine ⟨qs ++ ps, .bind_ok hrun hps hqs, fun p => ?_⟩
      -- nothing was given back only if the directory failed, which it did not
      have hne : ps ≠ [] := fun h => by
        obtain ⟨e, f'', herror⟩ := hfails h
        cases hrun.symm.trans herror
      rw [List.getLast?_append_of_ne_nil _ hne, hiff]

/-- A load that fails leaves the disk as it was just when it came to no page that it gives back.
Otherwise the first such page, at which the descriptor points, is free once more than before.

It makes no difference which check fails in the end. Whatever comes after the first page was given back,
the page is free, and the descriptor that still points at it may be tried again. -/
theorem load_error_releases {kind : Kind} {d : Descriptor} {f f' : PageFile} {e : StorageError}
    (h : load kind d f = .error e f') :
    f'.pageCount = f.pageCount ∧ f'.disk.pages = f.disk.pages ∧
      (f'.free = f.free ↔ ¬ ∃ p, ReleasesFirst kind d f p) ∧
      ∀ p, ReleasesFirst kind d f p → f.free.count p < f'.free.count p := by
  obtain ⟨ps, hps, hfirst⟩ := load_releases kind d f
  have hdisk : f'.disk = { f.disk with free := ps ++ f.disk.free } := by
    rw [← Act.after_error h]
    exact hps
  have hfree : f'.free = ps ++ f.free := congrArg Disk.free hdisk
  have hpages : f'.disk.pages = f.disk.pages := by rw [hdisk]
  refine ⟨congrArg Disk.pageCount hdisk, hpages, ?_, fun p hp => ?_⟩
  · rw [hfree, List.append_left_eq_self]
    constructor
    · rintro rfl ⟨p, hp⟩
      exact absurd ((hfirst p).mpr hp) (by simp)
    · intro hnone
      cases hlast : ps.getLast? with
      | none => exact List.getLast?_eq_none_iff.mp hlast
      | some p => exact absurd ⟨p, (hfirst p).mp hlast⟩ hnone
  · -- the page was given back once more than it was free before
    have hpos : 0 < ps.count p := List.count_pos_iff.mpr (List.mem_of_getLast? ((hfirst p).mpr hp))
    rw [hfree, List.count_append]
    omega

/-- A list of one tuple. -/
def single : Store := (empty .plain).push (.plain 7)

/-- The descriptor of this list, written out to a fresh file. -/
def singleSaved : Descriptor where
  length := 1
  pageCount := 0
  directory := 0
  tailPage := 1
  tailLength := 1
  lastKey := some 7

/-- A descriptor with another count. -/
def miscounted : Descriptor := { singleSaved with tailLength := 2 }

set_option maxRecDepth 4000 in
/-- The load comes to the page of the tail, and leaves it free. -/
theorem load_error_releases_single :
    ∃ fresh, PageFile.create 256 16 = .ok fresh ∧
      ∃ f', load .plain miscounted (Act.after (save single) fresh) =
          .error (.corrupt (.tailCount 1 2)) f' ∧
        f'.pageCount = (Act.after (save single) fresh).pageCount ∧
        (Act.after (save single) fresh).free.count 1 < f'.free.count 1 := by
  obtain ⟨fresh, hfresh⟩ : ∃ fresh, PageFile.create 256 16 = .ok fresh := ⟨_, rfl⟩
  have herror : Act.outcome (load .plain miscounted) (Act.after (save single) fresh) =
      .error (.corrupt (.tailCount 1 2)) := by
    cases hfresh
    cbv
  have hread : Act.outcome (PageFile.read miscounted.tailPage.toNat) (Act.after (save single) fresh) =
      .ok (TuplePage.encode .plain [.plain 7]) := by
    cases hfresh
    cbv
  have hdecode : TuplePage.decode .plain (TuplePage.encode .plain [.plain 7]) = .ok [.plain 7] :=
    TuplePage.decode_encode (by decide) (by decide)
  obtain ⟨hcount, -, -, hfree⟩ := load_error_releases (Act.eq_of_outcome_error herror)
  exact ⟨fresh, hfresh, _, Act.eq_of_outcome_error herror, hcount,
    hfree _ (.tail rfl rfl (by decide) hread hdecode)⟩

set_option maxRecDepth 4000 in
/-- The load fails, and the page of the tail, at which the descriptor points, is free. -/
theorem load_error_not_inert :
    ∃ fresh, PageFile.create 256 16 = .ok fresh ∧
      Act.outcome (save single) fresh = .ok singleSaved ∧
      (Act.after (save single) fresh).free = [] ∧
      Act.outcome (load .plain miscounted) (Act.after (save single) fresh) =
        .error (.corrupt (.tailCount 1 2)) ∧
      (Act.after (load .plain miscounted) (Act.after (save single) fresh)).free = [1] := by
  refine ⟨_, rfl, ?_, ?_, ?_, ?_⟩
  · cbv
  · cbv
  · cbv
  · cbv

end Store

end EventIndex
