import Mathlib.Algebra.GroupWithZero.Nat
import EventIndex.Proofs.Page.Disk
import EventIndex.Store.Basic

/-! # Chains of pages

`Chain d head ps bytes` says that the pages `ps` are linked one to the next from `head` on and hold
`bytes` between them. `writeChain_spec` makes such a chain of fresh pages; `readChain_spec` reads it
back and releases every page of it.

Links have four bytes. A chain is therefore right only as long as page numbers fit them, which is
why `writeChain_spec` speaks of the number of pages handed out.

Main results:

* `readChain_spec`: a chain is read back, and its pages are free then.
* `writeChain_spec`: bytes are written to a chain of fresh pages.
-/

namespace EventIndex

open Binary

/-- The largest number of pages of a file. It is counted with 32 bits, and the number of each page fits a
link. -/
def maxPages : Nat := 4294967295

/-- The pages `ps` hold `bytes`, each beginning with the link to the next one. -/
inductive Disk.Chain (d : Disk) : Nat → List Nat → List UInt8 → Prop
  | nil : d.Chain noPage [] []
  | cons {p next : Nat} {ps : List Nat} {piece rest : List UInt8} (hp : p ≠ noPage)
      (hlt : p < maxPages) (hpage : d.pages p = some (littleEndian 4 next ++ piece))
      (hrest : d.Chain next ps rest) : d.Chain p (p :: ps) (piece ++ rest)

namespace Disk.Chain

variable {d d' : Disk} {head : Nat} {ps : List Nat} {bytes : List UInt8}

theorem head_lt (h : d.Chain head ps bytes) : head < 256 ^ 4 := by
  cases h with
  | nil => decide
  | cons hp hlt => exact Nat.lt_trans hlt (by decide)

theorem head_ne_noPage (h : d.Chain head ps bytes) (hne : bytes ≠ []) : head ≠ noPage := by
  cases h with
  | nil => exact absurd rfl hne
  | cons hp => exact hp

/-- Every page of a chain can be read. -/
theorem readable (h : d.Chain head ps bytes) : ∀ p ∈ ps, ∃ payload, d.pages p = some payload := by
  induction h with
  | nil => simp
  | cons hp hlt hpage hrest ih =>
    intro q hq
    rcases List.mem_cons.mp hq with rfl | hq
    · exact ⟨_, hpage⟩
    · exact ih q hq

/-- A chain depends on its own pages alone. -/
theorem keep (h : d.Chain head ps bytes) (hk : d.Keeps d' ps) : d'.Chain head ps bytes := by
  induction h with
  | nil => exact .nil
  | cons hp hlt hpage hrest ih =>
    exact .cons hp hlt (hk _ List.mem_cons_self _ hpage)
      (ih (hk.mono fun q hq => List.mem_cons_of_mem _ hq))

end Disk.Chain

namespace Store

variable {f : PageFile} {rest : List Nat}

/-! ## Reading -/

/-- The induction is on the chain. Giving a page back changes what is free, not what pages hold, so
the chain is followed on a disk `d` of which only the pages matter. -/
theorem readChainWithin_spec {d : Disk} {head : Nat} {ps : List Nat} {bytes : List UInt8}
    (h : d.Chain head ps bytes) {fuel : Nat} (hfuel : ps.length ≤ fuel) (hf : f.Sound)
    (hd : f.disk.pages = d.pages) :
    ∃ f', readChainWithin fuel head f = .ok (some bytes) f' ∧ f'.Sound ∧
      f'.disk = { f.disk with free := ps.reverse ++ f.disk.free } := by
  induction h generalizing f fuel with
  | nil =>
    refine ⟨f, ?_, hf, rfl⟩
    unfold readChainWithin
    rfl
  | @cons p next ps piece rest hp hlt hpage hrest ih =>
    obtain ⟨fuel, rfl⟩ : ∃ n, fuel = n + 1 := ⟨fuel - 1, by simp at hfuel; omega⟩
    -- the page is read and given back, and the chain goes on from its link
    obtain ⟨f₁, hread, hf₁, hd₁⟩ := PageFile.read_spec hf (hd ▸ hpage)
    obtain ⟨f₂, hrelease, hf₂, hd₂⟩ := PageFile.release_spec hf₁ hp
    have hpages₂ : f₂.disk.pages = f.disk.pages := by rw [hd₂, hd₁]
    obtain ⟨f₃, hgo, hf₃, hd₃⟩ := ih (Nat.le_of_succ_le_succ hfuel) hf₂ (hpages₂.trans hd)
    have hlen : ¬ (littleEndian 4 next ++ piece).length < 4 := by simp
    have hnext : numberAt (littleEndian 4 next ++ piece) 0 4 = next :=
      numberAt_zero_append hrest.head_lt piece
    have hpiece : (littleEndian 4 next ++ piece).drop 4 = piece :=
      List.drop_left' (length_littleEndian 4 next)
    refine ⟨f₃, ?_, hf₃, ?_⟩
    · unfold readChainWithin
      rw [if_neg hp]
      dsimp only
      rw [Act.bind_ok hread, if_neg hlen, Act.bind_ok hrelease, hnext, Act.bind_ok hgo]
      dsimp only
      rw [hpiece]
      rfl
    · rw [hd₃, hd₂, hd₁, List.reverse_cons, List.append_assoc]
      rfl

/-- A chain without repetition is read back, and its pages are given back, the last one first. -/
theorem readChain_spec {head : Nat} {ps : List Nat} {bytes : List UInt8} (hf : f.Sound)
    (hnodup : ps.Nodup) (h : f.disk.Chain head ps bytes) :
    ∃ f', readChain head f = .ok bytes f' ∧ f'.Sound ∧
      f'.disk = { f.disk with free := ps.reverse ++ f.disk.free } := by
  have hsub : ps ⊆ List.range f.wholePages := by
    intro p hp
    obtain ⟨payload, hpage⟩ := h.readable p hp
    exact List.mem_range.mpr (PageFile.lt_wholePages hf hpage)
  have hlen : ps.length ≤ chainBound f := by
    have hle := hnodup.length_le_of_subset hsub
    rw [List.length_range] at hle
    exact Nat.le_trans (Nat.le_succ_of_le hle) (Nat.le_mul_of_pos_right _ (Nat.succ_pos _))
  obtain ⟨f', hread, hf', hdisk⟩ := readChainWithin_spec h hlen hf rfl
  refine ⟨f', ?_, hf', hdisk⟩
  have hget : (get : Act PageFile PageFile) f = .ok f f := rfl
  unfold readChain
  rw [Act.bind_ok hget, Act.bind_ok hread]
  rfl

/-! ## Writing -/

theorem piecesOf_spec {size : Nat} (hsize : 0 < size) {fuel : Nat} {bytes : List UInt8}
    (hfuel : bytes.length ≤ fuel) :
    (piecesOf size fuel bytes).flatten = bytes ∧ ∀ piece ∈ piecesOf size fuel bytes,
      piece.length ≤ size := by
  induction fuel generalizing bytes with
  | zero =>
    have hnil : bytes = [] := List.length_eq_zero_iff.mp (Nat.le_zero.mp hfuel)
    simp [piecesOf, hnil]
  | succ fuel ih =>
    cases bytes with
    | nil => simp [piecesOf]
    | cons b bs =>
      have hdrop : ((b :: bs).drop size).length ≤ fuel := by
        simp only [List.length_drop, List.length_cons] at hfuel ⊢
        omega
      obtain ⟨hflat, hle⟩ := ih hdrop
      refine ⟨?_, ?_⟩
      · simp only [piecesOf, List.flatten_cons, hflat]
        exact List.take_append_drop size (b :: bs)
      · intro piece hpiece
        simp only [piecesOf, List.mem_cons] at hpiece
        rcases hpiece with rfl | hpiece
        · exact List.length_take_le _ _
        · exact hle piece hpiece

theorem allocateFor_spec (hf : f.Sound) (pieces : List (List UInt8)) :
    ∃ ids f', allocateFor pieces f = .ok ids f' ∧ f'.Sound ∧ ids.length = pieces.length ∧
      f.disk.Exchange f'.disk [] ids := by
  induction pieces generalizing f with
  | nil => exact ⟨[], f, rfl, hf, rfl, .refl _ _⟩
  | cons piece pieces ih =>
    obtain ⟨id, f₁, hid, hf₁, hx₁, -⟩ := PageFile.allocate_spec hf
    obtain ⟨ids, f₂, hids, hf₂, hlen, hx₂⟩ := ih hf₁
    refine ⟨id :: ids, f₂, ?_, hf₂, by simp [hlen], ?_⟩
    · simp only [allocateFor]
      rw [Act.bind_ok hid, Act.bind_ok hids]
      rfl
    · have hframe : f₁.disk.Exchange f₂.disk [id] (ids ++ [id]) := hx₂.frame [id]
      exact (hx₁.trans hframe).perm (.refl _) (List.perm_append_singleton id ids)

/-- Each page keeps its piece while the pages after it are written, because no page is in use
twice. -/
theorem writePieces_spec {ids : List Nat} {pieces : List (List UInt8)} (hf : f.Sound)
    (hown : f.disk.Owned (ids ++ rest)) (hlen : ids.length = pieces.length)
    (hsize : ∀ piece ∈ pieces, piece.length + 4 ≤ f.disk.capacity) :
    ∃ f', writePieces ids pieces f = .ok () f' ∧ f'.Sound ∧ f.disk.Exchange f'.disk ids ids ∧
      (f'.disk.pageCount ≤ maxPages → f'.disk.Chain (ids.headD noPage) ids pieces.flatten) := by
  induction ids generalizing f pieces rest with
  | nil =>
    have hnil : pieces = [] := List.length_eq_zero_iff.mp hlen.symm
    subst hnil
    exact ⟨f, rfl, hf, .refl _ _, fun _ => .nil⟩
  | cons id ids ih =>
    cases pieces with
    | nil => cases hlen
    | cons piece pieces =>
      have hid : id ≠ noPage := hown.ne_noPage (by simp)
      have hfit : (littleEndian 4 (ids.headD noPage) ++ piece).length ≤ f.disk.capacity := by
        have hpiece := hsize piece List.mem_cons_self
        rw [List.length_append, length_littleEndian]
        omega
      obtain ⟨f₁, hwrite, hf₁, hpage, hx₁⟩ := PageFile.write_spec hf hid hfit
      -- the other pages of the chain, with this one among the bystanders
      have hperm : (id :: ids ++ rest).Perm (ids ++ ([id] ++ rest)) := by
        have hmiddle : (ids ++ id :: rest).Perm (id :: (ids ++ rest)) := List.perm_middle
        simpa using hmiddle.symm
      have hown₁ : f₁.disk.Owned (ids ++ ([id] ++ rest)) := (hx₁.owned (ids ++ rest) hown).perm hperm
      have hsize₁ : ∀ piece ∈ pieces, piece.length + 4 ≤ f₁.disk.capacity := by
        intro q hq
        rw [hx₁.capacity_eq]
        exact hsize q (List.mem_cons_of_mem _ hq)
      obtain ⟨f₂, hgo, hf₂, hx₂, hchain⟩ := ih hf₁ hown₁ (Nat.succ.inj hlen) hsize₁
      refine ⟨f₂, ?_, hf₂, ?_, fun hroom => ?_⟩
      · simp only [writePieces]
        rw [Act.bind_ok hwrite]
        exact hgo
      · have hframe : f₁.disk.Exchange f₂.disk (id :: ids) (id :: ids) :=
          (hx₂.frame [id]).perm (List.perm_append_singleton id ids)
            (List.perm_append_singleton id ids)
        exact (hx₁.frame ids).trans hframe
      · have hkept : f₂.disk.pages id = some (littleEndian 4 (ids.headD noPage) ++ piece) :=
          hx₂.kept _ hown₁ id (by simp) _ hpage
        have hlt : id < maxPages := by
          have hb := hx₁.owned (ids ++ rest) hown |>.bounds (p := id) (by simp)
          have hle := hx₂.pageCount_le
          omega
        exact .cons hid hlt hkept (hchain hroom)

/-- A byte string lies in a chain of fresh pages. -/
theorem writeChain_spec (hf : f.Sound) (hown : f.disk.Owned rest) (bytes : List UInt8) :
    ∃ head ps f', writeChain bytes f = .ok head f' ∧ f'.Sound ∧ f.disk.Exchange f'.disk [] ps ∧
      (f'.disk.pageCount ≤ maxPages → f'.disk.Chain head ps bytes) := by
  obtain ⟨hmin, -⟩ := hf.capacity_bounds
  have hcap : 0 < f.payloadCapacity - 4 := by
    show 0 < f.disk.capacity - 4
    omega
  obtain ⟨hflat, hle⟩ := piecesOf_spec hcap (Nat.le_refl bytes.length)
  obtain ⟨ids, f₁, hids, hf₁, hlen, hx₁⟩ :=
    allocateFor_spec hf (piecesOf (f.payloadCapacity - 4) bytes.length bytes)
  -- each piece leaves room for the link in front of it
  have hsize : ∀ piece ∈ piecesOf (f.payloadCapacity - 4) bytes.length bytes,
      piece.length + 4 ≤ f₁.disk.capacity := by
    intro piece hpiece
    have h1 : piece.length ≤ f.disk.capacity - 4 := hle piece hpiece
    rw [hx₁.capacity_eq]
    omega
  obtain ⟨f₂, hwrite, hf₂, hx₂, hchain⟩ :=
    writePieces_spec hf₁ (hx₁.owned rest hown) hlen hsize
  refine ⟨ids.headD noPage, ids, f₂, ?_, hf₂, hx₁.trans hx₂, fun hroom => hflat ▸ hchain hroom⟩
  have hget : (get : Act PageFile PageFile) f = .ok f f := rfl
  unfold writeChain
  rw [Act.bind_ok hget, Act.bind_ok hids, Act.bind_ok hwrite]
  rfl

end Store

end EventIndex
