import EventIndex.Index.Set
import EventIndex.Proofs.Growth
import EventIndex.Proofs.Store.Saving
import EventIndex.Proofs.Table

/-! # Slots

A set keeps the descriptors of its discarded lists on pages of its own, several to a page.
`HasSlot` says which descriptor is in the slot of a value. `writeSlot_spec` puts one there, on a
fresh page if need be, and leaves the slots of all other values as they are; `readSlot_spec` reads it.

Main results:

* `slot_places_apart`: no two values share a slot.
* `readSlot_spec`: a slot is read as it was written.
* `writeSlot_spec`: one slot is written, and the others stay.
-/

namespace EventIndex

/-- The number of slots on a page. -/
def Disk.slots (d : Disk) : Nat := max (d.capacity / Descriptor.byteSize) 1

/-- The part of a byte string that a slot takes. -/
def slotBytes (bytes : List UInt8) (place : Nat) : List UInt8 :=
  (bytes.drop place).take Descriptor.byteSize

theorem Disk.slots_pos (d : Disk) : 0 < d.slots := Nat.le_max_right _ _

/-- The slots of a page are within its capacity. -/
theorem PageFile.Sound.slots_le {f : PageFile} (hf : f.Sound) :
    f.disk.slots * Descriptor.byteSize ≤ f.disk.capacity := by
  obtain ⟨hmin, -⟩ := hf.capacity_bounds
  have hone : 1 ≤ f.disk.capacity / Descriptor.byteSize :=
    (Nat.le_div_iff_mul_le (by decide)).mpr (by simp only [Descriptor.byteSize]; omega)
  rw [Disk.slots, Nat.max_eq_left hone]
  exact Nat.div_mul_le_self _ _

theorem Disk.Exchange.slots_eq {d d' : Disk} {before after : List Nat}
    (h : d.Exchange d' before after) : d'.slots = d.slots := by
  rw [Disk.slots, h.capacity_eq, Disk.slots]

namespace IndexSet

variable {set : IndexSet} {d d' : Disk} {s : Over IndexSet} {value : ValueId} {x : Descriptor}
  {rest : List Nat}

/-- The pages of the slots. -/
def slotPageList (set : IndexSet) : List Nat := set.slotPages.toList.map Prod.snd

/-- Every slot page is filled up with slots. -/
def SlotsLieOn (set : IndexSet) (d : Disk) : Prop :=
  ∀ (number page : Nat), set.slotPages[number]? = some page →
    ∃ payload, d.pages page = some payload ∧ payload.length = d.slots * Descriptor.byteSize

/-- The slot of a value holds a descriptor. -/
def HasSlot (set : IndexSet) (d : Disk) (value : ValueId) (x : Descriptor) : Prop :=
  ∃ (page : Nat) (payload : List UInt8),
    set.slotPages[value.toNat / d.slots]? = some page ∧ d.pages page = some payload ∧
      slotBytes payload (value.toNat % d.slots * Descriptor.byteSize) = x.toBytes

theorem mem_slotPageList {number page : Nat} (h : set.slotPages[number]? = some page) :
    page ∈ set.slotPageList :=
  List.mem_map_of_mem (f := Prod.snd) (Std.HashMap.mem_toList_iff_getElem?_eq_some.mpr h)

/-- Slot pages that are kept stay filled up with slots. -/
theorem SlotsLieOn.keep (h : set.SlotsLieOn d) (hcap : d'.capacity = d.capacity)
    (hk : d.Keeps d' set.slotPageList) : set.SlotsLieOn d' := by
  intro number page hpage
  obtain ⟨payload, hheld, hlen⟩ := h number page hpage
  refine ⟨payload, hk _ (mem_slotPageList hpage) _ hheld, ?_⟩
  rw [hlen, Disk.slots, Disk.slots, hcap]

/-- A slot on a page that is kept holds what it held. -/
theorem HasSlot.keep (h : set.HasSlot d value x) (hcap : d'.capacity = d.capacity)
    (hk : d.Keeps d' set.slotPageList) : set.HasSlot d' value x := by
  obtain ⟨page, payload, hpage, hheld, hbytes⟩ := h
  have hslots : d'.slots = d.slots := by rw [Disk.slots, hcap, Disk.slots]
  exact ⟨page, payload, hslots ▸ hpage, hk _ (mem_slotPageList hpage) _ hheld, hslots ▸ hbytes⟩

/-! ## Bytes -/

/-- A slot lies within its page. -/
theorem slot_place_le (d : Disk) (value : ValueId) :
    value.toNat % d.slots * Descriptor.byteSize + Descriptor.byteSize ≤
      d.slots * Descriptor.byteSize := by
  have hlt : value.toNat % d.slots < d.slots := Nat.mod_lt _ d.slots_pos
  rw [← Nat.succ_mul]
  exact Nat.mul_le_mul_right _ hlt

variable {bytes part : List UInt8} {place : Nat}

theorem length_splice (hpart : part.length = Descriptor.byteSize)
    (h : place + Descriptor.byteSize ≤ bytes.length) :
    (splice bytes place part).length = bytes.length := by
  simp only [splice, List.length_append, List.length_take, List.length_drop, hpart]
  omega

/-- The bytes that were put into a slot are found there. -/
theorem slotBytes_splice_self (hpart : part.length = Descriptor.byteSize)
    (h : place + Descriptor.byteSize ≤ bytes.length) :
    slotBytes (splice bytes place part) place = part := by
  have htake : (bytes.take place).length = place := by
    rw [List.length_take]
    omega
  rw [slotBytes, splice, List.append_assoc, List.drop_left' htake]
  exact List.take_left' hpart

/-- The bytes of another slot stay. -/
theorem slotBytes_splice_of_ne (hpart : part.length = Descriptor.byteSize)
    (h : place + Descriptor.byteSize ≤ bytes.length) {other : Nat}
    (hapart : other + Descriptor.byteSize ≤ place ∨ place + Descriptor.byteSize ≤ other) :
    slotBytes (splice bytes place part) other = slotBytes bytes other := by
  refine List.ext_getElem? fun i => ?_
  simp only [slotBytes, splice, List.getElem?_take, List.getElem?_drop, List.getElem?_append,
    List.length_append, List.length_take, hpart]
  split
  · rcases hapart with hapart | hapart
    · rw [if_pos (by omega), if_pos (by omega), if_pos (by omega)]
    · rw [if_neg (by omega)]
      congr 1
      omega
  · rfl

/-- Two values with the same slot page and the same place on it are one. -/
theorem slot_places_apart {n : Nat} {v w : ValueId} (hne : w ≠ v)
    (hpage : w.toNat / n = v.toNat / n) :
    w.toNat % n * Descriptor.byteSize + Descriptor.byteSize ≤
        v.toNat % n * Descriptor.byteSize ∨
      v.toNat % n * Descriptor.byteSize + Descriptor.byteSize ≤
        w.toNat % n * Descriptor.byteSize := by
  have hmod : w.toNat % n ≠ v.toNat % n := by
    intro hmod
    refine hne (UInt32.toNat_inj.mp ?_)
    rw [← Nat.div_add_mod w.toNat n, ← Nat.div_add_mod v.toNat n, hpage, hmod]
  rw [← Nat.succ_mul, ← Nat.succ_mul]
  rcases Nat.lt_or_gt_of_ne hmod with hlt | hgt
  · exact .inl (Nat.mul_le_mul_right _ hlt)
  · exact .inr (Nat.mul_le_mul_right _ hgt)

/-! ## Reading a slot -/

/-- A slot is read as it was written, and nothing changes on the disk. -/
theorem readSlot_spec (hf : s.pages.Sound) (hlie : s.item.SlotsLieOn s.pages.disk)
    (h : s.item.HasSlot s.pages.disk value x) :
    ∃ f, readSlot value s = .ok x ⟨s.item, f⟩ ∧ f.Sound ∧ f.disk = s.pages.disk := by
  obtain ⟨page, payload, hpage, hheld, hbytes⟩ := h
  obtain ⟨payload', hheld', hlen⟩ := hlie _ _ hpage
  rw [hheld, Option.some.injEq] at hheld'
  subst hheld'
  obtain ⟨f, hread, hf', hd⟩ := PageFile.read_spec hf hheld
  -- every slot page is filled up with slots, so that the slot lies on it
  have hplace := slot_place_le s.pages.disk value
  refine ⟨f, ?_, hf', hd⟩
  have hcurrent : (Over.current : Act (Over IndexSet) IndexSet) s = .ok s.item s := rfl
  have hget : (get : Act (Over IndexSet) (Over IndexSet)) s = .ok s s := rfl
  have hfound : s.item.slotPages[(slotOf s.pages value).1]? = some page := hpage
  unfold readSlot
  rw [Act.bind_ok hcurrent, Act.bind_ok hget]
  dsimp only
  rw [hfound]
  dsimp only
  rw [Act.bind_ok (Over.onPages_ok (c := s.item) hread), if_neg]
  · have hdesc : Descriptor.ofBytes (slotBytes payload (slotOf s.pages value).2) = .ok x := by
      rw [← Descriptor.ofBytes_toBytes x, ← hbytes]
      rfl
    show Act.ofExcept (Descriptor.ofBytes (slotBytes payload (slotOf s.pages value).2)) _ = _
    rw [hdesc]
    rfl
  · rw [hlen]
    exact Nat.not_lt.mpr hplace

/-! ## Writing a slot -/

/-- The set with other slot pages. -/
def withSlotPages (set : IndexSet) (m : Std.HashMap Nat PageId) : IndexSet :=
  { set with slotPages := m }

/-- The page of a slot is one that is there, or a fresh one. -/
theorem slotPage_spec (number : Nat) (hf : s.pages.Sound) (hlie : s.item.SlotsLieOn s.pages.disk) :
    ∃ (page : Nat) (bytes : List UInt8) (m : Std.HashMap Nat PageId) (f : PageFile),
      slotPage number s = .ok (page, bytes) ⟨s.item.withSlotPages m, f⟩ ∧ f.Sound ∧
      s.pages.disk.Exchange f.disk s.item.slotPageList (s.item.withSlotPages m).slotPageList ∧
      f.disk.pages = s.pages.disk.pages ∧ m[number]? = some page ∧
      (∀ n, n ≠ number → m[n]? = s.item.slotPages[n]?) ∧
      bytes.length = s.pages.disk.slots * Descriptor.byteSize ∧
      ∀ other, s.item.slotPages[number]? = some other →
        page = other ∧ s.pages.disk.pages page = some bytes := by
  have hcurrent : (Over.current : Act (Over IndexSet) IndexSet) s = .ok s.item s := rfl
  unfold slotPage
  rw [Act.bind_ok hcurrent]
  cases hfind : s.item.slotPages[number]? with
  | some page =>
    -- the page is there already
    obtain ⟨bytes, hheld, hlen⟩ := hlie _ _ hfind
    obtain ⟨f, hread, hf', hd⟩ := PageFile.read_spec hf hheld
    refine ⟨page, bytes, s.item.slotPages, f, ?_, hf', ?_, by rw [hd], hfind, fun _ _ => rfl, hlen, ?_⟩
    · dsimp only
      rw [Act.bind_ok (Over.onPages_ok (c := s.item) hread)]
      rfl
    · rw [hd]
      exact .refl _ _
    · intro other hother
      exact ⟨Option.some.inj hother, hheld⟩
  | none =>
    -- a new page has the room of all its slots, and nothing in them
    obtain ⟨page, f, halloc, hf', hx, hpages⟩ := PageFile.allocate_spec hf
    let m := s.item.slotPages.insert number page
    refine ⟨page, List.replicate (slotsPerPage f * Descriptor.byteSize) 0, m, f, ?_, hf', ?_, hpages,
      Std.HashMap.getElem?_insert_self, ?_, ?_, ?_⟩
    · dsimp only
      rw [Act.bind_ok (Over.onPages_ok (c := s.item) halloc)]
      rfl
    · have hperm : (s.item.withSlotPages m).slotPageList.Perm (page :: s.item.slotPageList) := by
        have hall := (Table.toList_insert (m := s.item.slotPages) (k := number) (v := page)).map
          Prod.snd
        rw [← Table.toList_of_none hfind] at hall
        exact hall
      exact (hx.frame s.item.slotPageList).perm (.refl _) hperm.symm
    · intro n hn
      rw [Std.HashMap.getElem?_insert, if_neg (by simpa using Ne.symm hn)]
    · rw [List.length_replicate, ← hx.slots_eq]
      rfl
    · intro other hother
      cases hother

/-- The page of the slot is written, with the descriptor in its place, and the other slot pages are
bystanders. -/
theorem writeSlot_page (value : ValueId) (x : Descriptor) (hf : s.pages.Sound)
    (hown : s.pages.disk.Owned (s.item.slotPageList ++ rest))
    (hlie : s.item.SlotsLieOn s.pages.disk) (number place : Nat)
    (hslotOf : slotOf s.pages value = (number, place)) :
    ∃ (page : PageId) (bytes : List UInt8) (m : Std.HashMap Nat PageId) (f : PageFile),
      writeSlot value x s = .ok () ⟨s.item.withSlotPages m, f⟩ ∧ f.Sound ∧
      s.pages.disk.Exchange f.disk s.item.slotPageList (s.item.withSlotPages m).slotPageList ∧
      m[number]? = some page ∧ f.disk.pages page = some (splice bytes place x.toBytes) ∧
      bytes.length = s.pages.disk.slots * Descriptor.byteSize ∧
      (∀ other, s.item.slotPages[number]? = some other →
        page = other ∧ s.pages.disk.pages page = some bytes) ∧
      ∀ n, n ≠ number → m[n]? = s.item.slotPages[n]? ∧ ∀ (p : PageId) payload, m[n]? = some p →
        s.pages.disk.pages p = some payload → f.disk.pages p = some payload := by
  obtain ⟨page, bytes, m, f₁, hslot, hf₁, hx₁, hpages, hpage, hothers, hlen, hold⟩ :=
    slotPage_spec number hf hlie
  have hplace : place + Descriptor.byteSize ≤ bytes.length := by
    rw [hlen, ← show (slotOf s.pages value).2 = place by rw [hslotOf]]
    exact slot_place_le s.pages.disk value
  -- the page of the slot is one of the slot pages, and the others are bystanders
  have hperm : (s.item.withSlotPages m).slotPageList.Perm
      ([page] ++ (Table.others m number).map Prod.snd) :=
    (Table.toList_of_some hpage).map Prod.snd
  have hown₁ : f₁.disk.Owned ([page] ++ ((Table.others m number).map Prod.snd ++ rest)) := by
    rw [← List.append_assoc]
    exact (hx₁.owned _ hown).perm (hperm.append_right rest)
  -- a slot is overwritten in its place, so that the page gets no longer
  have hfit : (splice bytes place x.toBytes).length ≤ f₁.disk.capacity := by
    rw [length_splice x.length_toBytes hplace, hlen, hx₁.capacity_eq]
    exact hf.slots_le
  obtain ⟨f₂, hwrite, hf₂, hheld, hx₂⟩ :=
    PageFile.write_spec hf₁ (hown₁.ne_noPage (p := page) (by simp)) hfit
  refine ⟨page, bytes, m, f₂, ?_, hf₂, hx₁.trans ((hx₂.frame _).perm hperm.symm hperm.symm), hpage,
    hheld, hlen, hold, fun n hn => ⟨hothers n hn, fun p payload hp hpayload => ?_⟩⟩
  · have hget : (get : Act (Over IndexSet) (Over IndexSet)) s = .ok s s := rfl
    unfold writeSlot
    rw [Act.bind_ok hget, hslotOf]
    dsimp only
    rw [Act.bind_ok hslot]
    exact Over.onPages_ok hwrite
  · have hmem : p ∈ (Table.others m number).map Prod.snd :=
      List.mem_map_of_mem (f := Prod.snd) (Table.mem_others_of_getElem? hp hn)
    exact hx₂.kept _ hown₁ p (List.mem_append_left _ hmem) payload (hpages ▸ hpayload)

/-- The slot of the value holds the descriptor, and the slots of all others what they held. -/
theorem writeSlot_spec (value : ValueId) (x : Descriptor) (hf : s.pages.Sound)
    (hown : s.pages.disk.Owned (s.item.slotPageList ++ rest))
    (hlie : s.item.SlotsLieOn s.pages.disk) :
    ∃ (m : Std.HashMap Nat PageId) (f : PageFile),
      writeSlot value x s = .ok () ⟨s.item.withSlotPages m, f⟩ ∧ f.Sound ∧
      s.pages.disk.Exchange f.disk s.item.slotPageList (s.item.withSlotPages m).slotPageList ∧
      (s.item.withSlotPages m).SlotsLieOn f.disk ∧
      (s.item.withSlotPages m).HasSlot f.disk value x ∧
      ∀ w y, w ≠ value → s.item.HasSlot s.pages.disk w y →
        (s.item.withSlotPages m).HasSlot f.disk w y := by
  let number := value.toNat / s.pages.disk.slots
  let place := value.toNat % s.pages.disk.slots * Descriptor.byteSize
  obtain ⟨page, bytes, m, f, hrun, hf', hx, hpage, hheld, hlen, hold, hothers⟩ :=
    writeSlot_page value x hf hown hlie number place rfl
  have hplace : place + Descriptor.byteSize ≤ bytes.length := hlen ▸ slot_place_le _ value
  have hpart : x.toBytes.length = Descriptor.byteSize := x.length_toBytes
  have hslots : f.disk.slots = s.pages.disk.slots := hx.slots_eq
  refine ⟨m, f, hrun, hf', hx, fun n p hp => ?_, ?_, ?_⟩
  · rw [hslots]
    by_cases hn : n = number
    · have hpp : p = page := by
        have hmn : m[n]? = some p := hp
        rw [hn, hpage, Option.some.injEq] at hmn
        exact hmn.symm
      rw [hpp]
      exact ⟨_, hheld, (length_splice hpart hplace).trans hlen⟩
    · obtain ⟨hsame, hkept⟩ := hothers n hn
      obtain ⟨payload, hpayload, hl⟩ := hlie n p (hsame ▸ hp)
      exact ⟨payload, hkept p payload hp hpayload, hl⟩
  · refine ⟨page, _, hslots ▸ hpage, hheld, ?_⟩
    rw [hslots]
    exact slotBytes_splice_self hpart hplace
  · rintro w y hw ⟨p, payload, hp, hpayload, hbytes⟩
    by_cases hn : w.toNat / s.pages.disk.slots = number
    · -- another slot of the same page
      obtain ⟨hpp, hsame⟩ := hold p (hn ▸ hp)
      subst hpp
      rw [hpayload, Option.some.injEq] at hsame
      refine ⟨page, _, ?_, hheld, ?_⟩
      · rw [hslots, hn]
        exact hpage
      · rw [hslots, slotBytes_splice_of_ne hpart hplace (slot_places_apart hw hn), ← hsame]
        exact hbytes
    · -- a slot of another page
      obtain ⟨hsame, hkept⟩ := hothers _ hn
      refine ⟨p, payload, ?_, hkept p payload (hsame.trans hp) hpayload, hslots ▸ hbytes⟩
      rw [hslots]
      exact hsame.trans hp

end IndexSet

end EventIndex
