import EventIndex.Cursor.Filter
import EventIndex.Proofs.Cursor.Listed

/-! # Seeking step by step

A cursor that can only step seeks in two loops, one back and one forward (`Cursor.walk`). `Strides` is
such a loop without a bound on its steps, `strideBy` the same loop with one. A loop that ends by itself
after `n` steps is not cut off by a bound above `n`.

`Stepping` is what a `Mimicry` asks of steps and looks, and says nothing of seeking. The loop back ends at
the place sought if the gap was behind it, and does nothing otherwise; the loop forward then makes up for
what is missing. Together they end where a direct seek does (`walk_seeks_directly`), so a stepping cursor
with this way of seeking is a cursor like any other (`Stepping.mimicry_walking`).

Main results:

* `strides_back`, `strides_forward`: how far each loop goes.
* `Stepping.walks`: both together, and the number of steps.
* `Stepping.mimicry_walking`: a cursor that seeks so shows its list.
-/

namespace EventIndex

theorem Walking.reads_lift {C α : Type} {ds : Disks} {act : Act (Over C) α} {w : Walking C} {c' : C}
    {a : α} (h : Over.Reads ds act w.inner a c') : Over.Reads ds (lift act) w a ⟨c'⟩ :=
  .through h

namespace Cursor

/-! ## Loops of steps -/

section Loops

variable {σ : Type} {look step : Act σ (Option Tuple)} {stop : Tuple → Prop}

/-- The loop comes to an end after `n` steps: as long as the look finds a tuple that does not stop it, it
makes a step. -/
inductive Strides (look step : Act σ (Option Tuple)) (stop : Tuple → Prop) : Nat → σ → σ → Prop
  | rest {s s' : σ} {found : Option Tuple} :
      look s = .ok found s' → (∀ t ∈ found, stop t) → Strides look step stop 0 s s'
  | stride {n : Nat} {s s₁ s₂ s' : σ} {t : Tuple} {passed : Option Tuple} :
      look s = .ok (some t) s₁ → ¬ stop t → step s₁ = .ok passed s₂ →
      Strides look step stop n s₂ s' → Strides look step stop (n + 1) s s'

/-- The loop with at most `fuel` looks. -/
def strideBy (look step : Act σ (Option Tuple)) (stop : Tuple → Prop) [DecidablePred stop] :
    (fuel : Nat) → Act σ Unit
  | 0 => return ()
  | fuel + 1 => do
    match ← look with
    | none => return ()
    | some t =>
      if stop t then return ()
      let _ ← step
      strideBy look step stop fuel

variable {C : Type} {ds : Disks}

/-- Over every page file with one of the disks, the loop comes to an end after `n` steps, changes the value
from `c` to `c'` and leaves the disk alone. A greater bound does not cut it off. -/
def StridesReading (ds : Disks) (look step : Act (Over C) (Option Tuple)) (stop : Tuple → Prop)
    [DecidablePred stop] (n : Nat) (c c' : C) : Prop :=
  ∀ f : PageFile, f.Sound → ds f.disk →
    ∃ f', Strides look step stop n ⟨c, f⟩ ⟨c', f'⟩ ∧
      (∀ fuel, n < fuel → strideBy look step stop fuel ⟨c, f⟩ = .ok () ⟨c', f'⟩) ∧
      f'.Sound ∧ f'.disk = f.disk

variable {look step : Act (Over C) (Option Tuple)} [DecidablePred stop] {c c' c₁ c₂ : C}
  {found passed : Option Tuple} {t : Tuple} {n : Nat}

/-- A loop that is stopped at once makes no step. -/
theorem StridesReading.rest (hlook : Over.Reads ds look c found c') (hstop : ∀ t ∈ found, stop t) :
    StridesReading ds look step stop 0 c c' := by
  intro f hf hd
  obtain ⟨f', hrun, hf', hd'⟩ := hlook f hf hd
  refine ⟨f', .rest hrun hstop, fun fuel hfuel => ?_, hf', hd'⟩
  obtain ⟨fuel, rfl⟩ := Nat.exists_eq_add_of_lt hfuel
  rw [strideBy, Act.bind_ok hrun]
  cases found with
  | none => rfl
  | some t =>
    simp only [hstop t rfl, if_true]
    rfl

/-- A loop that is not stopped makes a step and goes on. -/
theorem StridesReading.stride (hlook : Over.Reads ds look c (some t) c₁) (hgo : ¬ stop t)
    (hstep : Over.Reads ds step c₁ passed c₂) (hrest : StridesReading ds look step stop n c₂ c') :
    StridesReading ds look step stop (n + 1) c c' := by
  intro f hf hd
  obtain ⟨f₁, hrun₁, hf₁, hd₁⟩ := hlook f hf hd
  obtain ⟨f₂, hrun₂, hf₂, hd₂⟩ := hstep f₁ hf₁ (hd₁.symm ▸ hd)
  obtain ⟨f₃, hends, hrun₃, hf₃, hd₃⟩ := hrest f₂ hf₂ (hd₂.symm ▸ hd₁.symm ▸ hd)
  refine ⟨f₃, .stride hrun₁ hgo hrun₂ hends, fun fuel hfuel => ?_, hf₃, hd₃.trans (hd₂.trans hd₁)⟩
  obtain ⟨fuel, rfl⟩ := Nat.exists_eq_add_of_lt hfuel
  rw [strideBy, Act.bind_ok hrun₁]
  simp only [hgo, if_false]
  rw [Act.bind_ok hrun₂]
  exact hrun₃ _ (by omega)

end Loops

/-! ## Stepping through a list -/

variable {C : Type} [Cursor C] {ds : Disks} {c c' : C} {ts : List Tuple} {p q : Nat} {key : UInt64}
  {R : C → List Tuple → Nat → Prop}

/-- Cursors and lists with a place go together, whatever is done to them but seeking. -/
structure Stepping (ds : Disks) (R : C → List Tuple → Nat → Prop) : Prop where
  sorted : ∀ {c ts p}, R c ts p → Sorted ts
  inside : ∀ {c ts p}, R c ts p → p ≤ ts.length
  extent : ∀ {c ts p}, R c ts p → ts.length ≤ extent c
  peekNext : ∀ {c ts p}, R c ts p → ∃ c', Over.Reads ds peekNext c ts[p]? c' ∧ R c' ts p
  peekPrevious : ∀ {c ts p}, R c ts p →
    ∃ c', Over.Reads ds peekPrevious c (before ts p) c' ∧ R c' ts p
  next : ∀ {c ts p}, R c ts p →
    ∃ c', Over.Reads ds next c ts[p]? c' ∧ R c' ts (min (p + 1) ts.length)
  previous : ∀ {c ts p}, R c ts p →
    ∃ c', Over.Reads ds previous c (before ts p) c' ∧ R c' ts (p - 1)

theorem Mimicry.stepping (h : Mimicry ds R) : Stepping ds R where
  sorted := h.sorted
  inside := h.inside
  extent := h.extent
  peekNext := h.peekNext
  peekPrevious := h.peekPrevious
  next := h.next
  previous := h.previous

/-! ## The two loops of a walk -/

/-- The loop back is one with a bound. -/
theorem walkBack_eq (key : UInt64) (fuel : Nat) :
    walkBack (C := C) key fuel = strideBy peekPrevious previous (·.key < key) fuel := by
  induction fuel with
  | zero => rfl
  | succ fuel ih =>
    rw [strideBy, ← ih]
    rfl

/-- The loop forward is one with a bound. -/
theorem walkForward_eq (key : UInt64) (fuel : Nat) :
    walkForward (C := C) key fuel = strideBy peekNext next (key ≤ ·.key) fuel := by
  induction fuel with
  | zero => rfl
  | succ fuel ih =>
    rw [strideBy, ← ih]
    rfl

namespace Stepping

/-- The loop back passes the tuples before the gap that are not below the key. -/
theorem strides_back (hR : Stepping ds R) (h : R c ts p) (key : UInt64) :
    ∃ c', StridesReading ds Cursor.peekPrevious Cursor.previous (·.key < key) (p - place ts key) c c' ∧
      R c' ts (min p (place ts key)) := by
  -- each step takes the gap back by one, and the lesser keys before it stay where they are
  induction p generalizing c with
  | zero =>
    obtain ⟨c₁, hlook, h₁⟩ := hR.peekPrevious h
    rw [Nat.zero_sub, Nat.zero_min]
    exact ⟨c₁, .rest hlook (fun _ ht => nomatch ht), h₁⟩
  | succ p ih =>
    obtain ⟨c₁, hlook, h₁⟩ := hR.peekPrevious h
    obtain ⟨t, hget⟩ : ∃ t, ts[p]? = some t := ⟨_, List.getElem?_eq_getElem (hR.inside h)⟩
    have hplace : p < place ts key ↔ t.key < key := lt_place_iff (hR.sorted h) hget
    rw [before_succ, hget] at hlook
    by_cases hkey : t.key < key
    · -- the gap is not behind the place sought
      have hle : p + 1 ≤ place ts key := hplace.mpr hkey
      rw [Nat.sub_eq_zero_of_le hle, Nat.min_eq_left hle]
      exact ⟨c₁, .rest hlook (by simpa using hkey), h₁⟩
    · obtain ⟨c₂, hstep, h₂⟩ := hR.previous h₁
      obtain ⟨c₃, hrest, h₃⟩ := ih h₂
      have hle : place ts key ≤ p := Nat.le_of_not_lt fun hlt => hkey (hplace.mp hlt)
      rw [Nat.succ_sub hle, Nat.min_eq_right (Nat.le_succ_of_le hle)]
      rw [Nat.min_eq_right hle] at h₃
      exact ⟨c₃, .stride hlook hkey hstep hrest, h₃⟩

/-- The loop forward passes the tuples after the gap that are below the key. -/
theorem strides_forward (hR : Stepping ds R) (h : R c ts p) (key : UInt64) :
    ∃ c', StridesReading ds Cursor.peekNext Cursor.next (key ≤ ·.key) (place ts key - p) c c' ∧
      R c' ts (max p (place ts key)) := by
  -- the induction is on the tuples that are still to be passed
  obtain ⟨n, hn⟩ : ∃ n, n = place ts key - p := ⟨_, rfl⟩
  induction n generalizing c p with
  | zero =>
    obtain ⟨c₁, hlook, h₁⟩ := hR.peekNext h
    have hle : place ts key ≤ p := Nat.le_of_sub_eq_zero hn.symm
    rw [← hn, Nat.max_eq_left hle]
    refine ⟨c₁, .rest hlook fun t ht => ?_, h₁⟩
    rw [← UInt64.not_lt, ← lt_place_iff (hR.sorted h) ht]
    exact Nat.not_lt.mpr hle
  | succ n ih =>
    obtain ⟨c₁, hlook, h₁⟩ := hR.peekNext h
    have hlt : p < place ts key := by omega
    have hinside : p < ts.length := Nat.lt_of_lt_of_le hlt (place_le ts key)
    have hkey := (lt_place_iff (hR.sorted h) (List.getElem?_eq_getElem hinside)).mp hlt
    rw [List.getElem?_eq_getElem hinside] at hlook
    obtain ⟨c₂, hstep, h₂⟩ := hR.next h₁
    rw [Nat.min_eq_left hinside] at h₂
    obtain ⟨c₃, hrest, h₃⟩ := ih h₂ (by omega)
    rw [← hn, Nat.max_eq_right (Nat.le_of_lt hlt)]
    rw [show place ts key - (p + 1) = n by omega] at hrest
    rw [Nat.max_eq_right hlt] at h₃
    exact ⟨c₃, .stride hlook (UInt64.not_le.mpr hkey) hstep hrest, h₃⟩

end Stepping

/-! ## Walks -/

/-- Seeking step by step comes to an end after some steps back and some forward. -/
def Walks (key : UInt64) (back forward : Nat) (s s' : Over C) : Prop :=
  ∃ s₁, Strides peekPrevious previous (·.key < key) back s s₁ ∧
    Strides peekNext next (key ≤ ·.key) forward s₁ s'

/-- Over every page file with one of the disks, seeking a key step by step comes to an end by itself after as
many steps as lie between two places, changes the value from `c` to `c'` and leaves the disk alone. The bound
of `Cursor.walk` does not cut it off. -/
def WalkReads (ds : Disks) (key : UInt64) (p q : Nat) (c c' : C) : Prop :=
  ∀ f : PageFile, f.Sound → ds f.disk →
    ∃ f', Walks key (p - q) (q - p) ⟨c, f⟩ ⟨c', f'⟩ ∧ walk key ⟨c, f⟩ = .ok () ⟨c', f'⟩ ∧
      f'.Sound ∧ f'.disk = f.disk

/-- A walk that comes to an end by itself is one that reads. -/
theorem WalkReads.reads (h : WalkReads ds key p q c c') : Over.Reads ds (walk key) c () c' := by
  intro f hf hd
  obtain ⟨f', -, hrun, hf', hd'⟩ := h f hf hd
  exact ⟨f', hrun, hf', hd'⟩

namespace Stepping

/-- A walk ends at the place sought, and makes as many steps as lie between. -/
theorem walks (hR : Stepping ds R) (h : R c ts p) (key : UInt64) :
    ∃ c', WalkReads ds key p (place ts key) c c' ∧ R c' ts (place ts key) := by
  have hinside := hR.inside h
  have hextent := hR.extent h
  have hplace := place_le ts key
  obtain ⟨c₁, hback, h₁⟩ := hR.strides_back h key
  obtain ⟨c₂, hforward, h₂⟩ := hR.strides_forward h₁ key
  -- the loop back never goes beyond the place sought, so the loop forward ends right there
  rw [Nat.max_eq_right (Nat.min_le_right _ _)] at h₂
  rw [show place ts key - min p (place ts key) = place ts key - p by omega] at hforward
  refine ⟨c₂, fun f hf hd => ?_, h₂⟩
  obtain ⟨f₁, hends₁, hrun₁, hf₁, hd₁⟩ := hback f hf hd
  obtain ⟨f₂, hends₂, hrun₂, hf₂, hd₂⟩ := hforward f₁ hf₁ (hd₁.symm ▸ hd)
  refine ⟨f₂, ⟨_, hends₁, hends₂⟩, ?_, hf₂, hd₂.trans hd₁⟩
  -- the bound lets each loop make all steps that the list has room for
  show (walkBack key (Cursor.extent c + 1) >>= fun _ => walkForward key (Cursor.extent c + 1))
    ⟨c, f⟩ = _
  rw [walkBack_eq, walkForward_eq, Act.bind_ok (hrun₁ _ (by omega))]
  exact hrun₂ _ (by omega)

/-- A stepping cursor that seeks by walking is a cursor. -/
theorem mimicry_walking (hR : Stepping ds R) :
    Mimicry ds fun (w : Walking C) ts p => R w.inner ts p where
  sorted := hR.sorted
  inside := hR.inside
  extent := hR.extent
  peekNext h :=
    let ⟨c', hrun, h'⟩ := hR.peekNext h
    ⟨⟨c'⟩, Walking.reads_lift hrun, h'⟩
  peekPrevious h :=
    let ⟨c', hrun, h'⟩ := hR.peekPrevious h
    ⟨⟨c'⟩, Walking.reads_lift hrun, h'⟩
  next h :=
    let ⟨c', hrun, h'⟩ := hR.next h
    ⟨⟨c'⟩, Walking.reads_lift hrun, h'⟩
  previous h :=
    let ⟨c', hrun, h'⟩ := hR.previous h
    ⟨⟨c'⟩, Walking.reads_lift hrun, h'⟩
  seek key h :=
    let ⟨c', hwalk, h'⟩ := hR.walks h key
    ⟨⟨c'⟩, Walking.reads_lift hwalk.reads, h'⟩

end Stepping

/-- From every place of a list, a cursor that steps through the list seeks a key step by step and comes to
an end where a direct seek does: behind all lesser keys and in front of all others. So it answers all moves
as the cursor in memory does, when it seeks in no other way.

`Stepping` asks nothing of the cursor's own way to seek. The numbers of steps are those of `Walking`,
which has a bound on its loops and never reaches it. -/
theorem walk_seeks_directly (hR : Stepping ds R) (h : R c ts p) (key : UInt64) :
    (∃ c' q, WalkReads ds key p q c c' ∧ R c' ts q ∧
      (∀ pages, seek key (⟨Listed.standing ts p, pages⟩ : Over Listed) =
        .ok () ⟨Listed.standing ts q, pages⟩) ∧
      q ≤ ts.length ∧ (∀ t ∈ ts.take q, t.key < key) ∧ ∀ t ∈ ts.drop q, key ≤ t.key) ∧
    Opens ds (pure (⟨c⟩ : Walking C)) ts p := by
  have hsorted := hR.sorted h
  obtain ⟨c', hwalk, h'⟩ := hR.walks h key
  refine ⟨⟨c', place ts key, hwalk, h', fun pages => ?_, place_le ts key,
    fun t => key_lt_of_mem_take_place hsorted, fun t => le_key_of_mem_drop_place hsorted⟩, ?_⟩
  · rw [← Listed.sought_standing hsorted]
    rfl
  · exact .of_shows (.pure _) (hR.mimicry_walking.shows h)

/-- The gap lies within a run of key 4, which is sought: two steps back, none forward. -/
theorem walk_seeks_directly_small :
    WalkReads (fun _ => True) 4 3 1
      (Listed.standing [.tagged 2 .target, .tagged 4 .target, .tagged 4 .value, .tagged 4 .any,
        .tagged 6 .value] 3)
      (Listed.standing [.tagged 2 .target, .tagged 4 .target, .tagged 4 .value, .tagged 4 .any,
        .tagged 6 .value] 1) := by
  intro f hf hd
  have hsorted : Sorted [.tagged 2 .target, .tagged 4 .target, .tagged 4 .value, .tagged 4 .any,
    .tagged 6 .value] := by decide
  obtain ⟨⟨_, q, hwalk, ⟨rfl, -, -⟩, hdirect, -⟩, -⟩ :=
    walk_seeks_directly (p := 3) (Listed.mimicry fun _ => True).stepping ⟨rfl, hsorted, by decide⟩ 4
  have hsought := congrArg Over.item (EStateM.Result.ok.inj (hdirect f)).2
  rw [show (Listed.standing _ 3).sought 4 = _ from Listed.sought_standing hsorted 4] at hsought
  have hq : 1 = q := congrArg Listed.position hsought
  subst hq
  exact hwalk f hf hd

end Cursor

end EventIndex
