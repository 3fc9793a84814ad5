import EventIndex.Page.Over
import EventIndex.Proofs.Page.Disk

/-! # Actions that only read

What a reader does to a page file is to its cache and counters alone, and its answer depends on the
disk alone. `PageFile.Reads` says so of an action on the page file, `Over.Reads` of an action on a
value over it, which may change the value. Both go along with how actions are put together.

A reader may stay while the disk changes. Its answers are then the same on several disks, and both
notions are about any set of these.
-/

namespace EventIndex

/-- The disks that a reader may meet. -/
abbrev Disks := Disk → Prop

namespace PageFile

variable {α β : Type} {ds : Disks} {x : Act PageFile α} {f : α → Act PageFile β} {a : α} {b : β}

/-- On every page file with one of the disks, the action has the answer and leaves the disk alone. -/
def Reads (ds : Disks) (x : Act PageFile α) (a : α) : Prop :=
  ∀ f : PageFile, f.Sound → ds f.disk → ∃ f', x f = .ok a f' ∧ f'.Sound ∧ f'.disk = f.disk

namespace Reads

theorem pure (a : α) : Reads ds (pure a) a := fun f hf _ => ⟨f, rfl, hf, rfl⟩

/-- One reading action after another reads, with the answer of the second one. -/
theorem bind (hx : Reads ds x a) (hf : Reads ds (f a) b) : Reads ds (x >>= f) b := by
  intro p hp hd
  obtain ⟨p₁, hrun₁, hp₁, hd₁⟩ := hx p hp hd
  obtain ⟨p₂, hrun₂, hp₂, hd₂⟩ := hf p₁ hp₁ (hd₁.symm ▸ hd)
  exact ⟨p₂, (Act.bind_ok hrun₁).trans hrun₂, hp₂, hd₂.trans hd₁⟩

/-- An answer that is there already is read from any disk. -/
theorem ofExcept {r : Except StorageError α} (h : r = .ok a) : Reads ds (Act.ofExcept r) a := by
  rw [h]
  exact pure a

/-- A page is read with what it holds on each of the disks. -/
theorem page {id : PageId} {payload : List UInt8} (h : ∀ d, ds d → d.pages id = some payload) :
    Reads ds (read id) payload := fun f hf hd => read_spec hf (h f.disk hd)

/-- What an action reads is its outcome. -/
theorem outcome (hx : Reads ds x a) {f : PageFile} (hf : f.Sound) (hd : ds f.disk) :
    Act.outcome x f = .ok a := by
  obtain ⟨f', hrun, -, -⟩ := hx f hf hd
  exact Act.outcome_ok hrun

/-- An answer may be found for each disk by itself. -/
theorem of_each (h : ∀ d, ds d → Reads (· = d) x a) : Reads ds x a :=
  fun f hf hd => h f.disk hd f hf rfl

end Reads

end PageFile

namespace Over

variable {C D α β : Type} {ds : Disks} {c c' c'' : C} {x : Act (Over C) α} {f : α → Act (Over C) β}
  {a : α} {b : β}

/-- Over every page file with one of the disks, the action has the answer, changes the value from `c`
to `c'` and leaves the disk alone. -/
def Reads (ds : Disks) (x : Act (Over C) α) (c : C) (a : α) (c' : C) : Prop :=
  ∀ f : PageFile, f.Sound → ds f.disk →
    ∃ f', x ⟨c, f⟩ = .ok a ⟨c', f'⟩ ∧ f'.Sound ∧ f'.disk = f.disk

namespace Reads

theorem pure (c : C) (a : α) : Reads ds (pure a) c a c := fun f hf _ => ⟨f, rfl, hf, rfl⟩

/-- One reading action after another reads, each with the value that the one before left. -/
theorem bind (hx : Reads ds x c a c') (hf : Reads ds (f a) c' b c'') : Reads ds (x >>= f) c b c'' := by
  intro p hp hd
  obtain ⟨p₁, hrun₁, hp₁, hd₁⟩ := hx p hp hd
  obtain ⟨p₂, hrun₂, hp₂, hd₂⟩ := hf p₁ hp₁ (hd₁.symm ▸ hd)
  exact ⟨p₂, (Act.bind_ok hrun₁).trans hrun₂, hp₂, hd₂.trans hd₁⟩

theorem current (c : C) : Reads ds Over.current c c c := fun f hf _ => ⟨f, rfl, hf, rfl⟩

theorem replace (c c' : C) : Reads ds (Over.replace c') c () c' := fun f hf _ => ⟨f, rfl, hf, rfl⟩

/-- What is read over some disks is read over fewer of them. -/
theorem mono {ds' : Disks} (h : Reads ds x c a c') (hds : ∀ d, ds' d → ds d) : Reads ds' x c a c' :=
  fun f hf hd => h f hf (hds _ hd)

/-- What is read from the file leaves the value as it is. -/
theorem onPages {act : Act PageFile α} (h : PageFile.Reads ds act a) (c : C) :
    Reads ds (Over.onPages act) c a c := by
  intro f hf hd
  obtain ⟨f', hrun, hf', hd'⟩ := h f hf hd
  exact ⟨f', Over.onPages_ok hrun, hf', hd'⟩

/-- An action on a part reads what it reads by itself. -/
theorem through {part : D → C} {put : D → C → D} {e : D} (h : Reads ds x (part e) a c') :
    Reads ds (Over.through part put x) e a (put e c') := by
  intro f hf hd
  obtain ⟨f', hrun, hf', hd'⟩ := h f hf hd
  refine ⟨f', ?_, hf', hd'⟩
  simp only [Over.through, hrun]

end Reads

end Over

end EventIndex
