import EventIndex.Page.Over
import Mathlib.Data.Nat.Basic
import Mathlib.Order.RelClasses

/-! # Running actions

An action of the index runs on a state and may fail, and so does a query with errors of its own.
`bind_ok` and `bind_error` run the first step of a sequence and go on from there; all specifications
are used through them. `outcome` is what comes of an action and `after` the state that it leaves
behind in any case.

`Leads` says of a preorder of states that all runs of an action go along it, whether they fail or not.
`Grows` is the case of a measure that no run makes smaller, and `Adds` says besides by how much a run
can make it larger at most.

Each of the three comes with the same rules, which follow the way actions are put together:

* `pure`, `throw`, `get` and `ofExcept` change nothing, so they are free;
* `bind` puts two steps one after another, and `Adds.bind` adds their costs;
* `check` is a guard that may fail before the rest is run;
* `onPart` and `Over.grows_onPages` carry a judgement over to a state of which only a part is run on.

A proof that something grows is therefore one term that reads like the action itself.
-/

namespace EventIndex

namespace Act

variable {ε σ α β : Type} {x : EStateM ε σ α} {f : α → EStateM ε σ β} {s s' : σ} {a : α} {e : ε}

/-- Once the first step has succeeded, the rest runs on the state that it left. -/
theorem bind_ok (h : x s = .ok a s') : (x >>= f) s = f a s' := by
  show EStateM.bind x f s = _
  simp only [EStateM.bind, h]

/-- Where the first step fails, the rest is not run, and the error is that of the first step. -/
theorem bind_error (h : x s = .error e s') : (x >>= f) s = .error e s' := by
  show EStateM.bind x f s = _
  simp only [EStateM.bind, h]

/-! ## What is left behind -/

/-- The state after an action, whatever comes of it. -/
def after (x : EStateM ε σ α) (s : σ) : σ :=
  match x s with
  | .ok _ s' => s'
  | .error _ s' => s'

/-- The answer of an action, or its error. -/
def outcome (x : EStateM ε σ α) (s : σ) : Except ε α :=
  match x s with
  | .ok a _ => .ok a
  | .error e _ => .error e

theorem outcome_ok (h : x s = .ok a s') : outcome x s = .ok a := by
  simp only [outcome, h]

theorem outcome_error (h : x s = .error e s') : outcome x s = .error e := by
  simp only [outcome, h]

/-- An outcome does not name the state, but `after` does, so that a run is known from both of them. -/
theorem eq_of_outcome_error (h : outcome x s = .error e) : x s = .error e (after x s) := by
  unfold outcome at h
  unfold after
  cases hx : x s with
  | ok a s' =>
    rw [hx] at h
    cases h
  | error e' s' =>
    rw [hx] at h
    cases h
    rfl

/-- Runs that are equal leave the same behind. This carries a fact about what an action comes to over to the
action itself. -/
theorem after_congr {y : EStateM ε σ α} {t : σ} (h : x s = y t) : after x s = after y t := by
  simp only [after, h]

theorem outcome_congr {y : EStateM ε σ α} {t : σ} (h : x s = y t) : outcome x s = outcome y t := by
  simp only [outcome, h]

theorem after_ok (h : x s = .ok a s') : after x s = s' := by
  simp only [after, h]

theorem after_modify (f : σ → σ) (s : σ) : after (modify f : EStateM ε σ PUnit) s = f s := rfl

theorem after_error (h : x s = .error e s') : after x s = s' := by
  simp only [after, h]

/-- The successful first step of a sequence is out of the way. -/
theorem after_bind_ok (h : x s = .ok a s') : after (x >>= f) s = after (f a) s' := by
  simp only [after, bind_ok h]

/-- What the first step leaves behind, whether it fails or not, is where the rest begins or all ends. -/
theorem after_bind_of {P Q : σ → Prop} (hx : P (after x s)) (herror : ∀ s', P s' → Q s')
    (hf : ∀ a s', P s' → Q (after (f a) s')) : Q (after (x >>= f) s) := by
  cases h : x s with
  | ok a s' =>
    rw [after_ok h] at hx
    rw [after_bind_ok h]
    exact hf a s' hx
  | error e s' =>
    rw [after_error h] at hx
    rw [after_error (bind_error h)]
    exact herror s' hx

/-- The answer may be dropped for another. -/
theorem after_bind_pure {b : β} (x : EStateM ε σ α) (s : σ) :
    after (x >>= fun _ => (pure b : EStateM ε σ β)) s = after x s := by
  cases h : x s with
  | ok a s' =>
    rw [after_bind_ok h, after_ok h]
    rfl
  | error e s' => rw [after_error (bind_error h), after_error h]

/-- The answer that is put in place of the old one is told when the action succeeds, and its error
otherwise. -/
theorem outcome_bind_pure {b : β} (x : EStateM ε σ α) (s : σ) :
    outcome (x >>= fun _ => (pure b : EStateM ε σ β)) s = (outcome x s).map fun _ => b := by
  cases h : x s with
  | ok a s' =>
    rw [outcome_ok h]
    exact outcome_ok (bind_ok h)
  | error e s' =>
    rw [outcome_error h]
    exact outcome_error (bind_error h)

/-! ## Where runs lead -/

/-- Every run of the action ends in a state that is related to the one that it began in. -/
def Leads (R : σ → σ → Prop) (x : EStateM ε σ α) : Prop := ∀ s, R s (after x s)

/-- A preorder of what is seen of a state is one of the states. -/
instance {τ : Type} {R : σ → σ → Prop} [IsPreorder σ R] (part : τ → σ) :
    IsPreorder τ (InvImage R part) where
  refl t := refl (part t)

namespace Leads

variable {R : σ → σ → Prop}

theorem pure [Std.Refl R] (a : α) : Leads R (pure a : EStateM ε σ α) := fun s => refl s

theorem throw [Std.Refl R] (e : ε) : Leads R (throw e : EStateM ε σ α) := fun s => refl s

theorem get [Std.Refl R] : Leads R (get : EStateM ε σ σ) := fun s => refl s

theorem ofExcept [Std.Refl R] (r : Except StorageError α) : Leads R (ofExcept r : Act σ α) := by
  cases r with
  | ok a => exact pure a
  | error e => exact throw e

theorem bind [IsTrans σ R] (hx : Leads R x) (hf : ∀ a, Leads R (f a)) : Leads R (x >>= f) :=
  fun s => after_bind_of (hx s) (fun _ h => h) fun a s' h => IsTrans.trans _ _ _ h (hf a s')

/-- Both branches of a choice go along the relation, whichever is taken. -/
theorem ite {c : Prop} [Decidable c] {x y : EStateM ε σ α} (hx : Leads R x) (hy : Leads R y) :
    Leads R (if c then x else y) := by
  split
  · exact hx
  · exact hy

/-- An action that does to a part of its state what another one does to it. -/
theorem onPart {τ : Type} {y : EStateM ε τ β} (hx : Leads R x) (part : τ → σ)
    (hpart : ∀ t, part (after y t) = after x (part t)) : Leads (InvImage R part) y := by
  intro t
  show R (part t) (part (after y t))
  rw [hpart]
  exact hx (part t)

/-- A check that may fail, and what comes after it. -/
theorem check [Std.Refl R] {c : Prop} [Decidable c] {rest : PUnit → EStateM ε σ α}
    (h : Leads R (rest ⟨⟩)) :
    Leads R (if c then (throwThe ε e : EStateM ε σ PUnit) >>= rest else rest ⟨⟩) := by
  split
  · exact fun s => refl s
  · exact h

end Leads

/-! ## Measures that never shrink -/

/-- No run of the action makes the measure smaller. -/
def Grows (size : σ → Nat) (x : EStateM ε σ α) : Prop := ∀ s, size s ≤ size (after x s)

/-- Growing is going along the order of the measure, so that all rules for `Leads` are rules for `Grows`. -/
theorem grows_iff {size : σ → Nat} : Grows size x ↔ Leads (InvImage (· ≤ ·) size) x := Iff.rfl

namespace Grows

variable {size : σ → Nat}

theorem pure (a : α) : Grows size (pure a : EStateM ε σ α) := grows_iff.mpr (.pure a)

theorem throw (e : ε) : Grows size (throw e : EStateM ε σ α) := grows_iff.mpr (.throw e)

theorem get : Grows size (get : EStateM ε σ σ) := grows_iff.mpr .get

theorem ofExcept (r : Except StorageError α) : Grows size (ofExcept r : Act σ α) :=
  grows_iff.mpr (.ofExcept r)

theorem bind (hx : Grows size x) (hf : ∀ a, Grows size (f a)) : Grows size (x >>= f) :=
  grows_iff.mpr (.bind hx hf)

/-- Two ways to go on after an action that may have nothing to hand out. -/
theorem bind_option {x : EStateM ε σ (Option α)} {f : Option α → EStateM ε σ β} (hx : Grows size x)
    (hnone : Grows size (f none)) (hsome : ∀ a, Grows size (f (some a))) : Grows size (x >>= f) :=
  hx.bind fun o => match o with
    | none => hnone
    | some a => hsome a

theorem ite {c : Prop} [Decidable c] {x y : EStateM ε σ α} (hx : Grows size x) (hy : Grows size y) :
    Grows size (if c then x else y) := grows_iff.mpr (.ite hx hy)

/-- An action that runs another one on a part of its state, and leaves the size to that part. -/
theorem onPart {τ : Type} {size' : τ → Nat} {y : EStateM ε τ β} (hx : Grows size x) (part : τ → σ)
    (hbefore : ∀ t, size' t = size (part t))
    (hafter : ∀ t, size' (after y t) = size (after x (part t))) : Grows size' y := by
  intro t
  rw [hbefore, hafter]
  exact hx (part t)

/-- What is left in the end bounds what the first step left. -/
theorem after_le_bind (hf : ∀ a, Grows size (f a)) (s : σ) :
    size (after x s) ≤ size (after (x >>= f) s) := by
  cases h : x s with
  | ok a s' =>
    rw [after_ok h, after_bind_ok h]
    exact hf a s'
  | error e s' => exact Nat.le_of_eq (by rw [after_error h, after_error (bind_error h)])

/-- A check that may fail, and what comes after it. -/
theorem check {c : Prop} [Decidable c] {rest : PUnit → EStateM ε σ α} (h : Grows size (rest ⟨⟩)) :
    Grows size (if c then (throwThe ε e : EStateM ε σ PUnit) >>= rest else rest ⟨⟩) :=
  grows_iff.mpr (.check h)

end Grows

/-! ## Measures that grow by so much -/

/-- No run of the action makes the measure smaller, and none makes it larger by more than `n`. -/
def Adds (size : σ → Nat) (n : Nat) (x : EStateM ε σ α) : Prop :=
  ∀ s, size s ≤ size (after x s) ∧ size (after x s) ≤ size s + n

namespace Adds

variable {size : σ → Nat} {m n : Nat}

/-- A bound from above is one from below as well: no run takes anything away. -/
theorem grows (h : Adds size n x) : Grows size x := fun s => (h s).1

/-- A bound may be given away. -/
theorem mono (h : Adds size m x) (hle : m ≤ n) : Adds size n x := fun s =>
  ⟨(h s).1, Nat.le_trans (h s).2 (Nat.add_le_add_left hle _)⟩

theorem pure (a : α) : Adds size 0 (pure a : EStateM ε σ α) := fun _ => ⟨Nat.le_refl _, Nat.le_refl _⟩

theorem throw (e : ε) : Adds size 0 (throw e : EStateM ε σ α) := fun _ =>
  ⟨Nat.le_refl _, Nat.le_refl _⟩

theorem get : Adds size 0 (get : EStateM ε σ σ) := fun _ => ⟨Nat.le_refl _, Nat.le_refl _⟩

theorem ofExcept (r : Except StorageError α) : Adds size 0 (ofExcept r : Act σ α) := by
  cases r with
  | ok a => exact pure a
  | error e => exact throw e

/-- What two steps add is what the one and the other add. -/
theorem bind (hx : Adds size m x) (hf : ∀ a, Adds size n (f a)) : Adds size (m + n) (x >>= f) := by
  intro s
  refine after_bind_of (P := fun t => size s ≤ size t ∧ size t ≤ size s + m)
    (Q := fun t => size s ≤ size t ∧ size t ≤ size s + (m + n)) (hx s) ?_ ?_
  · rintro t ⟨hlow, hhigh⟩
    exact ⟨hlow, by omega⟩
  · rintro a t ⟨hlow, hhigh⟩
    obtain ⟨hlow', hhigh'⟩ := hf a t
    exact ⟨Nat.le_trans hlow hlow', by omega⟩

/-- A check that may fail, and what comes after it. -/
theorem check {c : Prop} [Decidable c] {rest : PUnit → EStateM ε σ α} (h : Adds size n (rest ⟨⟩)) :
    Adds size n (if c then (throwThe ε e : EStateM ε σ PUnit) >>= rest else rest ⟨⟩) := by
  split
  · exact fun s => ⟨Nat.le_refl _, Nat.le_add_right _ _⟩
  · exact h

end Adds

end Act

/-! ## Actions over a page file -/

namespace Over

variable {C α : Type} {act : Act PageFile α} {c : C} {f f' : PageFile} {a : α} {e : StorageError}

/-- An action on the pages leaves the value above them alone, and so it does when it fails. -/
theorem onPages_ok (h : act f = .ok a f') :
    onPages act (⟨c, f⟩ : Over C) = .ok a ⟨c, f'⟩ := by
  simp only [onPages, h]

theorem onPages_error (h : act f = .error e f') :
    onPages act (⟨c, f⟩ : Over C) = .error e ⟨c, f'⟩ := by
  simp only [onPages, h]

/-- What is left of the pages is what the action left. -/
theorem pages_after_onPages (act : Act PageFile α) (s : Over C) :
    (Act.after (onPages act) s).pages = Act.after act s.pages := by
  cases hact : act s.pages with
  | ok a f' => rw [Act.after_ok (onPages_ok (c := s.item) hact), Act.after_ok hact]
  | error e f' => rw [Act.after_error (onPages_error (c := s.item) hact), Act.after_error hact]

/-- A measure of the page file is one of the value over it. -/
theorem grows_onPages {size : PageFile → Nat} (h : Act.Grows size act) :
    Act.Grows (fun s : Over C => size s.pages) (onPages act) := fun s => by
  simpa only [pages_after_onPages] using h s.pages

/-- What an action adds to the page file it adds below a value too. -/
theorem adds_onPages {size : PageFile → Nat} {n : Nat} (h : Act.Adds size n act) :
    Act.Adds (fun s : Over C => size s.pages) n (onPages act) := fun s => by
  simpa only [pages_after_onPages] using h s.pages

end Over

end EventIndex
