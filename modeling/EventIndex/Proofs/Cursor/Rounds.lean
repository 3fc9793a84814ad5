import EventIndex.Cursor.Basic
import EventIndex.Proofs.Cursor.Reading

/-! # Searches in rounds

A merged cursor searches round by round: a round either ends the search with an answer or gives the
goal of the next one. `Ends` is such a search without a bound on its rounds, `searchBy` the same search
with one. If each round takes the goal closer to the answer, then the search ends by itself, and a bound
that the distance does not reach cuts nothing off (`ends_of_closer`).
-/

namespace EventIndex

namespace Cursor

variable {σ : Type} {round : UInt64 → Act σ (Option Tuple ⊕ UInt64)}

/-- Searches in at most `fuel` rounds. -/
def searchBy (round : UInt64 → Act σ (Option Tuple ⊕ UInt64)) :
    (fuel : Nat) → (goal : UInt64) → Act σ (Option Tuple)
  | 0, _ => return none
  | fuel + 1, goal => do
    match ← round goal with
    | .inl answer => return answer
    | .inr goal => searchBy round fuel goal

/-- The search for a goal comes to an end, with an answer and the state it leaves. -/
inductive Ends (round : UInt64 → Act σ (Option Tuple ⊕ UInt64)) :
    UInt64 → σ → Option Tuple → σ → Prop
  | stop {goal : UInt64} {s s' : σ} {answer : Option Tuple} :
      round goal s = .ok (.inl answer) s' → Ends round goal s answer s'
  | again {goal goal' : UInt64} {s s' s'' : σ} {answer : Option Tuple} :
      round goal s = .ok (.inr goal') s' → Ends round goal' s' answer s'' →
      Ends round goal s answer s''

variable {C : Type} {ds : Disks}

/-- Over every page file with one of the disks, the search for a goal comes to an end with the answer,
changes the value from `c` to `c'` and leaves the disk alone. It takes at most `rounds` rounds. -/
def EndsReading (ds : Disks) (round : UInt64 → Act (Over C) (Option Tuple ⊕ UInt64)) (goal : UInt64)
    (rounds : Nat) (c : C) (answer : Option Tuple) (c' : C) : Prop :=
  ∀ f : PageFile, f.Sound → ds f.disk →
    ∃ f', Ends round goal ⟨c, f⟩ answer ⟨c', f'⟩ ∧
      (∀ fuel, rounds ≤ fuel → searchBy round fuel goal ⟨c, f⟩ = .ok answer ⟨c', f'⟩) ∧
      f'.Sound ∧ f'.disk = f.disk

variable {round : UInt64 → Act (Over C) (Option Tuple ⊕ UInt64)} {goal goal' : UInt64}
  {c c' c'' : C} {answer : Option Tuple} {rounds : Nat}

theorem EndsReading.reads (h : EndsReading ds round goal rounds c answer c') {fuel : Nat}
    (hfuel : rounds ≤ fuel) : Over.Reads ds (searchBy round fuel goal) c answer c' := by
  intro f hf hd
  obtain ⟨f', -, hrun, hf', hd'⟩ := h f hf hd
  exact ⟨f', hrun fuel hfuel, hf', hd'⟩

theorem EndsReading.stop (h : Over.Reads ds (round goal) c (.inl answer) c') :
    EndsReading ds round goal (rounds + 1) c answer c' := by
  intro f hf hd
  obtain ⟨f', hrun, hf', hd'⟩ := h f hf hd
  refine ⟨f', .stop hrun, fun fuel hfuel => ?_, hf', hd'⟩
  obtain ⟨fuel, rfl⟩ := Nat.exists_eq_add_of_le' hfuel
  exact Act.bind_ok hrun

theorem EndsReading.again (h : Over.Reads ds (round goal) c (.inr goal') c')
    (hrest : EndsReading ds round goal' rounds c' answer c'') :
    EndsReading ds round goal (rounds + 1) c answer c'' := by
  intro f hf hd
  obtain ⟨f₁, hrun₁, hf₁, hd₁⟩ := h f hf hd
  obtain ⟨f₂, hends, hrun₂, hf₂, hd₂⟩ := hrest f₁ hf₁ (hd₁.symm ▸ hd)
  refine ⟨f₂, .again hrun₁ hends, fun fuel hfuel => ?_, hf₂, hd₂.trans hd₁⟩
  obtain ⟨fuel, rfl⟩ := Nat.exists_eq_add_of_le' hfuel
  exact (Act.bind_ok hrun₁).trans (hrun₂ (fuel + rounds) (Nat.le_add_left _ _))

/-- A search whose rounds come ever closer to the answer ends with it. -/
theorem ends_of_closer {Fits : C → Prop} {distance : UInt64 → Nat} {answer : UInt64 → Option Tuple}
    (hround : ∀ {c} goal, Fits c → ∃ c' r, Over.Reads ds (round goal) c r c' ∧ Fits c' ∧
      match r with
      | .inl found => answer goal = found
      | .inr goal' => answer goal = answer goal' ∧ distance goal' < distance goal)
    (hrounds : distance goal < rounds) (h : Fits c) :
    ∃ c', EndsReading ds round goal rounds c (answer goal) c' ∧ Fits c' := by
  induction rounds generalizing c goal with
  | zero => omega
  | succ rounds ih =>
    obtain ⟨c₁, r, hrun, h₁, hr⟩ := hround goal h
    cases r with
    | inl found => exact ⟨c₁, hr ▸ .stop hrun, h₁⟩
    | inr goal' =>
      obtain ⟨hsame, hcloser⟩ := hr
      obtain ⟨c₂, hends, h₂⟩ := ih (show distance goal' < rounds by omega) h₁
      exact ⟨c₂, hsame ▸ .again hrun hends, h₂⟩

end Cursor

end EventIndex
