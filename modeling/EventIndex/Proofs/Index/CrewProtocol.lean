import Mathlib
import EventIndex.Proofs.Index.CrewProgress

/-! # The protocol of a crew

Whatever the order in which a crew takes its turns, its log keeps the protocol (`Runs.keeps_protocol`):
tasks are never refused, those of a group run one after the other in the order of their submission, and a
flush waits for all that was submitted before it and hands out the first error since the last one. A crew
that gets nothing new to do comes to rest, and then each task has run once. What a log calls running is
running the task on the state of the pool (`Accounts`).
-/

namespace EventIndex

namespace Crew

variable {τ σ : Type} {run : τ → Act σ Unit} {group : τ → Nat} {c : Crew τ σ} {log : List (Entry τ)}
  {workers : Nat} {state : σ}

/-- What a log tells of a crew that keeps the protocol. -/
structure KeepsProtocol (group : τ → Nat) (log : List (Entry τ)) : Prop where
  accepts : ∀ t error, .refused t error ∉ log
  /-- The tasks of a group run in the order of their submission, none of them twice. -/
  linesUp : ∀ g, LinesUp group g log
  /-- When a flush returns, what was submitted before it began has run, and its results are recorded. -/
  waits : ∀ before during error, before ++ .flushBegan :: during ++ [.flushEnded error] <+: log →
    ∀ g, submittedOf group g before <+:
      (recordedOf group g (before ++ .flushBegan :: during)).map Prod.fst
  /-- A flush returns the first error recorded since the last flush returned, if there is one. -/
  reports : ∀ before error, before ++ [.flushEnded error] <+: log →
    error = (errors (sinceFlush before)).head?
  /-- A flush returns an error if a task failed since the last flush returned that was submitted before
  this one began: as one of the first tasks of its group, as many as had been submitted then. -/
  tells : ∀ before during ranBefore ranAfter error i t e,
    before ++ .flushBegan :: during ++ [.flushEnded error] <+: log →
    before ++ .flushBegan :: during = ranBefore ++ .ran i t (some e) :: ranAfter →
    (∀ entry ∈ ranAfter, entry.endsFlush = false) →
    (ranOf group (group t) ranBefore).length < (submittedOf group (group t) before).length →
    ∃ first, error = some first

/-- Whatever the order of its turns, a crew keeps the protocol, and the state is what the tasks in its log
make of it. If nobody submits anything more and no other flush begins, then it goes on for a certain number
of turns, and then each task has run once and no flush is under way.

The first part is an invariant of single turns, and so are the accounts. The last part is no invariant:
it counts the turns that are left (`Outline.load`), of which every turn that brings no work takes one. -/
theorem Runs.keeps_protocol (h : Runs run group (start workers state) log c) :
    KeepsProtocol group log ∧ Accounts run ⟨Pool.start workers, state⟩ log c.staffed ∧
    ∃ load, ∀ log' c', Runs run group c log' c' → (∀ e ∈ log', e.bringsWork = false) →
      (log'.length < load ∧
        ∃ turn e c'', next run group turn c' = some (e, c'') ∧ e.bringsWork = false) ∨
      (log'.length = load ∧ c'.flushing = none ∧
        ∀ g, (ranOf group g (log ++ log')).map Prod.fst = submittedOf group g (log ++ log') ∧
          recordedOf group g (log ++ log') = ranOf group g (log ++ log')) := by
  refine ⟨?_, h.accounts, ?_⟩
  · constructor
    · exact h.not_refused
    · exact h.linesUp
    · -- what is said of a flush holds of the log up to its end, which is that of a run
      intro before during error hprefix g
      obtain ⟨_, hruns⟩ := h.of_prefix hprefix
      exact hruns.flush_waits ⟨during, by simp⟩ g
    · intro before error hprefix
      obtain ⟨_, hruns⟩ := h.of_prefix hprefix
      exact hruns.flush_reports
    · intro before during ranBefore ranAfter error i t e hprefix hran hsince hcovered
      obtain ⟨_, hruns⟩ := h.of_prefix hprefix
      exact hruns.flush_tells ⟨during, by simp⟩ hran hsince hcovered
  · -- the load is the number of turns that are left
    refine ⟨c.outline.load, ?_⟩
    intro log' c' h' hquiet
    rcases h.comes_to_rest h' hquiet with ⟨hlength, hrest⟩ | hmore
    · right
      refine ⟨hlength, hrest.flushing, ?_⟩
      intro g
      exact (h.trans h').all_ran (hrest.queue _) (hrest.hand _)
    · left
      exact hmore

/-! ## Two workers -/

/-- A task writes its number down; one of them fails. -/
def errand (t : Nat) : Act (List Nat) Unit := do
  modify (t :: ·)
  if t = 3 then throw (.pool "boom")

/-- Task 3 fails before the barrier of the first flush, and task 5 comes in behind it. A second flush
begins when all is done but task 5. -/
def errands : List (Turn Nat) :=
  [.submit 1, .submit 3, .submit 2, .work 1, .flush, .work 1, .flush, .flush, .submit 5, .work 0,
    .work 1, .work 0, .work 1, .work 0, .work 1, .work 0, .work 1, .work 1, .work 0, .work 1, .flush,
    .work 1, .flush, .flush, .work 1, .flush, .flush, .flush, .work 0, .work 0, .work 1, .flush,
    .work 1, .work 1, .flush, .flush]

/-- The first flush returns the error of task 3 and the second one returns none. -/
theorem keeps_protocol_small :
    ∃ log c, follow errand id errands (start 2 []) = some (log, c) ∧ KeepsProtocol id log ∧
      c.staffed.state = [5, 3, 2, 1] ∧ log.filter Entry.endsFlush = [.flushEnded (some (.pool "boom")), .flushEnded none] := by
  have hends : (follow errand id errands (start 2 [])).map
      (fun r => (r.2.staffed.state, r.1.filter Entry.endsFlush)) =
      some ([5, 3, 2, 1], [.flushEnded (some (.pool "boom")), .flushEnded none]) := by cbv
  obtain ⟨⟨log, c⟩, hfollow, hseen⟩ := Option.map_eq_some_iff.mp hends
  obtain ⟨hstate, hlog⟩ := Prod.mk.inj hseen
  exact ⟨log, c, hfollow, (Runs.of_follow hfollow).keeps_protocol.1, hstate, hlog⟩

end Crew

end EventIndex
