import EventIndex.Proofs.Index.Ingested

/-! # Timestamps in their list

Timestamps are added to their list and never taken away, so that the last flush after an event was
registered is enough for its timestamp: whatever is written and not flushed since, the engine has the
timestamps of all events (`Engine.Working.stamps_run`).
-/

namespace EventIndex

/-- Every event that was registered is followed by a flush. -/
def TimesFlushed (ops : List Operation) : Prop :=
  ∀ before time after, ops = before ++ .register time :: after → ∃ order, Operation.flush order ∈ after

theorem TimesFlushed.of_append {ops : List Operation} {op : Operation} (h : TimesFlushed (ops ++ [op]))
    (hop : ∀ order, op ≠ .flush order) : op.time? = none ∧ TimesFlushed ops := by
  constructor
  · cases op with
    | register time =>
      obtain ⟨order, hmem⟩ := h ops time [] rfl
      cases hmem
    | _ => rfl
  · intro before time after hsplit
    obtain ⟨order, hmem⟩ := h before time (after ++ [op]) (by rw [hsplit]; simp)
    rcases List.mem_append.mp hmem with hmem | hmem
    · exact ⟨order, hmem⟩
    · exact absurd (List.mem_singleton.mp hmem).symm (hop order)

/-! ## Timestamps are only added -/

theorem Book.stamps_prefix_perform (t : Task) (b : Book) :
    b.stamps <+: (Act.after (perform t) b).stamps := by
  cases t with
  | batch id entries =>
    obtain ⟨lists, hafter, -⟩ := after_batch id entries b
    exact hafter ▸ List.prefix_refl _
  | stamps times =>
    obtain ⟨stamps, hafter, hprefix⟩ := after_stamps times b
    rw [hafter]
    exact hprefix

namespace Ledger

variable {n : Nat} {kind? : SetId → Option Kind} {l : Ledger}

theorem stamps_prefix_work (l : Ledger) (i : Nat) :
    l.book.stamps <+: (l.staffed.work Book.perform i).state.stamps := by
  rcases Recorder.work_cases Book.perform l.staffed i with
    hwork | ⟨t, rest, -, hwork⟩ | ⟨rest, -, hwork⟩
  · rw [hwork]
    exact List.prefix_refl _
  · rw [hwork]
    exact Book.stamps_prefix_perform t l.book
  · rw [hwork]
    exact List.prefix_refl _

/-- Only workers change the lists. -/
theorem stamps_prefix_next (h : l.Sound kind?) (call : Call n) :
    l.book.stamps <+: (l.next call).book.stamps := by
  obtain ⟨l₁, hbegins, hends⟩ := next_steps h call
  rw [(hends.keeps (hbegins.sound h)).book_eq]
  cases hbegins with
  | work worker => exact stamps_prefix_work l worker
  | _ => exact List.prefix_refl _

theorem stamps_prefix_run (h : l.Sound kind?) (calls : List (Call n)) :
    l.book.stamps <+: (l.run calls).book.stamps := by
  induction calls generalizing l with
  | nil => exact List.prefix_refl _
  | cons call calls ih => exact (stamps_prefix_next h call).trans (ih (h.next call))

/-- All timestamps are in their list when none is missing there. -/
theorem Timed.stamps_prefix {times : List Tuple} (ht : l.Timed kind? times) :
    l.book.stamps <+: times := by
  rw [← ht.total_eq, Account.total, List.append_assoc]
  exact List.prefix_append _ _

end Ledger

/-! ## Runs -/

namespace Engine

variable {e : Engine} {c : Contents} {extra : List OwnerKey} {ops : List Operation}

/-- A run of operations is a run of calls. -/
theorem Working.recorder_run (hw : e.Working c extra) (ops : List Operation)
    (hroom : (e.run ops).pageCount ≤ maxPages) :
    (e.run ops).recorder = e.recorder.run (e.callsOf ops) := by
  induction ops generalizing e c extra with
  | nil => rfl
  | cons op ops ih =>
    obtain ⟨c₁, extra₁, hw₁, -⟩ := hw.next op (Nat.le_trans (pageCount_le_run _ ops) hroom)
    have hnext : (e.next op).recorder = e.recorder.run (op.calls e.recorder) := (hw.comesTo_act op).1
    rw [callsOf, Recorder.run_append, ← hnext]
    exact ih hw₁ hroom

/-- An engine has the timestamps of all events, as soon as they were flushed. -/
theorem Working.stamps_run (hw : e.Working c extra) (htimed : (e.recorder.ledger c).Timed kind? [])
    (hflushed : TimesFlushed ops) (hroom : (e.run ops).pageCount ≤ maxPages) :
    ((e.recorder.ledger c).run (e.callsOf ops)).book.stamps = (times ops).map .plain := by
  induction ops using List.reverseRecOn with
  | nil => exact List.prefix_nil.mp htimed.stamps_prefix
  | append_singleton ops op ih =>
    have htimed' := timed_callsOf htimed hw.ledger e (ops ++ [op])
    rw [run_concat] at hroom
    have hroom' := Nat.le_trans (pageCount_le_next _ op) hroom
    obtain ⟨c', extra', hw', hledger⟩ := hw.run ops hroom'
    have hcalls : e.callsOf (ops ++ [op]) = e.callsOf ops ++ op.calls (e.run ops).recorder := by
      rw [callsOf_append, callsOf, callsOf, List.append_nil]
    rw [hcalls, Ledger.run_append] at htimed' ⊢
    by_cases hop : ∃ order, op = .flush order
    · obtain ⟨order, rfl⟩ := hop
      rw [← hledger] at htimed' ⊢
      exact (hw'.rested_flush order hroom).stamps_eq.trans htimed'.total_eq
    · -- the timestamps that are there already are all
      obtain ⟨htime, hbefore⟩ := hflushed.of_append fun order heq => hop ⟨order, heq⟩
      have hsame : times (ops ++ [op]) = times ops := by
        rw [times_concat, htime, Option.toList_none, accepted, List.append_nil]
      have hstamps := ih hbefore hroom'
      have hgrows := Ledger.stamps_prefix_run (hw.ledger.run (e.callsOf ops))
        (op.calls (e.run ops).recorder)
      rw [hsame] at htimed' ⊢
      rw [hstamps] at hgrows
      exact (hgrows.eq_of_length_le htimed'.stamps_prefix.length_le).symm

end Engine

end EventIndex
