import Mathlib
import EventIndex.Proofs.Cursor.Stored
import EventIndex.Proofs.Index.PageBudget

/-! # What readers see

A list that is looked up is read as its ledger has it: whatever was sealed, written out or taken back
before, and whatever happens between the look-up and the reading (`lookUp_reads_ledger`).
-/

namespace EventIndex

open Cursor

/-- A snapshot that lies on a disk is read from end to end. -/
theorem Snapshot.reads_toList {v : Snapshot} {ds : Disks} {chunks : List (List Tuple)}
    (h : v.LiesOnAll ds chunks) : PageFile.Reads ds v.toList (v.tuples chunks) := by
  have hshows : Shows ds v.first (v.tuples chunks) 0 := Stored.shows_of_view h (Nat.zero_le _)
  obtain ⟨c, hrun, -⟩ := hshows.collectForward (v.length + 1)
  rw [List.drop_zero, List.take_of_length_le (by rw [h.length_eq]; omega)] at hrun
  intro f hf hd
  obtain ⟨f', hread, hf', hd'⟩ := hrun f hf hd
  refine ⟨f', ?_, hf', hd'⟩
  simp only [toList, hread]

namespace Recorder

variable {n : Nat} {r : Recorder} {c : Contents} {extra : List OwnerKey}

/-- The disk of an index. -/
def disk (r : Recorder) : Disk := r.archive.shelf.pages.disk

/-- What reads from the disk of an index answers for the index. -/
theorem outcome_onPages {α : Type} {x : Act PageFile α} {a : α} {ds : Disks}
    (hs : r.Sound n c extra) (hx : PageFile.Reads ds x a) (hd : ds r.disk) :
    Act.outcome (onPages x) r = .ok a := by
  obtain ⟨f', hrun, -, -⟩ := hx _ hs.archive.shelf.file hd
  rw [outcome_onPages_eq, Act.outcome_ok hrun]

/-- What is within a list at one time is read from it at any later time. -/
theorem Step.liesOn {r' : Recorder} {c' : Contents} {extra' : List OwnerKey} {id : SetId}
    {set : IndexSet} {value : ValueId} {v : Snapshot} {chunks : List (List Tuple)}
    (hstep : Step r r' n c c' extra') (hset : r'.archive.set? id = some set)
    (hv : v.Within (c.lists id value) chunks) : v.LiesOn r'.disk chunks :=
  (hv.extends (hstep.extends_ id value)).liesOn
    ((hstep.sound.archive.shelf.lies id set hset).holds value).lies

end Recorder

namespace Setup

variable {u : Setup} {r : Recorder}

/-- A look-up succeeds, and its snapshot is read, then or at any later time, as the list that the ledger
has at the time of the look-up. Batches fail for the index just when they fail for the ledger.

The index does what its ledger does (`Recorder.run_spec`), so at the look-up the list is the ledger's.
It is read later on too, for a snapshot lies on every disk that may come. `hroom` is met by any run of a
hundred calls (`Setup.room_of_length`). -/
theorem lookUp_reads_ledger (h : u.start = .ok r) (before after : List (Call u.shapes.length))
    (set : Fin u.shapes.length) (value : ValueId)
    (hroom : (r.run (before ++ .lookUp set value :: after)).pageCount ≤ maxPages) :
    (r.run before).intake.pool = (u.ledger.run before).staffed.pool ∧
    ∃ view,
      Act.outcome (Recorder.onArchive (Archive.lookUp set value)) (r.run before) = .ok view ∧
      Act.outcome (Recorder.onPages view.toList) (r.run (before ++ .lookUp set value :: after)) =
        .ok ((u.ledger.run before).book.lists set value) := by
  obtain ⟨hs, hledger, -⟩ := start_spec h
  rw [Recorder.run_append] at hroom ⊢
  have hroom₂ : ((r.run before).next (.lookUp set value)).pageCount ≤ maxPages :=
    Nat.le_trans (Recorder.pageCount_le_run _ after) hroom
  -- before the look-up, at it, and after it
  obtain ⟨c₁, hstep₁, hledger₁⟩ := Recorder.run_spec hs before
    (Nat.le_trans (Recorder.pageCount_le_next _ _) hroom₂)
  obtain ⟨view, chunks, r₂, c₂, hrun, hstep₂, -, hwithin, htuples⟩ :=
    Recorder.lookUp_spec hstep₁.sound set value hroom₂
  have hnext : (r.run before).next (.lookUp set value) = r₂ :=
    (Act.after_bind_pure _ _).trans (Act.after_ok hrun)
  have hcalls : (r.run before).run (.lookUp set value :: after) = r₂.run after := by
    rw [← hnext]
    rfl
  rw [hcalls] at hroom ⊢
  obtain ⟨c₃, hstep₃, -⟩ := Recorder.run_spec hstep₂.sound after hroom
  rw [hledger] at hledger₁
  rw [hledger₁] at htuples
  refine ⟨congrArg (fun l : Ledger => l.staffed.pool) hledger₁, view, Act.outcome_ok hrun, ?_⟩
  obtain ⟨index, hindex⟩ := hstep₃.sound.set? set
  rw [← htuples]
  exact Recorder.outcome_onPages hstep₃.sound
    (Snapshot.reads_toList (hstep₃.liesOn hindex hwithin).onAll) rfl

/-- Two more events go to the list, and the second of them is refused. -/
def refuse : List (Call small.shapes.length) :=
  [.push plainSet 1 40 none, .push plainSet 1 7 none, .work 0]

/-- A list of twenty-eight events is written out, read from disk and driven out again. Its snapshot is read
when the list has come back once more and has gone on. -/
theorem lookUp_reads_ledger_small :
    ∃ r, small.start = .ok r ∧
      (r.run (fill ++ [.discard plainSet 1])).archive.isResident ⟨plainSet, 1⟩ = false ∧
      ∃ view,
        Act.outcome (Recorder.onArchive (Archive.lookUp plainSet 1))
          (r.run (fill ++ [.discard plainSet 1])) = .ok view ∧
        Act.outcome (Recorder.onPages view.toList)
          (r.run (fill ++ [.discard plainSet 1] ++ .lookUp plainSet 1 :: (crowd ++ refuse))) =
            .ok ((List.range 28).map fun key => .plain (.ofNat key)) := by
  obtain ⟨r, hr⟩ : ∃ r, small.start = .ok r := ⟨_, rfl⟩
  have hlist : (small.ledger.run (fill ++ [.discard plainSet 1])).book.lists plainSet 1 =
      (List.range 28).map fun key => .plain (.ofNat key) := by cbv
  obtain ⟨-, view, hview, hread⟩ := lookUp_reads_ledger hr (fill ++ [.discard plainSet 1])
    (crowd ++ refuse) plainSet 1 (room_of_length hr (by decide))
  rw [hlist] at hread
  exact ⟨r, hr, isResident_discarded hr (room_of_length hr (by decide)), view, hview, hread⟩

end Setup

end EventIndex
