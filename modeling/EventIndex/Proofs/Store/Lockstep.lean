import EventIndex.Proofs.Cursor.Listed
import EventIndex.Proofs.Store.Lookups

/-! # Cursors over a store and over a list

A cursor over a snapshot of a store remembers the page it decoded last, changes pages in both directions
and leaves the directory alone if a key that is sought falls into its gap. None of this can be told from its
answers. The cursor in memory that stands at the same place of the list of all tuples finds the same, and
after any moves the two still stand at the same place (`Snapshot.InStep`).

The tuples of a store are those that it has accepted, so that this holds for every store and whatever else
happens to the stores of the page file (`Bench.moves_in_step`).
-/

namespace EventIndex

open Cursor EventIndex.Tuple

namespace Snapshot

variable {v : Snapshot} {ds : Disks} {chunks : List (List Tuple)} {pages : PageFile}

/-- Whichever key a cursor seeks from where it stands, its gap comes to where a snapshot finds the key by a
full lookup. -/
def SoughtBy (v : Snapshot) (c : Stored) (pages : PageFile) : Prop :=
  ∀ key, ∃ c' pages', Cursor.seek key ⟨c, pages⟩ = .ok () ⟨c', pages'⟩ ∧
    Act.outcome (v.lowerBound key) pages = .ok c'.position

/-- A cursor that is opened over a snapshot and makes some moves goes in step with the cursor in memory over a
list. Both begin and end at the same place, both find the same, and keys are sought exactly in the end. -/
def InStep (v : Snapshot) (pages : PageFile) (ts : List Tuple) (o : Opening) (moves : List Move) : Prop :=
  ∃ c opened found c' pages' others,
    v.opened o pages = .ok c opened ∧ c.position = o.gap ts ∧
    Move.walk moves ⟨c, opened⟩ = .ok found ⟨c', pages'⟩ ∧
    Move.walk moves ⟨Listed.standing ts c.position, opened⟩ =
      .ok found ⟨Listed.standing ts c'.position, others⟩ ∧
    v.SoughtBy c' pages'

/-- A snapshot goes in step with its list. -/
theorem LiesOnAll.inStep (h : v.LiesOnAll ds chunks) (hpages : pages.Sound) (hdisk : ds pages.disk)
    (o : Opening) (moves : List Move) : v.InStep pages (v.tuples chunks) o moves := by
  obtain ⟨c, hopened, hview, hstands⟩ := h.reads_opened_at o
  obtain ⟨opened, hopen, hsound, hopenedDisk⟩ := hopened pages hpages hdisk
  have hds : ds opened.disk := hopenedDisk.symm ▸ hdisk
  -- both cursors go with the list, and their moves lead to the same place of it
  obtain ⟨c', hwalk, chunks', hstands', htuples⟩ :=
    (Stored.mimicry_standsAt ds).walk_ends ⟨chunks, hstands, by rw [hview]⟩ moves
  obtain ⟨pages', hrun, hsound', hdisk'⟩ := hwalk opened hsound hds
  obtain ⟨_, hlisted, rfl, -, -⟩ :=
    (Listed.mimicry ds).walk_ends ⟨rfl, h.sorted, hview ▸ hstands.inside⟩ moves
  obtain ⟨others, hlistedRun, -, -⟩ := hlisted opened hsound hds
  refine ⟨c, opened, _, c', pages', others, hopen, hstands.position, hrun, ?_, fun key => ?_⟩
  · rw [hstands.position, hstands'.position]
    exact hlistedRun
  · have hds' : ds pages'.disk := hdisk'.symm ▸ hds
    obtain ⟨c'', hseek, hsought, -⟩ := hstands'.seek key
    obtain ⟨pages'', hseekRun, -, -⟩ := hseek pages' hsound' hds'
    refine ⟨c'', pages'', hseekRun, ?_⟩
    rw [hsought.position, ← htuples]
    exact (h.reads_lowerBound key).outcome hsound' hds'

end Snapshot

namespace Bench

/-- A cursor over a snapshot of a store goes in step with the cursor in memory over the tuples that the store
has accepted, wherever it is opened, whichever moves it makes, and whatever happens to the stores after the
snapshot was taken.

Both cursors are compared by what they answer and by where they end, so that the moves may be cut at any
place. -/
theorem moves_in_step {pageSize cachePages : Nat} {fresh : PageFile}
    (h : PageFile.create pageSize cachePages = .ok fresh) (before after : List Deed)
    (hroom : (∃ deed ∈ before ++ after, deed.Saves) →
      ((start fresh).run (before ++ after)).pages.pageCount ≤ maxPages)
    {i : Nat} {s : Store} (hstore : ((start fresh).run before).stores[i]? = some (.inMemory s))
    (o : Opening) (moves : List Move) :
    s.snapshot.InStep ((start fresh).run (before ++ after)).pages
      ((start fresh).accepted i before) o moves := by
  obtain ⟨held, chunks, -, -, -, haccepted, hfile, hlies⟩ :=
    accepted_lies h before after hroom hstore
  rw [haccepted]
  exact hlies.onAll.inStep hfile rfl o moves

set_option maxRecDepth 4000 in
/-- From the end of a run of equal keys back over the boundary of the page, and from there to the next key. -/
theorem moves_in_step_small :
    ∃ fresh, PageFile.create 256 1 = .ok fresh ∧
      straddled.snapshot.InStep ((start fresh).run (straddling ++ [.change 0 .sealTail])).pages
        [tagged 5 .target, tagged 5 .value] .last
        [.previous, .peekPrevious, .seek 5, .next, .next, .next, .seek 5, .seek 6] := by
  obtain ⟨fresh, hfresh⟩ : ∃ fresh, PageFile.create 256 1 = .ok fresh := ⟨_, rfl⟩
  have hstore : ((start fresh).run straddling).stores[0]? = some (.inMemory straddled) := by
    cases hfresh
    cbv
  have haccepted : (start fresh).accepted 0 straddling = [tagged 5 .target, tagged 5 .value] := by
    cases hfresh
    cbv
  have hnone : ¬ ∃ deed ∈ straddling ++ [.change 0 .sealTail], deed.Saves := by
    simp [straddling, Deed.Saves]
  rw [← haccepted]
  exact ⟨fresh, hfresh, moves_in_step hfresh straddling [.change 0 .sealTail]
    (fun hsaves => absurd hsaves hnone) hstore .last _⟩

end Bench

end EventIndex
