import EventIndex.Proofs.Index.Isolation
import EventIndex.Proofs.Index.Ownership
import EventIndex.Proofs.Index.Progress

/-! # Every payload fits its page

Stores and index sets write payloads of three forms (`PageFile.Written`). Each of them is cut to the size of
a page by the way it is made, whatever the keys and roles are and whatever packing makes of a page of tuples.

For tuples this rests on the tails in memory, which are shorter than a page after whatever happens
(`writes_fit`). A payload that does not fit its page is then an error that nobody is ever told of: the errors
that there are go back to keys that are refused, to lists that are not in memory, and to pages that cannot
be read (`Call.Reports`, `Deed.Reports`).
-/

namespace EventIndex

open Binary

/-! ## What is written -/

/-- The payloads that stores and index sets write to a page file, when pages of tuples are packed in a given
way. -/
inductive PageFile.Written (f : PageFile) (pack : List UInt8 → List UInt8) : List UInt8 → Prop
  /-- A page that is sealed, or the tail of a list that is written out. -/
  | tuples (k : Kind) {ts : List Tuple} (h : ts.length ≤ k.pageCapacity f.payloadCapacity) :
      Written f pack (TuplePage.encodeWith pack k ts)
  /-- A page of a directory: a piece of its bytes behind the link to the next page. -/
  | piece (link : PageId) {bytes piece : List UInt8}
      (h : piece ∈ Store.piecesOf (f.payloadCapacity - 4) bytes.length bytes) :
      Written f pack (littleEndian 4 link ++ piece)
  /-- A page of slots, one of which gets a descriptor. -/
  | slots (value : ValueId) (x : Descriptor) {bytes : List UInt8}
      (h : bytes.length = IndexSet.slotsPerPage f * Descriptor.byteSize) :
      Written f pack (IndexSet.splice bytes (IndexSet.slotOf f value).2 x.toBytes)

/-- No payload of the three forms is longer than a page takes. -/
theorem PageFile.Written.length_le {f : PageFile} {pack : List UInt8 → List UInt8}
    {payload : List UInt8} (h : f.Written pack payload) (hf : f.Sound) :
    payload.length ≤ f.payloadCapacity := by
  -- the smallest page leaves room for a header, a link and a slot
  have hmin : 248 ≤ f.payloadCapacity := hf.capacity_bounds.1
  cases h with
  | @tuples k ts hfull =>
    have hle : ts.length ≤ f.disk.perPage k := by
      rw [hf.perPage_eq]
      exact hfull
    exact Nat.le_trans (TuplePage.length_encodeWith_le pack k ts) (hf.plain_le hle)
  | @piece link bytes piece hpiece =>
    have hpos : 0 < f.payloadCapacity - 4 := by omega
    obtain ⟨-, hle⟩ := Store.piecesOf_spec hpos (Nat.le_refl bytes.length)
    have hlen := hle piece hpiece
    rw [List.length_append, length_littleEndian]
    omega
  | @slots value x bytes hbytes =>
    have hplace : (IndexSet.slotOf f value).2 + Descriptor.byteSize ≤ bytes.length := by
      rw [hbytes]
      exact IndexSet.slot_place_le f.disk value
    rw [IndexSet.length_splice x.length_toBytes hplace, hbytes]
    exact hf.slots_le

/-- The tail of a store is shorter than a page of the file. It fits a page as it is, and it still does when
it has one more tuple and is sealed. -/
structure Store.TailFits (s : Store) (f : PageFile) : Prop where
  size_lt : s.tail.size < s.kind.pageCapacity f.payloadCapacity
  saved : ∀ pack, f.Written pack (TuplePage.encodeWith pack s.kind s.tail.toList)
  full : ∀ pack t, f.Written pack (TuplePage.encodeWith pack s.kind (s.push t).tail.toList)

/-- A store that lies on the disk has a tail that is shorter than a page. -/
theorem Store.LiesOn.tailFits {s : Store} {f : PageFile} {chunks : List (List Tuple)}
    (h : s.LiesOn f.disk chunks) (hf : f.Sound) : s.TailFits f := by
  have hlt : s.tail.size < s.kind.pageCapacity f.payloadCapacity := by
    have htail := h.tail_lt
    rwa [hf.perPage_eq] at htail
  refine ⟨hlt, fun pack => .tuples s.kind ?_, fun pack t => .tuples s.kind ?_⟩
  · rw [Array.length_toList]
    exact Nat.le_of_lt hlt
  · rw [Array.length_toList, Store.push, Array.size_push]
    exact hlt

/-! ## Errors of an index -/

/-- The errors that a call may report. -/
inductive Call.Reports {n : Nat} : Call n → StorageError → Prop
  /-- The timestamp of an event lies before the last one. -/
  | late {time last : Timestamp} : Reports (.register time) (.outOfOrder time last)
  /-- A tuple of a batch is refused. -/
  | refused {worker : Nat} {key last : UInt64} : Reports (.work worker) (.outOfOrder key last)
  | notInMemory {set : Fin n} {value : ValueId} {name : String} :
      Reports (.discard set value) (.notResident name value)
  | unreadable {page : PageId} {reason : String} : Reports (.readPage page) (.io reason)
  | damaged {page : PageId} {damage : Damage} : Reports (.readPage page) (.corrupt damage)

theorem Call.Reports.ne_oversized {n : Nat} {call : Call n} {e : StorageError} (h : call.Reports e)
    (bytes capacity : Nat) : e ≠ .oversizedPayload bytes capacity := by
  cases h <;> simp

namespace Recorder

variable {n : Nat} {r : Recorder} {c : Contents} {extra : List OwnerKey} {e : StorageError}

/-- The error of a call. That of a batch is not told to whoever lets a worker go on, but kept for the next
flush. -/
def failure (r : Recorder) : Call n → Option StorageError
  | .work worker =>
    match r.intake.pool.queues[worker]? with
    | some (.task t :: _) => errorOf (Act.outcome (Archive.perform t) r.archive)
    | _ => none
  | call => errorOf (Act.outcome (act call) r)

/-- There are no other errors: what is read back from the file is there, and what is written fits. -/
theorem Sound.failure_reports (hs : r.Sound n c extra) {call : Call n}
    (hroom : (r.next call).pageCount ≤ maxPages) (h : r.failure call = some e) : call.Reports e := by
  cases call with
  | push set value key role =>
    obtain ⟨r', hrun, -⟩ := push_spec hs set value (Kind.holds_tuple (r.kindOf set) key role)
    have hact : act (.push set value key role) r = .ok () r' :=
      (Act.bind_ok (x := (get : Act Recorder Recorder)) rfl).trans hrun
    cases (errorOf_ok hact).symm.trans h
  | flushSet set =>
    obtain ⟨r', hrun, -⟩ := flushSet_spec hs set
    cases (errorOf_ok hrun).symm.trans h
  | lookUp set value =>
    obtain ⟨view, chunks, r', c', hrun, -⟩ := lookUp_spec hs set value hroom
    have hact : act (.lookUp set value) r = .ok () r' := Act.bind_ok hrun
    cases (errorOf_ok hact).symm.trans h
  | discard set value =>
    have herror : Act.outcome (onArchive (Archive.discard set value)) r = .error e :=
      errorOf_eq_some.mp h
    have hroom' : (Act.after (Archive.discard set value) r.archive).pageCount ≤ maxPages := by
      have hnext : r.next (.discard set value) = _ := after_onArchive (Archive.discard set value) r
      rw [hnext] at hroom
      exact hroom
    obtain ⟨c', -, -, -, ⟨-, hdone⟩ | ⟨-, name, hnot⟩⟩ := Archive.discard_spec hs.archive hs.tidy hroom'
    · rw [outcome_onArchive, hdone] at herror
      cases herror
    · rw [outcome_onArchive, hnot] at herror
      cases herror
      exact .notInMemory
  | register time =>
    obtain ⟨-, -, hanswer⟩ := register_spec hs time
    have haccept : errorOf (r.timeline.accept time) = some e := by
      rw [← errorOf_map (·.1), ← hanswer, ← errorOf_map fun _ => (), ← Act.outcome_bind_pure]
      exact h
    obtain ⟨last, rfl⟩ := Timeline.error_of_accept hs.isLive (errorOf_eq_some.mp haccept)
    exact .late
  | flushStamps =>
    obtain ⟨r', hrun, -⟩ := flushStamps_spec hs
    cases (errorOf_ok hrun).symm.trans h
  | work worker =>
    -- a task fails just when it fails for the book, which has no pages
    simp only [failure] at h
    split at h
    · rename_i t rest hget
      obtain ⟨c', hperforms⟩ := hs.performs hget hroom
      have herror := errorOf_eq_some.mp h
      rw [hperforms.outcome_eq] at herror
      obtain ⟨key, last, rfl⟩ := Book.error_of_perform (Act.eq_of_outcome_error herror)
      exact .refused
    · cases h
  | raiseBarriers => cases h
  | takeError => cases h
  | readPage page =>
    have hread : errorOf (Act.outcome (PageFile.read page) r.archive.shelf.pages) = some e := by
      rw [← outcome_onPages_eq, ← errorOf_map fun _ => (), ← Act.outcome_bind_pure]
      exact h
    rcases PageFile.error_of_read (errorOf_eq_some.mp hread) with ⟨reason, rfl⟩ | ⟨damage, rfl⟩
    · exact .unreadable
    · exact .damaged

end Recorder

namespace Ledger

variable {n : Nat} {l : Ledger} {kind? : SetId → Option Kind}

/-- The error that waits for the next flush, if any, is that of a key that was refused. -/
def WaitsRefused (l : Ledger) : Prop :=
  ∀ e, l.staffed.pool.firstError = some e → ∃ key last, e = .outOfOrder key last

/-- A task can fail only with a key that is refused. -/
theorem WaitsRefused.work (h : l.WaitsRefused) (i : Nat) :
    WaitsRefused { l with staffed := l.staffed.work Book.perform i } := by
  rcases Recorder.work_cases Book.perform l.staffed i with
    hwork | ⟨t, rest, -, hwork⟩ | ⟨rest, -, hwork⟩
  · rw [hwork]
    exact h
  · rw [hwork]
    intro e he
    rw [firstError_record] at he
    rcases Option.or_eq_some_iff.mp he with hold | ⟨-, hnew⟩
    · exact h e hold
    · exact Book.error_of_perform (Act.eq_of_outcome_error (Recorder.errorOf_eq_some.mp hnew))
  · rw [hwork]
    exact h

theorem WaitsRefused.next (h : l.WaitsRefused) (hs : l.Sound kind?) (call : Call n) :
    (l.next call).WaitsRefused := by
  obtain ⟨l₁, hbegins, hends⟩ := next_steps hs call
  have hkeeps := hends.keeps (hbegins.sound hs)
  intro e he
  rw [hkeeps.firstError_eq] at he
  cases hbegins with
  | push => exact h e he
  | register => exact h e he
  | refuse => exact h e he
  | work worker => exact h.work worker e he
  | raiseBarriers => exact h e he
  | takeError => cases he
  | idle => exact h e he

/-- Whatever calls come, no other error waits. -/
theorem WaitsRefused.run (h : l.WaitsRefused) (hs : l.Sound kind?) (calls : List (Call n)) :
    (l.run calls).WaitsRefused := by
  induction calls generalizing l with
  | nil => exact h
  | cons call calls ih => exact ih (h.next hs call) (hs.next call)

end Ledger

/-! ## Errors of single stores -/

/-- The errors that a deed may report. -/
inductive Deed.Reports : Deed → StorageError → Prop
  | refused {number : Nat} {change : Change} {key last : UInt64} :
      Reports (.change number change) (.outOfOrder key last)
  | unreadable {page : PageId} {reason : String} : Reports (.readPage page) (.io reason)
  | damaged {page : PageId} {damage : Damage} : Reports (.readPage page) (.corrupt damage)

theorem Deed.Reports.ne_oversized {deed : Deed} {e : StorageError} (h : deed.Reports e)
    (bytes capacity : Nat) : e ≠ .oversizedPayload bytes capacity := by
  cases h <;> simp

namespace Bench

variable {b : Bench} {held : List Holding} {e : StorageError}

/-- The error of a deed. -/
def failure (b : Bench) : Deed → Option StorageError
  | .create _ => none
  | .change number change => Recorder.errorOf (Act.outcome (onStore number (Kept.act change)) b)
  | .readPage page => Recorder.errorOf (Act.outcome (PageFile.read page) b.pages)

/-- There are no other errors, not when a store is written out or taken back either. -/
theorem Sound.failure_reports (hs : b.Sound held) {deed : Deed}
    (hroom : deed.Saves → (b.next deed).pages.pageCount ≤ maxPages) (h : b.failure deed = some e) :
    deed.Reports e := by
  cases deed with
  | create kind => cases h
  | change number change =>
    have herror : Act.outcome (onStore number (Kept.act change)) b = .error e :=
      Recorder.errorOf_eq_some.mp h
    cases hkept : b.stores[number]? with
    | none =>
      simp only [Act.outcome, onStore, hkept] at herror
      cases herror
    | some kept =>
      have hroom' : change = .save → (b.next (.change number change)).pages.pageCount ≤ maxPages := by
        rintro rfl
        exact hroom trivial
      obtain ⟨held, -, ⟨_, _, _, hact, -⟩ | ⟨key, last, hact, -⟩⟩ := hs.brings hkept change hroom'
      · simp only [Act.outcome, onStore, hkept, hact] at herror
        cases herror
      · simp only [Act.outcome, onStore, hkept, hact] at herror
        cases herror
        exact .refused
  | readPage page =>
    rcases PageFile.error_of_read (Recorder.errorOf_eq_some.mp h) with ⟨reason, rfl⟩ | ⟨damage, rfl⟩
    · exact .unreadable
    · exact .damaged

end Bench

/-! ## All that is written fits -/

/-- What an index with `n` sets writes fits its pages. The tails in memory are short enough, and the slot
pages are filled up with slots; so whatever happens to the index next, no payload is too large for its page,
and none was too large in a batch whose error waits to be handed out. -/
structure Recorder.WritesFit (r : Recorder) (n : Nat) : Prop where
  payload_le : ∀ pack payload, r.pages.Written pack payload → payload.length ≤ r.pages.payloadCapacity
  tailFits : ∀ key store uses, r.archive.entryOf key = some (.resident store uses) →
    store.TailFits r.pages
  stampsFit : r.archive.stamps.TailFits r.pages
  slotsFit : ∀ id set number page bytes, r.archive.set? id = some set →
    set.slotPages[(number : Nat)]? = some page → r.pages.disk.pages page = some bytes →
      ∀ pack value x, r.pages.Written pack
        (IndexSet.splice bytes (IndexSet.slotOf r.pages value).2 (Descriptor.toBytes x))
  failure_ne : ∀ call : Call n, (r.next call).pageCount ≤ maxPages →
    ∀ bytes capacity, r.failure call ≠ some (.oversizedPayload bytes capacity)
  firstError_ne : ∀ bytes capacity,
    r.intake.pool.firstError ≠ some (.oversizedPayload bytes capacity)

/-- What single stores write fits their pages. -/
structure Bench.WritesFit (b : Bench) : Prop where
  payload_le : ∀ pack payload, b.pages.Written pack payload → payload.length ≤ b.pages.payloadCapacity
  tailFits : ∀ (number : Nat) (store : Store), b.stores[number]? = some (.inMemory store) →
    store.TailFits b.pages
  failure_ne : ∀ deed : Deed, (deed.Saves → (b.next deed).pages.pageCount ≤ maxPages) →
    ∀ bytes capacity, b.failure deed ≠ some (.oversizedPayload bytes capacity)

/-- A sound index writes what fits. -/
theorem Recorder.Sound.writesFit {n : Nat} {r : Recorder} {c : Contents} {extra : List OwnerKey}
    (hs : r.Sound n c extra) (hwaits : (r.ledger c).WaitsRefused) : r.WritesFit n where
  payload_le pack payload h := h.length_le hs.archive.shelf.file
  tailFits key store uses hentry := by
    obtain ⟨set, hset, hresident⟩ := Option.bind_eq_some_iff.mp hentry
    have hholds := (hs.archive.shelf.lies key.set set hset).holds key.value
    obtain ⟨hstore, -⟩ := hholds.resident store uses hresident
    exact hstore ▸ hholds.lies.tailFits hs.archive.shelf.file
  stampsFit := hs.archive.stamps.tailFits hs.archive.shelf.file
  slotsFit id set number page bytes hset hpage hbytes pack value x := by
    obtain ⟨bytes', hbytes', hlen⟩ := (hs.archive.shelf.lies id set hset).slots number page hpage
    obtain rfl := Option.some.inj (hbytes'.symm.trans hbytes)
    exact .slots value x hlen
  failure_ne call hroom bytes capacity h := (hs.failure_reports hroom h).ne_oversized bytes capacity rfl
  firstError_ne bytes capacity h := by
    obtain ⟨key, last, he⟩ := hwaits _ h
    cases he

/-- Sound stores write what fits. -/
theorem Bench.Sound.writesFit {b : Bench} {held : List Holding} (hs : b.Sound held) : b.WritesFit where
  payload_le pack payload h := h.length_le hs.file
  tailFits number store hstore := by
    obtain ⟨chunks, -, hlies⟩ := hs.inMemory hstore
    exact hlies.tailFits hs.file
  failure_ne deed hroom bytes capacity h := (hs.failure_reports hroom h).ne_oversized bytes capacity rfl

namespace PageFile

/-- On pages of any size that is allowed, all that is written fits, and the tails in memory are shorter than
a page: of an index after any calls, its lists written out and taken back or not, and of any stores over one
page file after any deeds.

`WritesFit` is about payloads before they are written, and so it does not depend on the file refusing
those that are too long. That no error of this kind is ever reported follows. -/
theorem writes_fit :
    (∀ (u : Setup) (r : Recorder), u.start = .ok r → ∀ calls : List (Call u.shapes.length),
      (r.run calls).pageCount ≤ maxPages → (r.run calls).WritesFit u.shapes.length) ∧
    ∀ (pageSize cachePages : Nat) (fresh : PageFile), create pageSize cachePages = .ok fresh →
      ∀ deeds : List Deed,
        ((∃ deed ∈ deeds, deed.Saves) → ((Bench.start fresh).run deeds).pages.pageCount ≤ maxPages) →
          ((Bench.start fresh).run deeds).WritesFit := by
  constructor
  · intro u r h calls hroom
    obtain ⟨hs, hledger, -⟩ := Setup.start_spec h
    obtain ⟨c, hstep, hledger'⟩ := Recorder.run_spec hs calls hroom
    have hnone : u.ledger.WaitsRefused := fun e he => by cases he
    refine hstep.sound.writesFit ?_
    rw [hledger', hledger]
    exact hnone.run (Ledger.sound_start u) calls
  · intro pageSize cachePages fresh h deeds hroom
    obtain ⟨hf, hcount, hfree⟩ := create_spec h
    obtain ⟨held, hs, -⟩ := Bench.run_accepted_spec (Bench.sound_start hf hcount hfree) deeds hroom
    exact hs.writesFit

/-- A store of one tuple is written out and taken back. -/
def returnedDeeds : List Deed :=
  [.create .role, .change 0 (.append 5 none), .change 0 .save, .change 0 .load]

set_option maxRecDepth 20000 in
/-- An error waits to be handed out, and a store has its tail back. -/
theorem writes_fit_small :
    (∃ r, Setup.small.start = .ok r ∧ ∃ calls : List (Call 2), (r.run calls).WritesFit 2 ∧
      (r.run calls).intake.pool.firstError = some (.outOfOrder 4 5)) ∧
    ∃ fresh, create 256 1 = .ok fresh ∧ ((Bench.start fresh).run returnedDeeds).WritesFit ∧
      ((Bench.start fresh).run returnedDeeds).pages.writes = 1 := by
  constructor
  · obtain ⟨r, hr⟩ : ∃ r, Setup.small.start = .ok r := ⟨_, rfl⟩
    -- the second batch goes back to an earlier event
    let calls : List (Call 2) := [.push 0 1 5 none, .push 0 1 6 none, .work 0, .push 0 2 5 none,
      .push 0 2 4 none, .work 0]
    have hroom : (r.run calls).pageCount ≤ maxPages := by
      cases hr
      cbv
    refine ⟨r, hr, calls, writes_fit.1 Setup.small r hr calls hroom, ?_⟩
    cases hr
    cbv
  · obtain ⟨fresh, hfresh⟩ : ∃ fresh, create 256 1 = .ok fresh := ⟨_, rfl⟩
    have hroom : ((Bench.start fresh).run returnedDeeds).pages.pageCount ≤ maxPages := by
      cases hfresh
      cbv
    refine ⟨fresh, hfresh, writes_fit.2 256 1 fresh hfresh returnedDeeds fun _ => hroom, ?_⟩
    cases hfresh
    cbv

end PageFile

end EventIndex
