import EventIndex.Proofs.Cursor.Shows
import EventIndex.Proofs.Index.Accounts

/-! # What a run of calls writes

Calls write tuples to lists (`Call.written`) and give timestamps to events (`accepted`). Both are read
off the calls alone, and both are what a ledger has in total after a run, wherever it is by then.

For lists this needs that no batch failed, which is the case when nobody was handed an error and none
waits (`total_run`). Timestamps come to their list whatever fails elsewhere: they never decrease, so
that no task of theirs can fail (`Timed.run`).

A call is looked at in two parts: what it writes, or lets a worker do (`Begins`), and the handing on
that may follow (`Ends`). A property that both parts keep holds after any calls, and each proof has one
case for each way to begin.

Main results:

* `next_steps`: every call is of these two parts.
* `Sound.run`: a ledger stays sound whatever calls come.
* `Account.total_run`: what is written to a list is what the calls write to it.
* `Timed.run`: the timestamps are the accepted ones, also where other tasks fail.
-/

namespace EventIndex

variable {n : Nat}

/-! ## Writes in calls -/

/-- The timestamps that are accepted, one after another. A timestamp before the last one is refused. -/
def accepted : (last : Option Timestamp) → List Timestamp → List Timestamp
  | _, [] => []
  | last, time :: times =>
    if last.any (time < ·) then accepted last times else time :: accepted (some time) times

/-- Later timestamps are compared with the last one that was accepted before. -/
theorem accepted_append (last : Option Timestamp) (xs ys : List Timestamp) :
    accepted last (xs ++ ys) =
      accepted last xs ++ accepted ((accepted last xs).getLast?.or last) ys := by
  induction xs generalizing last with
  | nil => rfl
  | cons time xs ih =>
    rw [List.cons_append, accepted, accepted]
    split
    · exact ih last
    · rw [ih (some time), List.cons_append, List.getLast?_cons]
      cases (accepted (some time) xs).getLast? <;> rfl

namespace Call

/-- The timestamp of an event to be registered. -/
def time? : Call n → Option Timestamp
  | register time => some time
  | _ => none

/-- The tuples that a call writes to the list of a value. -/
def written (kind? : SetId → Option Kind) (set : SetId) (value : ValueId) : Call n → List Tuple
  | push set' value' key role =>
    if (set' : SetId) = set ∧ value' = value then [((kind? set').getD .plain).tuple key role] else []
  | _ => []

end Call

/-! ## Tasks that fail -/

namespace Book

variable {b : Book}

/-- A batch changes the lists of a set, whether it fails or not. -/
theorem after_batch (id : SetId) (entries : List (ValueId × Tuple)) (b : Book) :
    ∃ lists, Act.after (perform (.batch id entries)) b = { b with lists } ∧
      ∀ other, b.kind? other = none → lists other = b.lists other := by
  show ∃ lists, Act.after (applyBatch id entries) b = { b with lists } ∧ _
  cases hkind : b.kind? id with
  | none => exact ⟨b.lists, by simp only [Act.after, applyBatch, hkind], fun _ _ => rfl⟩
  | some k =>
    refine ⟨Function.update b.lists id (Act.after (k.extendEach entries) (b.lists id)), ?_,
      fun other hother => Function.update_of_ne (fun heq => ?_) _ _⟩
    · simp only [Act.after, applyBatch, hkind]
      cases k.extendEach entries (b.lists id) <;> rfl
    · rw [heq, hkind] at hother
      cases hother

/-- Timestamps are added to the list of timestamps, whether they fail or not, and change nothing else. -/
theorem after_stamps (times : List Tuple) (b : Book) :
    ∃ stamps, Act.after (perform (.stamps times)) b = { b with stamps } ∧ b.stamps <+: stamps := by
  show ∃ stamps, Act.after (appendStamps times) b = { b with stamps } ∧ b.stamps <+: stamps
  induction times generalizing b with
  | nil => exact ⟨b.stamps, rfl, List.prefix_refl _⟩
  | cons t times ih =>
    cases hextend : Kind.stamp.extend b.stamps t with
    | ok stamps =>
      obtain ⟨stamps', hafter, hprefix⟩ := ih { b with stamps }
      have happend : stamps = b.stamps ++ [t] := Kind.eq_append_of_extend hextend
      exact ⟨stamps', (Act.after_congr (appendStamps_cons_ok hextend times)).trans hafter,
        (happend ▸ List.prefix_append b.stamps [t]).trans hprefix⟩
    | error e =>
      exact ⟨b.stamps, Act.after_error (appendStamps_cons_error hextend times), List.prefix_refl _⟩

/-- No task makes or changes sets, and none writes where there is no set. -/
theorem after_perform (t : Task) (b : Book) :
    (Act.after (perform t) b).kind? = b.kind? ∧
      ∀ other, b.kind? other = none → (Act.after (perform t) b).lists other = b.lists other := by
  cases t with
  | batch id entries =>
    obtain ⟨lists, hafter, hother⟩ := after_batch id entries b
    rw [hafter]
    exact ⟨rfl, hother⟩
  | stamps times =>
    obtain ⟨stamps, hafter, -⟩ := after_stamps times b
    rw [hafter]
    exact ⟨rfl, fun _ _ => rfl⟩

/-- Timestamps that do not decrease are all appended. -/
theorem appendStamps_of_sorted {times : List Tuple} (h : Cursor.Sorted (b.stamps ++ times)) :
    appendStamps times b = .ok () { b with stamps := b.stamps ++ times } := by
  induction times generalizing b with
  | nil =>
    rw [List.append_nil]
    rfl
  | cons t times ih =>
    have hextend : Kind.stamp.extend b.stamps t = .ok (b.stamps ++ [t]) := by
      cases hlast : b.stamps.getLast? with
      | none => exact Kind.extend_of_none hlast
      | some last =>
        have hle := (List.pairwise_append.mp h).2.2 last (List.mem_of_getLast? hlast) t
          List.mem_cons_self
        refine Kind.extend_of_getLast? hlast ?_
        -- times may be equal to the last one
        rcases UInt64.le_iff_lt_or_eq.mp hle with hlt | heq
        · exact .inl hlt
        · exact .inr ⟨heq, rfl⟩
    have happend : b.stamps ++ t :: times = b.stamps ++ [t] ++ times := by simp
    rw [happend] at h ⊢
    rw [appendStamps_cons_ok hextend]
    exact ih (b := { b with stamps := b.stamps ++ [t] }) h

end Book

/-! ## The invariant of a ledger -/

namespace Ledger

variable {kind? : SetId → Option Kind} {l : Ledger}

/-- Every task waits in the queue of its group, the sets and the timeline are there, and no other
sets. -/
structure Sound (l : Ledger) (kind? : SetId → Option Kind) : Prop where
  routed : l.staffed.pool.Routed
  kind?_eq : l.book.kind? = kind?
  unknown : ∀ id, kind? id = none → ∀ value, l.book.lists id value = []
  isLive : l.timeline.isDisposed = false

/-- In a fresh index nothing waits yet. -/
theorem sound_start (u : Setup) : u.ledger.Sound u.ledger.book.kind? :=
  ⟨Pool.routed_start _, rfl, fun _ _ _ => rfl, rfl⟩

/-- Handing a task on puts it into the queue of its group. -/
theorem Sound.hand (h : l.Sound kind?) (t : Task) : (l.hand t).Sound kind? := by
  have hbook := book_hand h.routed t
  exact ⟨routed_hand h.routed t, hbook ▸ h.kind?_eq, hbook ▸ h.unknown, h.isLive⟩

/-- What is pending has no part in the invariant. -/
theorem Sound.withPending (h : l.Sound kind?) (pending : SetId → Batch) :
    Sound { l with pending } kind? := ⟨h.routed, h.kind?_eq, h.unknown, h.isLive⟩

/-- Another timeline that has not been disposed of keeps the invariant. -/
theorem Sound.withTimeline (h : l.Sound kind?) (timeline : Timeline)
    (hlive : timeline.isDisposed = false) : Sound { l with timeline } kind? :=
  ⟨h.routed, h.kind?_eq, h.unknown, hlive⟩

/-- A worker makes no set and changes the kind of none. -/
theorem Sound.work (h : l.Sound kind?) (i : Nat) :
    Sound { l with staffed := l.staffed.work Book.perform i } kind? := by
  have hrouted := routed_work h.routed i
  rcases Recorder.work_cases Book.perform l.staffed i with
    hwork | ⟨t, rest, -, hwork⟩ | ⟨rest, -, hwork⟩
  · rw [hwork]
    exact h
  · rw [hwork] at hrouted ⊢
    obtain ⟨hkind, hother⟩ := Book.after_perform t l.book
    refine ⟨hrouted, hkind.trans h.kind?_eq, fun id hid value => ?_, h.isLive⟩
    exact (congrFun (hother id (h.kind?_eq ▸ hid)) value).trans (h.unknown id hid value)
  · rw [hwork] at hrouted ⊢
    exact ⟨hrouted, h.kind?_eq, h.unknown, h.isLive⟩

/-- The ledger with one more event, whose timestamp is pending. -/
def withEvent (l : Ledger) (time : Timestamp) : Ledger :=
  { l with
    timeline := { l.timeline with
      last := some time
      nextId := l.timeline.nextId + 1
      pending := l.timeline.pending.push (.plain time) } }

theorem Sound.withEvent (h : l.Sound kind?) (time : Timestamp) : (l.withEvent time).Sound kind? :=
  h.withTimeline _ h.isLive

/-- What registering an event comes to. -/
theorem register_eq (h : l.Sound kind?) (time : Timestamp) :
    l.register time =
      if l.timeline.last.any (time < ·) then l
      else if (l.withEvent time).timeline.isFull then (l.withEvent time).handOnStamps
      else l.withEvent time := by
  have hlive : l.timeline.checkLive = .ok () := by
    rw [Timeline.checkLive, h.isLive, if_neg Bool.false_ne_true]
  simp only [register, Timeline.accept, hlive]
  cases l.timeline.last.any (time < ·) <;> rfl

/-! ### What a call does -/

/-- What a call does first. -/
inductive Begins (l : Ledger) : Call n → Ledger → Prop
  | push (set : Fin n) (value : ValueId) (key : UInt64) (role : Option Role) :
      Begins l (.push set value key role)
        { l with pending := Function.update l.pending set ((l.pending set).push value
          (((l.book.kind? set).getD .plain).tuple key role)) }
  | register {time : Timestamp} (htime : l.timeline.last.any (time < ·) = false) :
      Begins l (.register time) (l.withEvent time)
  | refuse {time : Timestamp} (htime : l.timeline.last.any (time < ·) = true) :
      Begins l (.register time) l
  | work (worker : Nat) :
      Begins l (.work worker) { l with staffed := l.staffed.work Book.perform worker }
  | raiseBarriers : Begins l .raiseBarriers
      { l with staffed := { l.staffed with pool := l.staffed.pool.raiseBarriers } }
  | takeError : Begins l .takeError
      { l with staffed := { l.staffed with pool := { l.staffed.pool with firstError := none } } }
  /-- Nothing happens, or not yet. -/
  | idle {call : Call n} (hwritten : ∀ kind? set value, call.written kind? set value = [])
      (htime : call.time? = none) : Begins l call l

/-- What a call does then: it may hand on what is pending. -/
inductive Ends (l : Ledger) : Ledger → Prop
  | stay : Ends l l
  | handOn (id : SetId) : Ends l (l.handOn id)
  | handOnStamps : Ends l l.handOnStamps

/-- All that a call does. -/
theorem next_steps (h : l.Sound kind?) (call : Call n) :
    ∃ l₁, l.Begins call l₁ ∧ l₁.Ends (l.next call) := by
  cases call with
  | push set value key role =>
    refine ⟨_, .push set value key role, ?_⟩
    simp only [Ledger.next, push]
    split
    · exact .handOn set
    · exact .stay
  | flushSet set =>
    refine ⟨l, .idle (fun _ _ _ => rfl) rfl, ?_⟩
    simp only [Ledger.next]
    split
    · exact .stay
    · exact .handOn set
  | register time =>
    simp only [Ledger.next, register_eq h]
    split
    · rename_i htime
      exact ⟨l, .refuse htime, .stay⟩
    · rename_i htime
      refine ⟨l.withEvent time, .register (Bool.not_eq_true _ ▸ htime), ?_⟩
      split
      · exact .handOnStamps
      · exact .stay
  | flushStamps =>
    refine ⟨l, .idle (fun _ _ _ => rfl) rfl, ?_⟩
    simp only [Ledger.next]
    split
    · exact .stay
    · exact .handOnStamps
  -- the other calls hand nothing on
  | work worker => exact ⟨_, .work worker, .stay⟩
  | raiseBarriers => exact ⟨_, .raiseBarriers, .stay⟩
  | takeError => exact ⟨_, .takeError, .stay⟩
  | lookUp set value => exact ⟨l, .idle (fun _ _ _ => rfl) rfl, .stay⟩
  | discard set value => exact ⟨l, .idle (fun _ _ _ => rfl) rfl, .stay⟩
  | readPage page => exact ⟨l, .idle (fun _ _ _ => rfl) rfl, .stay⟩

variable {l₁ l₂ : Ledger} {call : Call n}

/-- A call begins with what keeps the invariant. -/
theorem Begins.sound (hbegins : l.Begins call l₁) (h : l.Sound kind?) : l₁.Sound kind? := by
  cases hbegins with
  | push => exact h.withPending _
  | register => exact h.withEvent _
  | refuse => exact h
  | work worker => exact h.work worker
  | raiseBarriers => exact ⟨h.routed.raiseBarriers, h.kind?_eq, h.unknown, h.isLive⟩
  | takeError => exact ⟨⟨h.routed.pos, h.routed.group_eq⟩, h.kind?_eq, h.unknown, h.isLive⟩
  | idle => exact h

/-- Handing on changes nothing but where writes wait. -/
structure Ends.Keeps (kind? : SetId → Option Kind) (l₁ l₂ : Ledger) : Prop where
  sound : l₂.Sound kind?
  book_eq : l₂.book = l₁.book
  firstError_eq : l₂.staffed.pool.firstError = l₁.staffed.pool.firstError
  total_eq : ∀ a : Account kind?, a.total l₂ = a.total l₁
  last_eq : l₂.timeline.last = l₁.timeline.last
  nextId_eq : l₂.timeline.nextId = l₁.timeline.nextId

/-- Handing on keeps the lists, the timeline and the error that waits, and every total. -/
theorem Ends.keeps (hends : l₁.Ends l₂) (h : l₁.Sound kind?) : Ends.Keeps kind? l₁ l₂ := by
  cases hends with
  | stay => exact ⟨h, rfl, rfl, fun _ => rfl, rfl, rfl⟩
  | handOn id =>
    have hp := h.withPending (Function.update l₁.pending id (l₁.pending id).cleared)
    exact ⟨hp.hand _, book_hand hp.routed _, firstError_hand hp.routed _,
      fun a => total_handOn a h.routed id, rfl, rfl⟩
  | handOnStamps =>
    have ht := h.withTimeline l₁.timeline.cleared h.isLive
    exact ⟨ht.hand _, book_hand ht.routed _, firstError_hand ht.routed _,
      fun a => total_handOnStamps a h.routed, rfl, rfl⟩

/-- One step: every call keeps the invariant. -/
theorem Sound.next (h : l.Sound kind?) (call : Call n) : (l.next call).Sound kind? := by
  obtain ⟨l₁, hbegins, hends⟩ := next_steps h call
  exact (hends.keeps (hbegins.sound h)).sound

/-- Any number of calls keeps the invariant. -/
theorem Sound.run (h : l.Sound kind?) (calls : List (Call n)) : (l.run calls).Sound kind? := by
  induction calls generalizing l with
  | nil => exact h
  | cons call calls ih => exact ih (h.next call)

/-! ## What is written to lists -/

/-- Only who takes an error loses it. -/
theorem firstError_of_next (h : l.Sound kind?) (hcall : call ≠ .takeError)
    (hnone : (l.next call).staffed.pool.firstError = none) : l.staffed.pool.firstError = none := by
  obtain ⟨l₁, hbegins, hends⟩ := next_steps h call
  have hnone₁ := (hends.keeps (hbegins.sound h)).firstError_eq.symm.trans hnone
  cases hbegins with
  | push => exact hnone₁
  | register => exact hnone₁
  | refuse => exact hnone₁
  | work => exact firstError_work hnone₁
  | raiseBarriers => exact hnone₁
  | takeError => exact absurd rfl hcall
  | idle => exact hnone₁

variable {set : SetId} {k : Kind}

/-- A write is the last one of its list. -/
theorem pending_push (hset : kind? set = some k) (value : ValueId) (pending : SetId → Batch)
    (timeline : Timeline) (id : SetId) (value' : ValueId) (t : Tuple) :
    (Account.ofList hset value).pending
        (Function.update pending id ((pending id).push value' t)) timeline =
      (Account.ofList hset value).pending pending timeline ++
        if id = set ∧ value' = value then [t] else [] := by
  show entriesOf value (Function.update pending id ((pending id).push value' t) set).entries.toList =
    entriesOf value (pending set).entries.toList ++ if id = set ∧ value' = value then [t] else []
  by_cases hid : id = set
  · rw [hid, Function.update_self, Batch.push, Array.toList_push, entriesOf_append]
    by_cases hvalue : value' = value <;> simp [entriesOf, hvalue]
  · rw [Function.update_of_ne (Ne.symm hid), if_neg fun h => hid h.1, List.append_nil]

/-- A call writes its tuples to the list, as long as no task fails. -/
theorem total_next (h : l.Sound kind?) (hset : kind? set = some k) (value : ValueId)
    (call : Call n) (hnone : (l.next call).staffed.pool.firstError = none) :
    (Account.ofList hset value).total (l.next call) =
      (Account.ofList hset value).total l ++ call.written kind? set value := by
  obtain ⟨l₁, hbegins, hends⟩ := next_steps h call
  have hkeeps := hends.keeps (hbegins.sound h)
  have hnone₁ := hkeeps.firstError_eq.symm.trans hnone
  rw [hkeeps.total_eq]
  cases hbegins with
  | push set' value' key role =>
    rw [Account.total, pending_push, ← List.append_assoc, h.kind?_eq]
    rfl
  | register => exact (List.append_nil _).symm
  | refuse => exact (List.append_nil _).symm
  | work => exact (total_work _ h.routed h.kind?_eq hnone₁).trans (List.append_nil _).symm
  | raiseBarriers => exact (total_raiseBarriers _).trans (List.append_nil _).symm
  | takeError => exact (List.append_nil _).symm
  | idle hwritten => rw [hwritten, List.append_nil]

/-- Whoever asks for an error finds none. -/
def NeverFails : Ledger → List (Call n) → Prop
  | _, [] => True
  | l, call :: calls =>
    (call = .takeError → l.staffed.pool.firstError = none) ∧ NeverFails (l.next call) calls

/-- Nobody is handed an error in a run if nobody is in either of its parts. -/
theorem neverFails_append {calls more : List (Call n)} :
    l.NeverFails (calls ++ more) ↔ l.NeverFails calls ∧ (l.run calls).NeverFails more := by
  induction calls generalizing l with
  | nil => simp [NeverFails, run]
  | cons call calls ih => simp only [List.cons_append, NeverFails, ih, and_assoc]; rfl

/-- Nobody is handed an error if nobody asks. -/
theorem neverFails_of_noTake {calls : List (Call n)} (h : ∀ call ∈ calls, call ≠ .takeError) :
    l.NeverFails calls := by
  induction calls generalizing l with
  | nil => trivial
  | cons call calls ih =>
    obtain ⟨hcall, hrest⟩ := List.forall_mem_cons.mp h
    exact ⟨fun heq => absurd heq hcall, ih hrest⟩

/-- As long as nothing fails, a run adds to a list what is written to it, and in this order. -/
theorem total_run (h : l.Sound kind?) (hset : kind? set = some k) (value : ValueId)
    {calls : List (Call n)} (hcalls : l.NeverFails calls)
    (hnone : (l.run calls).staffed.pool.firstError = none) :
    l.staffed.pool.firstError = none ∧
      (Account.ofList hset value).total (l.run calls) =
        (Account.ofList hset value).total l ++ calls.flatMap (·.written kind? set value) := by
  induction calls generalizing l with
  | nil => exact ⟨hnone, (List.append_nil _).symm⟩
  | cons call calls ih =>
    obtain ⟨htake, hrest⟩ := hcalls
    obtain ⟨hnext, htotal⟩ := ih (h.next call) hrest hnone
    refine ⟨?_, ?_⟩
    · by_cases hcall : call = .takeError
      · exact htake hcall
      · exact firstError_of_next h hcall hnext
    · show (Account.ofList hset value).total ((l.next call).run calls) = _
      rw [htotal, total_next h hset value call hnext, List.append_assoc, List.flatMap_cons]

/-! ## Which events are registered -/

/-- The timestamps of a ledger, wherever they are. They never decrease, and the timeline knows the last
one and how many there are. -/
structure Timed (l : Ledger) (kind? : SetId → Option Kind) (times : List Tuple) : Prop where
  total_eq : (Account.ofStamps : Account kind?).total l = times
  sorted : Cursor.Sorted times
  last : l.timeline.last = times.getLast?.map Tuple.key
  nextId : l.timeline.nextId = UInt64.ofNat times.length

variable {times : List Tuple} {l' : Ledger}

/-- What keeps the total and the timeline keeps the timestamps. -/
theorem Timed.of_eq (ht : l.Timed kind? times)
    (htotal : (Account.ofStamps : Account kind?).total l' = (Account.ofStamps : Account kind?).total l)
    (hlast : l'.timeline.last = l.timeline.last) (hnextId : l'.timeline.nextId = l.timeline.nextId) :
    l'.Timed kind? times :=
  ⟨htotal.trans ht.total_eq, ht.sorted, hlast.trans ht.last, hnextId.trans ht.nextId⟩

/-- Timestamps that leave their queue are appended: they are the next of the total, which is sorted. -/
theorem Timed.perform_stamps (h : l.Sound kind?) (ht : l.Timed kind? times) {i : Nat}
    {more : List Tuple} {rest : List (Job Task)}
    (hget : l.staffed.pool.queues[i]? = some (.task (.stamps more) :: rest)) :
    Book.perform (.stamps more) l.book = .ok () { l.book with stamps := l.book.stamps ++ more } := by
  have hsorted := ht.sorted
  rw [← ht.total_eq, Account.total,
    Account.ofStamps.queued_pop (q := (l.staffed.work Book.perform i).pool) h.routed hget
      (by rw [Recorder.work_task hget]; exact Recorder.queues_record _ _),
    ← List.append_assoc, List.append_assoc] at hsorted
  exact Book.appendStamps_of_sorted (List.pairwise_append.mp hsorted).1

/-- The tasks of other groups may fail, those of timestamps never do. -/
theorem Timed.total_work (h : l.Sound kind?) (ht : l.Timed kind? times) (i : Nat) :
    (Account.ofStamps : Account kind?).total { l with staffed := l.staffed.work Book.perform i } =
      (Account.ofStamps : Account kind?).total l := by
  by_cases htask : ∃ t rest, l.staffed.pool.queues[i]? = some (.task t :: rest)
  · obtain ⟨t, rest, hget⟩ := htask
    refine total_work_of_task _ h.routed hget ?_
    cases t with
    | batch id entries =>
      obtain ⟨lists, hafter, -⟩ := Book.after_batch id entries l.book
      exact (congrArg Book.stamps hafter).trans (List.append_nil _).symm
    | stamps more =>
      rw [Act.after_ok (ht.perform_stamps h hget)]
      rfl
  · exact total_work_of_idle _ h.routed fun t rest hget => htask ⟨t, rest, hget⟩

/-- An event is registered at the end. -/
theorem Timed.withEvent (ht : l.Timed kind? times) {time : Timestamp}
    (htime : l.timeline.last.any (time < ·) = false) :
    (l.withEvent time).Timed kind? (times ++ [.plain time]) := by
  refine ⟨?_, ?_, by simp [Ledger.withEvent, Tuple.plain], ?_⟩
  · have hpending : (Account.ofStamps : Account kind?).pending l.pending (l.withEvent time).timeline =
        (Account.ofStamps : Account kind?).pending l.pending l.timeline ++ [.plain time] :=
      Array.toList_push ..
    rw [← ht.total_eq, Account.total, Account.total, List.append_assoc _ _ [_], ← hpending]
    rfl
  · refine List.pairwise_append.mpr ⟨ht.sorted, List.pairwise_singleton _ _, fun t hmem u hu => ?_⟩
    rw [List.mem_singleton.mp hu]
    obtain ⟨last, hlast⟩ := Option.ne_none_iff_exists'.mp
      (fun hnone => List.ne_nil_of_mem hmem (List.getLast?_eq_none_iff.mp hnone))
    rw [ht.last, hlast] at htime
    simp only [Option.map_some, Option.any_some, decide_eq_false_iff_not, UInt64.not_lt] at htime
    exact UInt64.le_trans (ht.sorted.le_getLast hlast hmem) htime
  · show l.timeline.nextId + 1 = _
    rw [ht.nextId, List.length_append, List.length_singleton, UInt64.ofNat_add]
    rfl

/-- Every call registers its event, if it has one that is not refused, and loses none. -/
theorem Timed.next (h : l.Sound kind?) (ht : l.Timed kind? times) (call : Call n) :
    (l.next call).Timed kind?
      (times ++ (accepted (times.getLast?.map Tuple.key) call.time?.toList).map Tuple.plain) := by
  obtain ⟨l₁, hbegins, hends⟩ := next_steps h call
  have hkeeps := hends.keeps (hbegins.sound h)
  refine Timed.of_eq (l := l₁) ?_ (hkeeps.total_eq _) hkeeps.last_eq hkeeps.nextId_eq
  rw [← ht.last]
  -- most calls bring no time that is accepted
  have hnothing {l₁ : Ledger} (h₁ : l₁.Timed kind? times) :
      l₁.Timed kind? (times ++ (accepted l.timeline.last []).map Tuple.plain) := by
    rwa [accepted, List.map_nil, List.append_nil]
  cases hbegins with
  | push => exact hnothing (ht.of_eq rfl rfl rfl)
  | @register time htime =>
    simp only [Call.time?, Option.toList_some, accepted, htime, Bool.false_eq_true, if_false]
    exact ht.withEvent htime
  | @refuse time htime =>
    simp only [Call.time?, Option.toList_some, accepted, htime, if_true]
    exact hnothing ht
  | work worker => exact hnothing (ht.of_eq (ht.total_work h worker) rfl rfl)
  | raiseBarriers => exact hnothing (ht.of_eq (total_raiseBarriers _) rfl rfl)
  | takeError => exact hnothing (ht.of_eq rfl rfl rfl)
  | idle hwritten htime =>
    rw [htime]
    exact hnothing ht

/-- After a run, the timestamps are those before and the accepted ones. -/
theorem Timed.run (h : l.Sound kind?) (ht : l.Timed kind? times) (calls : List (Call n)) :
    (l.run calls).Timed kind? (times ++
      (accepted (times.getLast?.map Tuple.key) (calls.filterMap Call.time?)).map Tuple.plain) := by
  induction calls generalizing l times with
  | nil =>
    rw [List.filterMap_nil, accepted, List.map_nil, List.append_nil]
    exact ht
  | cons call calls ih =>
    have hrest := ih (h.next call) (ht.next h call)
    -- a refused timestamp leaves the last one as it was, so that the runs can be put together
    have hsplit : (call :: calls).filterMap Call.time? =
        call.time?.toList ++ calls.filterMap Call.time? := by
      cases htime : call.time? <;> simp [htime]
    have hlast (times : List Tuple) (more : List Timestamp) :
        (times ++ more.map Tuple.plain).getLast?.map Tuple.key =
          more.getLast?.or (times.getLast?.map Tuple.key) := by
      rw [List.getLast?_append, List.getLast?_map]
      cases more.getLast? <;> rfl
    rw [hlast, List.append_assoc, ← List.map_append, ← accepted_append, ← hsplit] at hrest
    exact hrest

end Ledger

end EventIndex
