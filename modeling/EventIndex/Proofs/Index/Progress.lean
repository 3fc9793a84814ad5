import EventIndex.Proofs.Index.Batches
import EventIndex.Proofs.Index.Rest

/-! # Progress — the batches of a single worker

With a single worker there is one queue, so that batches are tried in the order in which they were
handed on. `Progress` says where they are: some have been tried, and the lists and the first error are
what has come of them; the others wait in the queue. Every call keeps this (`Progress.next`), and when
the queue is empty all batches have been tried.

Main results:

* `Progress.push`: a write joins its batch, which is handed on when it is full.
* `Progress.work`: the worker tries the batch at the front of the queue.
* `Progress.next`, `Progress.run`: every call, and any number of them.
-/

namespace EventIndex

variable {n : Nat}

/-- The batch of a job. -/
def Job.batch? : Job Task → Option (SetId × List (ValueId × Tuple))
  | .task (.batch id entries) => some (id, entries)
  | .task (.stamps _) | .barrier => none

/-- What a call does to the batches of an index. -/
def Batching.next (kind? : SetId → Option Kind) (size : Nat) (b : Batching) : Call n → Batching
  | .push set value key role => b.add size set (value, ((kind? set).getD .plain).tuple key role)
  | .flushSet set => b.handOn set
  | _ => b

namespace Ledger

variable {kind? : SetId → Option Kind} {l : Ledger} {size : Nat}
  {lists : SetId → ValueId → List Tuple} {b : Batching} {done : List Trial} {queue : List (Job Task)}
  {times : List Tuple}

/-- There is one queue, and a given number of writes makes a batch. -/
structure Single (l : Ledger) (n size : Nat) : Prop where
  queue : l.staffed.pool.queues.length = 1
  limit : ∀ id : Fin n, (l.pending id).limit = size

/-- Of the batches handed on since the lists were as given, some were tried and the others wait. -/
structure Progress (l : Ledger) (n : Nat) (kind? : SetId → Option Kind) (size : Nat)
    (lists : SetId → ValueId → List Tuple) (b : Batching) (done : List Trial)
    (queue : List (Job Task)) : Prop where
  limit : ∀ id : Fin n, (l.pending id).limit = size
  waiting : ∀ id : Fin n, (l.pending id).entries.toList = b.waiting id
  queues : l.staffed.pool.queues = [queue]
  handed : b.handed = done.map Trial.batch ++ queue.filterMap Job.batch?
  known : ∀ batch ∈ queue.filterMap Job.batch?, ∃ k, kind? batch.1 = some k
  tried : Tried kind? lists done
  lists_eq : ∀ set value,
    l.book.lists set value = lists set value ++ tuplesIn set value (done.map Trial.keptPart)
  firstError : l.staffed.pool.firstError = done.findSome? Trial.error

/-! ## One queue -/

/-- Pending writes may be replaced, if the same number of them makes a batch. -/
theorem Single.withPending (h : l.Single n size) {id : SetId} {batch : Batch}
    (hlimit : batch.limit = (l.pending id).limit) :
    Single { l with pending := Function.update l.pending id batch } n size := by
  refine ⟨h.queue, fun other => ?_⟩
  show (Function.update l.pending id batch other).limit = size
  by_cases heq : (other : SetId) = id
  · rw [heq, Function.update_self, hlimit, ← heq]
    exact h.limit other
  · rw [Function.update_of_ne heq]
    exact h.limit other

/-- Handing a task on makes no other queue. -/
theorem Single.hand (h : l.Single n size) (hrouted : l.staffed.pool.Routed) (t : Task) :
    (l.hand t).Single n size := by
  refine ⟨?_, h.limit⟩
  rw [staffed_hand hrouted]
  exact (List.length_modify ..).trans h.queue

/-- A call begins without making another queue. -/
theorem Begins.single {l₁ : Ledger} {call : Call n} (hbegins : l.Begins call l₁)
    (h : l.Single n size) : l₁.Single n size := by
  cases hbegins with
  | push => exact h.withPending rfl
  | register => exact ⟨h.queue, h.limit⟩
  | refuse => exact h
  | work worker =>
    refine ⟨?_, h.limit⟩
    rcases hget : l.staffed.pool.queues[worker]? with _ | _ | ⟨job, rest⟩
    · exact (congrArg (·.pool.queues.length) (Recorder.work_idle (.inl hget))).trans h.queue
    · exact (congrArg (·.pool.queues.length) (Recorder.work_idle (.inr hget))).trans h.queue
    · exact (congrArg List.length (Staffed.queues_work hget)).trans
        (List.length_set.trans h.queue)
  | raiseBarriers => exact ⟨(List.length_map ..).trans h.queue, h.limit⟩
  | takeError => exact ⟨h.queue, h.limit⟩
  | idle => exact h

/-- Handing on makes no other queue. -/
theorem Ends.single {l₁ l₂ : Ledger} (hends : l₁.Ends l₂) (hs : l₁.Sound kind?)
    (h : l₁.Single n size) : l₂.Single n size := by
  cases hends with
  | stay => exact h
  | handOn id =>
    have hlimit : (l₁.pending id).cleared.limit = (l₁.pending id).limit := rfl
    have hcleared := h.withPending hlimit
    exact hcleared.hand hs.routed _
  | handOnStamps =>
    have hcleared : Single { l₁ with timeline := l₁.timeline.cleared } n size := ⟨h.queue, h.limit⟩
    exact hcleared.hand hs.routed _

/-- No call makes another queue, or changes what makes a batch. -/
theorem Single.next (h : l.Single n size) (hs : l.Sound kind?) (call : Call n) :
    (l.next call).Single n size := by
  obtain ⟨l₁, hbegins, hends⟩ := next_steps hs call
  exact hends.single (hbegins.sound hs) (hbegins.single h)

/-- There is one queue whatever calls come. -/
theorem Single.run (h : l.Single n size) (hs : l.Sound kind?) (calls : List (Call n)) :
    (l.run calls).Single n size := by
  induction calls generalizing l with
  | nil => exact h
  | cons call calls ih => exact ih (h.next hs call) (hs.next call)

/-- At rest, no batch has been handed on yet. -/
theorem Rested.progress (h : l.Rested n) (hsingle : l.Single n size) :
    l.Progress n kind? size l.book.lists .start [] [] where
  limit := hsingle.limit
  waiting id := congrArg Array.toList (h.pending id)
  queues := by
    obtain ⟨queue, hqueue⟩ := List.length_eq_one_iff.mp hsingle.queue
    rw [hqueue, h.queues queue (hqueue ▸ List.mem_singleton_self _)]
  handed := rfl
  known := by rintro _ ⟨⟩
  tried := .nil
  lists_eq _ _ := (List.append_nil _).symm
  firstError := h.firstError

/-! ## Pending writes -/

/-- The pending writes of a set are replaced. -/
theorem Progress.withPending (h : l.Progress n kind? size lists b done queue) (set : Fin n)
    {batch : Batch} {entries : List (ValueId × Tuple)} (hlimit : batch.limit = size)
    (hentries : batch.entries.toList = entries) :
    Progress { l with pending := Function.update l.pending set batch } n kind? size lists
      { b with waiting := Function.update b.waiting set entries } done queue := by
  have hupdate (id : Fin n) : (Function.update l.pending set batch id).limit = size ∧
      (Function.update l.pending set batch id).entries.toList =
        Function.update b.waiting set entries id := by
    by_cases heq : (id : SetId) = set
    · rw [heq, Function.update_self, Function.update_self]
      exact ⟨hlimit, hentries⟩
    · rw [Function.update_of_ne heq, Function.update_of_ne heq]
      exact ⟨h.limit id, h.waiting id⟩
  exact { h with limit := fun id => (hupdate id).1, waiting := fun id => (hupdate id).2 }

/-- A write that waits in its batch is no batch yet. -/
theorem Progress.wait (h : l.Progress n kind? size lists b done queue) (set : Fin n)
    (value : ValueId) (t : Tuple) :
    Progress { l with pending := Function.update l.pending set ((l.pending set).push value t) } n
      kind? size lists (b.wait set (value, t)) done queue := by
  apply h.withPending set
  · exact h.limit set
  · rw [Batch.push, Array.toList_push, h.waiting]

/-! ## Handing on -/

/-- A task joins the queue. -/
theorem Progress.hand (h : l.Progress n kind? size lists b done queue)
    (hrouted : l.staffed.pool.Routed) (t : Task)
    (hknown : ∀ batch ∈ Job.batch? (.task t), ∃ k, kind? batch.1 = some k) :
    (l.hand t).Progress n kind? size lists
      { b with handed := b.handed ++ (Job.batch? (.task t)).toList } done (queue ++ [.task t]) := by
  have hbook := book_hand hrouted t
  have hbatch : (queue ++ [Job.task t]).filterMap Job.batch? =
      queue.filterMap Job.batch? ++ (Job.batch? (.task t)).toList := by
    rw [List.filterMap_append]
    cases hjob : Job.batch? (.task t) <;> simp [hjob]
  refine ⟨h.limit, h.waiting, ?_, ?_, ?_, h.tried, ?_, ?_⟩
  · rw [staffed_hand hrouted]
    -- there is one queue, so every group has it
    show l.staffed.pool.queues.modify (t.group % l.staffed.pool.queues.length) _ = _
    rw [h.queues, List.length_singleton, Nat.mod_one]
    rfl
  · rw [hbatch, h.handed, List.append_assoc]
  · rw [hbatch]
    intro batch hmem
    rcases List.mem_append.mp hmem with hmem | hmem
    · exact h.known batch hmem
    · exact hknown batch (Option.mem_toList.mp hmem)
  · rw [hbook]
    exact h.lists_eq
  · rw [firstError_hand hrouted, h.firstError]

/-- A batch that is handed on goes to the end of the queue. -/
theorem Progress.handOn (h : l.Progress n kind? size lists b done queue)
    (hrouted : l.staffed.pool.Routed) {set : Fin n} {k : Kind} (hkind : kind? set = some k)
    (hne : b.waiting set ≠ []) :
    ∃ queue', (l.handOn set).Progress n kind? size lists (b.handOn set) done queue' := by
  have hlimit : (l.pending set).cleared.limit = size := h.limit set
  have hcleared := h.withPending set hlimit rfl
  have hhanded := hcleared.hand hrouted (.batch set (l.pending set).entries.toList)
    (by rintro _ ⟨⟩; exact ⟨k, hkind⟩)
  rw [Batching.handOn, if_neg hne, ← h.waiting set]
  exact ⟨_, hhanded⟩

/-- Timestamps in the queue are no batch. -/
theorem Progress.handOnStamps (h : l.Progress n kind? size lists b done queue)
    (hrouted : l.staffed.pool.Routed) :
    ∃ queue', l.handOnStamps.Progress n kind? size lists b done queue' := by
  -- the batches are not among the timestamps
  have hcleared : Progress { l with timeline := l.timeline.cleared } n kind? size lists b done
      queue := { h with }
  have hhanded := hcleared.hand hrouted (.stamps l.timeline.pending.toList) (by rintro _ ⟨⟩)
  have hnothing : b.handed ++ (Job.batch? (.task (.stamps l.timeline.pending.toList))).toList =
      b.handed := List.append_nil _
  rw [hnothing] at hhanded
  exact ⟨_, hhanded⟩

/-- A write joins those of its set, and a full batch is handed on. -/
theorem Progress.push (h : l.Progress n kind? size lists b done queue)
    (hrouted : l.staffed.pool.Routed) {set : Fin n} {k : Kind} (hkind : kind? set = some k)
    (value : ValueId) (t : Tuple) :
    ∃ queue', (l.push set value t).Progress n kind? size lists (b.add size set (value, t)) done
      queue' := by
  have hwait := h.wait set value t
  have hfull : (Function.update l.pending (set : SetId) ((l.pending set).push value t) set).isFull =
      true ↔ size ≤ ((b.wait set (value, t)).waiting set).length := by
    rw [← hwait.waiting set, Array.length_toList, Batch.isFull, decide_eq_true_iff]
    exact Eq.to_iff (congrArg (· ≤ _) (hwait.limit set))
  rw [Ledger.push, Batching.add]
  by_cases hsize : size ≤ ((b.wait set (value, t)).waiting set).length
  · rw [if_pos hsize]
    simp only [hfull.2 hsize, if_true]
    exact hwait.handOn hrouted hkind (by simp [Batching.waiting_wait])
  · rw [if_neg hsize]
    simp only [mt hfull.1 hsize]
    exact ⟨queue, hwait⟩

/-! ## Working -/

/-- The first error is kept. -/
theorem firstError_record (p : Pool Task) (e : Option StorageError) :
    (p.record e).firstError = p.firstError.or e := by
  cases e with
  | none => exact (Option.or_none).symm
  | some e => cases hfirst : p.firstError <;> simp [Pool.record, hfirst]

section Working

variable {set : SetId} {entries : List (ValueId × Tuple)} {rest : List (Job Task)}

/-- The one queue is the first. -/
theorem Progress.getElem?_queues (h : l.Progress n kind? size lists b done queue) :
    l.staffed.pool.queues[0]? = some queue := by
  rw [h.queues]
  rfl

/-- Another queue in its place is the only one. -/
theorem Progress.set_queues (h : l.Progress n kind? size lists b done queue)
    (rest : List (Job Task)) : l.staffed.pool.queues.set 0 rest = [rest] := by
  rw [h.queues]
  rfl

/-- The oldest batch is tried. -/
theorem Progress.tryBatch
    (h : l.Progress n kind? size lists b done (.task (.batch set entries) :: rest))
    (hs : l.Sound kind?) :
    ∃ t : Trial, Progress { l with staffed := l.staffed.work Book.perform 0 } n kind? size lists b
      (done ++ [t]) rest := by
  obtain ⟨k, hkind⟩ := h.known (set, entries) List.mem_cons_self
  obtain ⟨t, hbatch, hgoes, herror, hafter⟩ :=
    Book.exists_trial (hs.kind?_eq ▸ hkind : l.book.kind? set = some k) entries
  have hset : t.set = set := congrArg Prod.fst hbatch
  rw [Recorder.work_task h.getElem?_queues]
  refine ⟨t, h.limit, h.waiting, ?_, ?_, ?_, ?_, ?_, ?_⟩
  · exact (Recorder.queues_record _ _).trans (h.set_queues rest)
  · rw [List.map_append, List.map_singleton, hbatch, List.append_assoc]
    exact h.handed
  · intro batch hmem
    exact h.known batch (List.mem_cons_of_mem _ hmem)
  · -- the lists in the book are those that the batches before have left
    refine .snoc h.tried (hset ▸ hkind) ?_
    have hlists : (fun value => lists t.set value ++
        tuplesIn t.set value (done.map Trial.keptPart)) = l.book.lists set := by
      funext value
      rw [hset, h.lists_eq]
    rw [hlists]
    exact hgoes
  · intro id value
    rw [List.map_append, tuplesIn_append, ← List.append_assoc, ← h.lists_eq]
    exact hafter id value
  · have hone : [t].findSome? Trial.error = t.error := by
      cases hfailed : t.error <;> simp [hfailed]
    rw [List.findSome?_append, ← h.firstError, hone, ← herror]
    exact firstError_record _ _

/-- The worker tries the oldest batch, or does what changes neither lists nor errors. -/
theorem Progress.work (h : l.Progress n kind? size lists b done queue) (hs : l.Sound kind?)
    (ht : l.Timed kind? times) (i : Nat) :
    ∃ done' queue', Progress { l with staffed := l.staffed.work Book.perform i } n kind? size lists b
      done' queue' := by
  cases i with
  | succ i =>
    have hnone : l.staffed.pool.queues[i + 1]? = none := by
      rw [h.queues]
      rfl
    rw [Recorder.work_idle (.inl hnone)]
    exact ⟨done, queue, h⟩
  | zero =>
    match queue with
    | [] =>
      rw [Recorder.work_idle (.inr h.getElem?_queues)]
      exact ⟨done, [], h⟩
    | .barrier :: rest =>
      rw [Recorder.work_barrier h.getElem?_queues]
      exact ⟨done, rest, { h with queues := h.set_queues rest }⟩
    | .task (.stamps times) :: rest =>
      -- timestamps never fail, and touch no list
      have hrun := ht.perform_stamps hs h.getElem?_queues
      have hrun' : Book.perform (.stamps times) l.staffed.state = _ := hrun
      rw [Recorder.work_task h.getElem?_queues, Act.after_ok hrun', Act.outcome_ok hrun']
      exact ⟨done, rest, { h with queues := h.set_queues rest }⟩
    | .task (.batch set entries) :: rest =>
      obtain ⟨t, htried⟩ := h.tryBatch hs
      exact ⟨done ++ [t], rest, htried⟩

end Working

/-! ## Any calls -/

/-- The pending writes of a set are handed on, if there are any. -/
theorem Progress.flushSet (h : l.Progress n kind? size lists b done queue) (hs : l.Sound kind?)
    {set : Fin n} {k : Kind} (hkind : kind? set = some k) :
    ∃ queue', (l.next (.flushSet set : Call n)).Progress n kind? size lists (b.handOn set) done
      queue' := by
  have hempty : (l.pending set).isEmpty = true ↔ b.waiting set = [] := by
    rw [← h.waiting set, Batch.isEmpty, Array.isEmpty_iff, Array.toList_eq_nil_iff]
  rw [Ledger.next]
  by_cases hnil : b.waiting set = []
  · rw [if_pos (hempty.2 hnil), Batching.handOn, if_pos hnil]
    exact ⟨queue, h⟩
  · rw [if_neg (mt hempty.1 hnil)]
    exact h.handOn hs.routed hkind hnil

/-- Events are no writes to a list. -/
theorem Progress.register (h : l.Progress n kind? size lists b done queue) (hs : l.Sound kind?)
    (time : Timestamp) :
    ∃ queue', (l.next (.register time : Call n)).Progress n kind? size lists b done queue' := by
  have hevent : (l.withEvent time).Progress n kind? size lists b done queue := { h with }
  rw [Ledger.next, register_eq hs]
  split
  · exact ⟨queue, h⟩
  · split
    · exact hevent.handOnStamps hs.routed
    · exact ⟨queue, hevent⟩

/-- A barrier in the queue is no batch. -/
theorem Progress.raiseBarriers (h : l.Progress n kind? size lists b done queue) :
    (l.next (.raiseBarriers : Call n)).Progress n kind? size lists b done
      (queue ++ [Job.barrier]) := by
  have hqueues : l.staffed.pool.queues.map (· ++ [Job.barrier]) = [queue ++ [Job.barrier]] := by
    rw [h.queues]
    rfl
  have hbatches : (queue ++ [Job.barrier]).filterMap Job.batch? = queue.filterMap Job.batch? := by
    rw [List.filterMap_append]
    exact List.append_nil _
  exact { h with
    queues := hqueues
    handed := hbatches ▸ h.handed
    known := hbatches ▸ h.known }

/-- What a call that takes no error does to the batches. -/
theorem Progress.next (h : l.Progress n kind? size lists b done queue) (hs : l.Sound kind?)
    (ht : l.Timed kind? times) (hkinds : ∀ set : Fin n, ∃ k, kind? set = some k) {call : Call n}
    (hcall : call ≠ .takeError) :
    ∃ done' queue', (l.next call).Progress n kind? size lists (b.next kind? size call) done'
      queue' := by
  cases call with
  | push set value key role =>
    obtain ⟨k, hkind⟩ := hkinds set
    rw [Ledger.next, hs.kind?_eq]
    exact ⟨done, h.push hs.routed hkind value (((kind? set).getD .plain).tuple key role)⟩
  | flushSet set =>
    obtain ⟨k, hkind⟩ := hkinds set
    exact ⟨done, h.flushSet hs hkind⟩
  | register time => exact ⟨done, h.register hs time⟩
  | flushStamps =>
    rw [Ledger.next]
    split
    · exact ⟨done, queue, h⟩
    · exact ⟨done, h.handOnStamps hs.routed⟩
  | work worker => exact h.work hs ht worker
  | raiseBarriers => exact ⟨done, _, h.raiseBarriers⟩
  | takeError => exact absurd rfl hcall
  -- readers write nothing
  | lookUp set value => exact ⟨done, queue, h⟩
  | discard set value => exact ⟨done, queue, h⟩
  | readPage page => exact ⟨done, queue, h⟩

/-- What calls that take no error do to the batches. -/
theorem Progress.run (h : l.Progress n kind? size lists b done queue) (hs : l.Sound kind?)
    (ht : l.Timed kind? times) (hkinds : ∀ set : Fin n, ∃ k, kind? set = some k)
    {calls : List (Call n)} (hcalls : ∀ call ∈ calls, call ≠ .takeError) :
    ∃ done' queue', (l.run calls).Progress n kind? size lists
      (calls.foldl (Batching.next kind? size) b) done' queue' := by
  induction calls generalizing l b done queue times with
  | nil => exact ⟨done, queue, h⟩
  | cons call calls ih =>
    obtain ⟨hcall, hrest⟩ := List.forall_mem_cons.mp hcalls
    obtain ⟨done', queue', hnext⟩ := h.next hs ht hkinds hcall
    exact ih hnext (hs.next call) (ht.next hs call) hrest

end Ledger

end EventIndex
