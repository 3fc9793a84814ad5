import EventIndex.Proofs.Index.Simulation

/-! # Accounts — nothing that is written gets lost

A write is pending first, then it waits in a queue, and at last it is in its list. An `Account` follows
the writes to one list through these places, and its `total` is all of them in order. Handing writes on
and letting workers take them moves tuples from one place to the next; as long as no task fails, the
total stays as it is.

Main results:

* `Account.total_handOn`, `Account.total_handOnStamps`: handing writes on changes no total.
* `Account.total_work`: neither does a worker that takes a job, if no task fails.
* `Pool.Routed`: every task waits in the queue of its own group. This is why a list gets its tuples in
  order, although several workers work.
-/

namespace EventIndex

/-! ## What tasks add -/

/-- The tuples that entries have for a value. -/
def entriesOf (value : ValueId) (entries : List (ValueId × Tuple)) : List Tuple :=
  (entries.filter (·.1 = value)).map (·.2)

/-- One entry more is one tuple more for its own value. -/
theorem entriesOf_cons (value value' : ValueId) (t : Tuple) (entries : List (ValueId × Tuple)) :
    entriesOf value ((value', t) :: entries) =
      (if value' = value then [t] else []) ++ entriesOf value entries := by
  by_cases h : value' = value <;> simp [entriesOf, h]

theorem entriesOf_append (value : ValueId) (entries more : List (ValueId × Tuple)) :
    entriesOf value (entries ++ more) = entriesOf value entries ++ entriesOf value more := by
  simp [entriesOf]

namespace Task

/-- The tuples that a task adds to the list of a value. -/
def tuplesFor (set : SetId) (value : ValueId) : Task → List Tuple
  | batch id entries => if id = set then entriesOf value entries else []
  | stamps _ => []

/-- The timestamps that a task appends. -/
def times : Task → List Tuple
  | batch _ _ => []
  | stamps times => times

end Task

/-- A batch that does not fail adds all of its entries. -/
theorem Kind.extendEach_ok {k : Kind} {entries : List (ValueId × Tuple)}
    {lists lists' : ValueId → List Tuple} (h : k.extendEach entries lists = .ok () lists')
    (value : ValueId) : lists' value = lists value ++ entriesOf value entries := by
  induction entries generalizing lists with
  | nil =>
    cases h
    simp [entriesOf]
  | cons entry entries ih =>
    obtain ⟨value', t⟩ := entry
    unfold Kind.extendEach at h
    split at h
    · rename_i ts hextend
      rw [ih h, entriesOf_cons, Kind.eq_append_of_extend hextend, ← List.append_assoc]
      congr 1
      by_cases heq : value' = value
      · rw [heq, Function.update_self, if_pos rfl]
      · rw [Function.update_of_ne (Ne.symm heq), if_neg heq, List.append_nil]
    · cases h

/-- Timestamps that are all accepted are all appended. -/
theorem Book.appendStamps_ok {times : List Tuple} {b b' : Book}
    (h : Book.appendStamps times b = .ok () b') : b' = { b with stamps := b.stamps ++ times } := by
  induction times generalizing b with
  | nil =>
    cases h
    rw [List.append_nil]
  | cons t times ih =>
    unfold Book.appendStamps at h
    split at h
    · rename_i stamps hextend
      rw [ih h, Kind.eq_append_of_extend hextend, List.append_assoc]
      rfl
    · cases h

/-- A task that does not fail adds all of its tuples. A batch of a set that there is not does nothing. -/
structure Book.Grown (b b' : Book) (t : Task) : Prop where
  kind?_eq : b'.kind? = b.kind?
  lists : ∀ set k, b.kind? set = some k →
    ∀ value, b'.lists set value = b.lists set value ++ t.tuplesFor set value
  absent : ∀ set, b.kind? set = none → b'.lists set = b.lists set
  stamps : b'.stamps = b.stamps ++ t.times

/-- A task that does not fail adds all of its tuples. -/
theorem Book.perform_ok {t : Task} {b b' : Book} (h : Book.perform t b = .ok () b') :
    b.Grown b' t := by
  cases t with
  | batch id entries =>
    have happly : Book.applyBatch id entries b = .ok () b' := h
    unfold Book.applyBatch at happly
    split at happly
    · rename_i hk
      cases happly
      refine ⟨rfl, fun set k hset value => ?_, fun _ _ => rfl, (List.append_nil _).symm⟩
      -- the set is not there, and the batch is nothing to those that are
      have hne : id ≠ set := by
        rintro rfl
        rw [hk] at hset
        cases hset
      rw [Task.tuplesFor, if_neg hne, List.append_nil]
    · rename_i k hk
      split at happly
      · rename_i lists hlists
        cases happly
        refine ⟨rfl, fun set k' hset value => ?_, fun set hset => ?_, (List.append_nil _).symm⟩
        · -- the lists of the set grow by their entries, those of other sets do not
          by_cases hid : id = set
          · rw [← hid, Task.tuplesFor, if_pos rfl, ← Kind.extendEach_ok hlists value]
            exact congrFun (Function.update_self ..) value
          · rw [Task.tuplesFor, if_neg hid, List.append_nil]
            exact congrFun (Function.update_of_ne (Ne.symm hid) _ _) value
        · refine Function.update_of_ne ?_ _ _
          rintro rfl
          rw [hk] at hset
          cases hset
      · cases happly
  | stamps times =>
    have happend : Book.appendStamps times b = .ok () b' := h
    rw [Book.appendStamps_ok happend]
    exact ⟨rfl, fun _ _ _ _ => (List.append_nil _).symm, fun _ _ => rfl, rfl⟩

/-! ## Accounts -/

/-- What becomes of the writes to one list. All tasks that add to it belong to one group. -/
structure Account (kind? : SetId → Option Kind) where
  group : Nat
  held : Book → List Tuple
  added : Task → List Tuple
  pending : (SetId → Batch) → Timeline → List Tuple
  grown : ∀ {b b' t}, b.kind? = kind? → b.Grown b' t → held b' = held b ++ added t
  elsewhere : ∀ t, t.group ≠ group → added t = []
  handOn_eq : ∀ p timeline id, added (.batch id (p id).entries.toList) ++
    pending (Function.update p id (p id).cleared) timeline = pending p timeline
  handOnStamps_eq : ∀ p timeline, added (.stamps timeline.pending.toList) ++
    pending p timeline.cleared = pending p timeline

namespace Account

variable {kind? : SetId → Option Kind} {l : Ledger}

/-- The account of the list of a value. -/
def ofList {set : SetId} {k : Kind} (h : kind? set = some k) (value : ValueId) :
    Account kind? where
  group := set
  held b := b.lists set value
  added := Task.tuplesFor set value
  pending p _ := entriesOf value (p set).entries.toList
  grown hb hgrown := hgrown.lists set k (hb ▸ h) value
  elsewhere t ht := by
    cases t with
    | batch id entries => exact if_neg ht
    | stamps times => rfl
  handOn_eq p _ id := by
    by_cases hid : id = set
    · rw [hid, Function.update_self, Task.tuplesFor, if_pos rfl]
      exact List.append_nil _
    · rw [Function.update_of_ne (Ne.symm hid), Task.tuplesFor, if_neg hid, List.nil_append]
  handOnStamps_eq _ _ := rfl

/-- The account of the list of timestamps. -/
def ofStamps : Account kind? where
  group := (Task.stamps []).group
  held := Book.stamps
  added := Task.times
  pending _ timeline := timeline.pending.toList
  grown _ hgrown := hgrown.stamps
  elsewhere t ht := by
    cases t with
    | batch id entries => rfl
    | stamps times => exact absurd rfl ht
  handOn_eq _ _ _ := rfl
  handOnStamps_eq _ _ := List.append_nil _

/-- What a job adds. -/
def ofJob (a : Account kind?) : Job Task → List Tuple
  | .task t => a.added t
  | .barrier => []

/-- What waits in the queue of the group. -/
def queued (a : Account kind?) (p : Pool Task) : List Tuple :=
  ((p.queues[a.group % p.queues.length]?).getD []).flatMap a.ofJob

/-- All that was written, wherever it is. -/
def total (a : Account kind?) (l : Ledger) : List Tuple :=
  a.held l.book ++ a.queued l.staffed.pool ++ a.pending l.pending l.timeline

end Account

/-! ## Queues -/

/-- Every task waits in the queue of its group. -/
structure Pool.Routed (p : Pool Task) : Prop where
  pos : 0 < p.queues.length
  group_eq : ∀ i queue, p.queues[i]? = some queue →
    ∀ t, Job.task t ∈ queue → t.group % p.queues.length = i

namespace Pool

variable {p : Pool Task} {t : Task} {i : Nat}

/-- A pool in which tasks are waited for has workers. -/
theorem Routed.isOpen (h : p.Routed) : p.isOpen = true := by
  rw [Pool.isOpen, Bool.not_eq_true', List.isEmpty_eq_false_iff, ← List.length_pos_iff]
  exact h.pos

/-- In a new pool nothing waits. -/
theorem routed_start (workers : Nat) : (start workers : Pool Task).Routed where
  pos := by
    rw [start, List.length_replicate]
    exact Nat.lt_of_lt_of_le Nat.one_pos (Nat.le_max_right _ _)
  group_eq i queue hqueue t ht := by
    rw [List.eq_of_mem_replicate (List.mem_of_getElem? hqueue)] at ht
    cases ht

/-- A task is put into the queue of its group. -/
theorem Routed.enqueue (h : p.Routed) (t : Task) :
    (p.enqueue (t.group % p.queues.length) (.task t)).Routed where
  pos := by
    rw [Pool.enqueue, List.length_modify]
    exact h.pos
  group_eq j queue hqueue u hu := by
    rw [Pool.enqueue, List.length_modify]
    rw [Pool.enqueue, List.getElem?_modify] at hqueue
    obtain ⟨queue', hqueue', heq⟩ := Option.map_eq_some_iff.mp hqueue
    subst heq
    split at hu
    · rename_i hj
      rcases List.mem_append.mp hu with hu | hu
      · exact h.group_eq j queue' hqueue' u hu
      · obtain rfl : u = t := by simpa using hu
        exact hj
    · exact h.group_eq j queue' hqueue' u hu

/-- Jobs may leave the queues. -/
theorem Routed.pop {q : Pool Task} {job : Job Task} {rest : List (Job Task)} (h : p.Routed)
    (hget : p.queues[i]? = some (job :: rest)) (hq : q.queues = p.queues.set i rest) :
    q.Routed where
  pos := by
    rw [hq, List.length_set]
    exact h.pos
  group_eq j queue hqueue u hu := by
    rw [hq, List.length_set]
    rw [hq, List.getElem?_set] at hqueue
    split at hqueue
    · rename_i hij
      split at hqueue
      · cases hqueue
        exact hij ▸ h.group_eq i _ hget u (List.mem_cons_of_mem _ hu)
      · cases hqueue
    · exact h.group_eq j queue hqueue u hu

/-- Barriers are no tasks, and change nothing for those that wait. -/
theorem Routed.raiseBarriers (h : p.Routed) : p.raiseBarriers.Routed where
  pos := by
    rw [Pool.raiseBarriers, List.length_map]
    exact h.pos
  group_eq j queue hqueue u hu := by
    rw [Pool.raiseBarriers, List.length_map]
    rw [Pool.raiseBarriers, List.getElem?_map] at hqueue
    obtain ⟨queue', hqueue', rfl⟩ := Option.map_eq_some_iff.mp hqueue
    exact h.group_eq j queue' hqueue' u (by simpa using hu)

end Pool

namespace Account

variable {kind? : SetId → Option Kind} {a : Account kind?} {p : Pool Task} {t : Task} {i : Nat}

/-- A task that is put into its queue waits behind all others of its account. -/
theorem queued_enqueue (h : p.Routed) (t : Task) :
    a.queued (p.enqueue (t.group % p.queues.length) (.task t)) = a.queued p ++ a.added t := by
  have hlt : a.group % p.queues.length < p.queues.length := Nat.mod_lt _ h.pos
  rw [queued, queued, Pool.enqueue, List.length_modify, List.getElem?_modify,
    List.getElem?_eq_getElem hlt]
  simp only [Option.map_eq_map, Option.map_some, Option.getD_some]
  split
  · rw [List.flatMap_append]
    simp [ofJob]
  · -- the task waits in another queue, so it is none of the account
    rename_i hne
    have hgroup : t.group ≠ a.group := fun heq => hne (heq ▸ rfl)
    rw [a.elsewhere t hgroup, List.append_nil]

/-- A job that leaves its queue was the next of its account, or adds nothing. -/
theorem queued_pop {q : Pool Task} {job : Job Task} {rest : List (Job Task)} (h : p.Routed)
    (hget : p.queues[i]? = some (job :: rest)) (hq : q.queues = p.queues.set i rest) :
    a.queued p = a.ofJob job ++ a.queued q := by
  obtain ⟨hi, -⟩ := List.getElem?_eq_some_iff.mp hget
  rw [queued, queued, hq, List.length_set, List.getElem?_set]
  by_cases hgroup : i = a.group % p.queues.length
  · rw [← hgroup, hget, if_pos rfl, if_pos hi]
    rfl
  · rw [if_neg hgroup]
    cases job with
    | barrier => rfl
    | task t =>
      have ht := h.group_eq i _ hget t List.mem_cons_self
      have hne : t.group ≠ a.group := fun heq => hgroup (heq ▸ ht.symm)
      rw [ofJob, a.elsewhere t hne, List.nil_append]

/-- Barriers add nothing. -/
theorem queued_raiseBarriers (p : Pool Task) : a.queued p.raiseBarriers = a.queued p := by
  rw [queued, queued, Pool.raiseBarriers, List.length_map, List.getElem?_map]
  cases p.queues[a.group % p.queues.length]? with
  | none => rfl
  | some queue => simp [ofJob]

end Account

/-! ## Totals -/

namespace Ledger

variable {kind? : SetId → Option Kind} {l : Ledger}

/-- A task joins the queue of its group. -/
theorem staffed_hand (h : l.staffed.pool.Routed) (t : Task) :
    (l.hand t).staffed = ⟨{ l.staffed.pool.enqueue (t.group % l.staffed.pool.queues.length) (.task t)
      with submitted := l.staffed.pool.submitted + 1 }, l.staffed.state⟩ := by
  simp only [hand, Act.after, Staffed.defer, h.isOpen, if_true]
  rfl

/-- A task that is handed on is not applied yet. -/
theorem book_hand (h : l.staffed.pool.Routed) (t : Task) : (l.hand t).book = l.book := by
  rw [book, staffed_hand h]
  rfl

/-- A task that is handed on goes to the queue of its group. -/
theorem routed_hand (h : l.staffed.pool.Routed) (t : Task) : (l.hand t).staffed.pool.Routed := by
  rw [staffed_hand h]
  exact ⟨(h.enqueue t).pos, (h.enqueue t).group_eq⟩

/-- Handing a task on makes no error. -/
theorem firstError_hand (h : l.staffed.pool.Routed) (t : Task) :
    (l.hand t).staffed.pool.firstError = l.staffed.pool.firstError := by
  rw [staffed_hand h]
  rfl

/-- A task that is handed on waits behind all others of its account, and before what is pending. -/
theorem total_hand (a : Account kind?) (h : l.staffed.pool.Routed) (t : Task) :
    a.total (l.hand t) =
      a.held l.book ++ a.queued l.staffed.pool ++ (a.added t ++ a.pending l.pending l.timeline) := by
  have hqueued : a.queued (l.hand t).staffed.pool = a.queued l.staffed.pool ++ a.added t := by
    rw [staffed_hand h]
    exact a.queued_enqueue h t
  have hbook := book_hand h t
  rw [Account.total, hqueued, hbook, List.append_assoc, List.append_assoc, List.append_assoc]
  rfl

/-- Handing writes on changes no total. -/
theorem total_handOn (a : Account kind?) (h : l.staffed.pool.Routed) (id : SetId) :
    a.total (l.handOn id) = a.total l :=
  (total_hand (l := { l with pending := Function.update l.pending id (l.pending id).cleared }) a h
    _).trans (congrArg _ (a.handOn_eq l.pending l.timeline id))

/-- Handing timestamps on changes no total. -/
theorem total_handOnStamps (a : Account kind?) (h : l.staffed.pool.Routed) :
    a.total l.handOnStamps = a.total l :=
  (total_hand (l := { l with timeline := l.timeline.cleared }) a h _).trans
    (congrArg _ (a.handOnStamps_eq l.pending l.timeline))

/-- Barriers change no total. -/
theorem total_raiseBarriers (a : Account kind?) :
    a.total { l with staffed := { l.staffed with pool := l.staffed.pool.raiseBarriers } } =
      a.total l := by
  simp only [Account.total, Account.queued_raiseBarriers]
  rfl

/-- A worker takes a job. -/
theorem firstError_work {i : Nat}
    (h : (l.staffed.work Book.perform i).pool.firstError = none) :
    l.staffed.pool.firstError = none := by
  rcases Recorder.work_cases Book.perform l.staffed i with
    hwork | ⟨t, rest, -, hwork⟩ | ⟨rest, -, hwork⟩
  · rwa [hwork] at h
  · rw [hwork] at h
    cases hout : Act.outcome (Book.perform t) l.staffed.state with
    | ok u =>
      rw [hout] at h
      exact h
    | error e =>
      rw [hout] at h
      cases h
  · rwa [hwork] at h

/-- Taking a job leaves the others in the queues of their groups. -/
theorem routed_work (h : l.staffed.pool.Routed) (i : Nat) :
    (l.staffed.work Book.perform i).pool.Routed := by
  rcases Recorder.work_cases Book.perform l.staffed i with
    hwork | ⟨t, rest, hget, hwork⟩ | ⟨rest, hget, hwork⟩
  · rwa [hwork]
  · rw [hwork]
    exact h.pop hget (Recorder.queues_record _ _)
  · rw [hwork]
    exact h.pop hget rfl

/-- A task whose tuples come to where they belong moves them on from its queue. -/
theorem total_work_of_task (a : Account kind?) (hr : l.staffed.pool.Routed) {i : Nat} {t : Task}
    {rest : List (Job Task)} (hget : l.staffed.pool.queues[i]? = some (.task t :: rest))
    (hheld : a.held (Act.after (Book.perform t) l.book) = a.held l.book ++ a.added t) :
    a.total { l with staffed := l.staffed.work Book.perform i } = a.total l := by
  have hqueued : a.queued l.staffed.pool =
      a.added t ++ a.queued (l.staffed.work Book.perform i).pool := by
    rw [Recorder.work_task hget]
    exact a.queued_pop hr hget (Recorder.queues_record _ _)
  have hbook : (l.staffed.work Book.perform i).state = Act.after (Book.perform t) l.book := by
    rw [Recorder.work_task hget]
    rfl
  calc a.held (l.staffed.work Book.perform i).state ++
        a.queued (l.staffed.work Book.perform i).pool ++ a.pending l.pending l.timeline
      = a.held l.book ++ (a.added t ++ a.queued (l.staffed.work Book.perform i).pool) ++
        a.pending l.pending l.timeline := by rw [hbook, hheld, List.append_assoc (a.held l.book)]
    _ = a.total l := by rw [← hqueued]; rfl

/-- A worker that takes no task changes no total. -/
theorem total_work_of_idle (a : Account kind?) (hr : l.staffed.pool.Routed) {i : Nat}
    (hnone : ∀ t rest, l.staffed.pool.queues[i]? ≠ some (.task t :: rest)) :
    a.total { l with staffed := l.staffed.work Book.perform i } = a.total l := by
  rcases hget : l.staffed.pool.queues[i]? with _ | _ | ⟨t | _, rest⟩
  · rw [Recorder.work_idle (.inl hget)]
  · rw [Recorder.work_idle (.inr hget)]
  · exact absurd hget (hnone t rest)
  · have hqueued := a.queued_pop (q := (l.staffed.work Book.perform i).pool) hr hget
      (by rw [Recorder.work_barrier hget])
    rw [Account.total, Account.total, hqueued, Recorder.work_barrier hget]
    rfl

/-- As long as no task fails, workers change no total. -/
theorem total_work (a : Account kind?) (hr : l.staffed.pool.Routed) (hk : l.book.kind? = kind?)
    {i : Nat} (h : (l.staffed.work Book.perform i).pool.firstError = none) :
    a.total { l with staffed := l.staffed.work Book.perform i } = a.total l := by
  by_cases htask : ∃ t rest, l.staffed.pool.queues[i]? = some (.task t :: rest)
  · obtain ⟨t, rest, hget⟩ := htask
    rw [Recorder.work_task hget] at h
    cases hrun : Book.perform t l.book with
    | ok u b =>
      refine total_work_of_task a hr hget ?_
      rw [Act.after_ok hrun]
      exact a.grown hk (Book.perform_ok hrun)
    | error e b =>
      have hout : Act.outcome (Book.perform t) l.staffed.state = .error e := Act.outcome_error hrun
      rw [hout] at h
      cases h
  · exact total_work_of_idle a hr fun t rest hget => htask ⟨t, rest, hget⟩

end Ledger

end EventIndex
