import EventIndex.Error

/-! # Pool — batches in the background

A pool has a fixed number of workers. Each worker has a queue of its own and
takes the jobs in it one by one, the oldest first. Every task belongs to a
group, and a group always goes to the same queue, so the tasks of a group run
in the order of their submission.

A failing task stops nothing: the first error is kept until the next flush,
which puts a barrier into every queue, waits until the workers have come to it,
and hands the error out. Only a pool that is shut down refuses tasks.

Tasks are values of a type `τ`; `run` says what a task does to a state `σ`.
`work` is one step of one worker, and `defer` hands a task to a worker that does
it in its own time. A pool beside its state is *settled* when all queues are
empty, and `submit` leaves it settled: whoever submits sees the task done.
-/

namespace EventIndex

/-- What a worker finds in its queue. -/
inductive Job (τ : Type) where
  | task (t : τ)
  /-- The workers tell a flush that they have come to it. -/
  | barrier
deriving DecidableEq, Repr

/-- A fixed number of workers with a queue each. -/
structure Pool (τ : Type) where
  workers : Nat
  /-- The queues, the oldest job of each first. A pool that is shut down has none. -/
  queues : List (List (Job τ))
  firstError : Option StorageError
  submitted : Nat
  completed : Nat
  failed : Nat
deriving Repr

/-- A pool and the state that its tasks change. -/
structure Staffed (τ σ : Type) where
  pool : Pool τ
  state : σ

namespace Pool

variable {τ σ : Type}

/-- A pool of at least one worker. -/
def start (workers : Nat) : Pool τ where
  workers := max workers 1
  queues := List.replicate (max workers 1) []
  firstError := none
  submitted := 0
  completed := 0
  failed := 0

/-- Whether the pool takes tasks. -/
def isOpen (p : Pool τ) : Bool := !p.queues.isEmpty

/-- The jobs that wait. -/
def waiting (p : Pool τ) : Nat := p.queues.flatten.length

/-- Puts a job behind all others of a queue. -/
def enqueue (p : Pool τ) (i : Nat) (job : Job τ) : Pool τ :=
  { p with queues := p.queues.modify i (· ++ [job]) }

/-- Puts a barrier behind all jobs of every queue. -/
def raiseBarriers (p : Pool τ) : Pool τ := { p with queues := p.queues.map (· ++ [.barrier]) }

/-- Counts a task that has run, and keeps its error if it is the first. -/
def record (p : Pool τ) : Option StorageError → Pool τ
  | none => { p with completed := p.completed + 1 }
  | some e =>
    { p with
      completed := p.completed + 1
      failed := p.failed + 1
      firstError := some (p.firstError.getD e) }

end Pool

namespace Staffed

variable {τ σ : Type}

/-- One worker takes the oldest job of its queue, if there is one. -/
def work (run : τ → Act σ Unit) (i : Nat) : Staffed τ σ → Staffed τ σ
  | ⟨pool, state⟩ =>
    match pool.queues[i]? with
    | some (job :: rest) =>
      let pool := { pool with queues := pool.queues.set i rest }
      match job with
      | .barrier => ⟨pool, state⟩
      | .task t =>
        match run t state with
        | .ok _ state => ⟨pool.record none, state⟩
        | .error e state => ⟨pool.record (some e), state⟩
    | _ => ⟨pool, state⟩

/-- Lets the workers take at most `fuel` jobs. -/
def settleWithin (run : τ → Act σ Unit) : (fuel : Nat) → Staffed τ σ → Staffed τ σ
  | 0, s => s
  | fuel + 1, s =>
    match s.pool.queues.findIdx? (!·.isEmpty) with
    | none => s
    | some i => settleWithin run fuel (s.work run i)

/-- Lets the workers empty their queues. -/
def settle (run : τ → Act σ Unit) (s : Staffed τ σ) : Staffed τ σ :=
  s.settleWithin run s.pool.waiting

/-- Hands a task to the worker of its group. -/
def defer (group : Nat) (t : τ) : Act (Staffed τ σ) Unit := fun s =>
  if s.pool.isOpen then
    let pool := s.pool.enqueue (group % s.pool.queues.length) (.task t)
    .ok () ⟨{ pool with submitted := pool.submitted + 1 }, s.state⟩
  else .error (.pool "executor is shut down") s

/-- Hands a task to the worker of its group and lets it run. -/
def submit (run : τ → Act σ Unit) (group : Nat) (t : τ) : Act (Staffed τ σ) Unit := do
  defer group t
  modify (settle run)

/-- Waits for every task and hands out the first error since the last flush. -/
def flush (run : τ → Act σ Unit) : Act (Staffed τ σ) Unit := fun s =>
  let s := settle run ⟨s.pool.raiseBarriers, s.state⟩
  match s.pool.firstError with
  | none => .ok () s
  | some e => .error e ⟨{ s.pool with firstError := none }, s.state⟩

/-- Lets the workers empty their queues and takes no more tasks. -/
def shutDown (run : τ → Act σ Unit) (s : Staffed τ σ) : Staffed τ σ :=
  let s := settle run s
  ⟨{ s.pool with queues := [] }, s.state⟩

end Staffed

end EventIndex
