import EventIndex.Index.Pool

/-! # Crew — the workers of a pool side by side

`Staffed` lets a worker finish a job before anybody else moves. A crew is the same
pool with its workers side by side: each of them, whoever submits tasks and the one
who flushes take *turns*, and between two turns of one the others may take any
number of theirs.

- A submission puts a task into the queue of its group, as soon as there is room.
- A worker takes the oldest job of its queue. A task it runs, and then it records
  how that went; to a barrier it gives an answer.
- A flush puts a barrier into one queue after the other, hears the answer of one
  worker after the other, and hands out the first error. One flush goes on at a time.

`next` is one turn, if it is possible at present, together with what a log of the
crew says of it. Whose turn it is, is left open. A task changes the state in a single
turn, between the one in which its worker takes it and the one that records how it
went; the counters change together with what they count.
-/

namespace EventIndex

namespace Crew

/-- What a worker has in hand. -/
inductive Hand (τ : Type) where
  | free
  /-- A task that is still to run. -/
  | holding (t : τ)
  /-- A task that has run, with its error, if any, not yet recorded. -/
  | reporting (t : τ) (error : Option StorageError)
  /-- A barrier. -/
  | answering
deriving DecidableEq, Repr

/-- Somebody who goes on. -/
inductive Turn (τ : Type) where
  | submit (t : τ)
  | work (i : Nat)
  | flush
deriving DecidableEq, Repr

/-- What a log says of one turn. -/
inductive Entry (τ : Type) where
  | submitted (t : τ)
  | refused (t : τ) (error : StorageError)
  | took (i : Nat) (job : Job τ)
  | ran (i : Nat) (t : τ) (error : Option StorageError)
  | recorded (i : Nat) (t : τ) (error : Option StorageError)
  | answered (i : Nat)
  | flushBegan
  | raised (i : Nat)
  | heard (i : Nat)
  /-- The flush returns, with an error if there is one. -/
  | flushEnded (error : Option StorageError)
deriving DecidableEq, Repr

end Crew

namespace Pool

variable {τ : Type}

/-- The jobs that a queue has room for. -/
def queueDepth : Nat := 128

/-- Leaves some jobs in a queue. -/
def leave (p : Pool τ) (i : Nat) (jobs : List (Job τ)) : Pool τ :=
  { p with queues := p.queues.set i jobs }

/-- Forgets the first error, which has been handed out. -/
def handOut (p : Pool τ) : Pool τ := { p with firstError := none }

end Pool

/-- A pool, its state and what its workers and a flush are about to do. -/
structure Crew (τ σ : Type) where
  staffed : Staffed τ σ
  hand : Nat → Crew.Hand τ
  /-- The workers whose answer the flush has not heard yet. -/
  answered : Nat → Bool
  /-- The steps that a flush has done, if one is under way. -/
  flushing : Option Nat

namespace Crew

variable {τ σ : Type}

/-- A new pool, with nothing to do for anybody. -/
def start (workers : Nat) (state : σ) : Crew τ σ where
  staffed := ⟨Pool.start workers, state⟩
  hand _ := .free
  answered _ := false
  flushing := none

/-- The number of workers that have a queue. -/
def size (c : Crew τ σ) : Nat := c.staffed.pool.queues.length

/-- The jobs that wait for a worker. -/
def queue (c : Crew τ σ) (i : Nat) : List (Job τ) := (c.staffed.pool.queues[i]?).getD []

/-- Whether a queue has room for a job. -/
def hasRoom (c : Crew τ σ) (i : Nat) : Bool := (c.queue i).length < Pool.queueDepth

/-- The crew with a change to its pool. -/
def onPool (c : Crew τ σ) (change : Pool τ → Pool τ) : Crew τ σ :=
  { c with staffed := ⟨change c.staffed.pool, c.staffed.state⟩ }

/-- The crew with another state. -/
def withState (c : Crew τ σ) (state : σ) : Crew τ σ := { c with staffed := ⟨c.staffed.pool, state⟩ }

/-- The crew with a flush that has done some steps, or with none. -/
def withFlush (c : Crew τ σ) (flushing : Option Nat) : Crew τ σ := { c with flushing }

/-- The crew with another thing in the hand of a worker. -/
def grip (c : Crew τ σ) (i : Nat) (h : Hand τ) : Crew τ σ :=
  { c with hand := fun j => if j = i then h else c.hand j }

/-- The crew with an answer of a worker, or without it. -/
def answer (c : Crew τ σ) (i : Nat) (given : Bool) : Crew τ σ :=
  { c with answered := fun j => if j = i then given else c.answered j }

/-- A task comes to the queue of its group. -/
def submit (group : τ → Nat) (t : τ) (c : Crew τ σ) : Option (Entry τ × Crew τ σ) :=
  if c.hasRoom (group t % c.size) then
    match Staffed.defer (group t) t c.staffed with
    | .ok _ staffed => some (.submitted t, { c with staffed })
    | .error e staffed => some (.refused t e, { c with staffed })
  else none

/-- The error of a task that runs, if any, and the state that it leaves. -/
def attempt (act : Act σ Unit) (state : σ) : Option StorageError × σ :=
  match act state with
  | .ok _ state => (none, state)
  | .error e state => (some e, state)

/-- What a worker does with a job that it takes. -/
def handOf : Job τ → Hand τ
  | .task t => .holding t
  | .barrier => .answering

/-- A worker goes on with what it has in hand, or takes a job. -/
def work (run : τ → Act σ Unit) (i : Nat) (c : Crew τ σ) : Option (Entry τ × Crew τ σ) :=
  match c.hand i with
  | .free =>
    match c.queue i with
    | [] => none
    | job :: rest => some (.took i job, (c.onPool (·.leave i rest)).grip i (handOf job))
  | .holding t =>
    let (error, state) := attempt (run t) c.staffed.state
    some (.ran i t error, (c.withState state).grip i (.reporting t error))
  | .reporting t error => some (.recorded i t error, (c.onPool (·.record error)).grip i .free)
  | .answering => some (.answered i, (c.answer i true).grip i .free)

/-- A flush begins or goes on: first come the barriers, one for each worker, then the answers. -/
def flush (c : Crew τ σ) : Option (Entry τ × Crew τ σ) :=
  match c.flushing with
  | none => some (.flushBegan, c.withFlush (some 0))
  | some k =>
    if k < c.size then
      if c.hasRoom k then
        some (.raised k, (c.onPool (·.enqueue k .barrier)).withFlush (some (k + 1)))
      else none
    else if k < 2 * c.size then
      let i := k - c.size
      if c.answered i then some (.heard i, (c.answer i false).withFlush (some (k + 1)))
      else none
    else some (.flushEnded c.staffed.pool.firstError, (c.onPool .handOut).withFlush none)

/-- One turn, if it is possible. -/
def next (run : τ → Act σ Unit) (group : τ → Nat) :
    Turn τ → Crew τ σ → Option (Entry τ × Crew τ σ)
  | .submit t, c => c.submit group t
  | .work i, c => c.work run i
  | .flush, c => c.flush

/-- Some turns one after the other, if all of them are possible. -/
def follow (run : τ → Act σ Unit) (group : τ → Nat) :
    List (Turn τ) → Crew τ σ → Option (List (Entry τ) × Crew τ σ)
  | [], c => some ([], c)
  | turn :: turns, c => do
    let (entry, c) ← c.next run group turn
    let (log, c) ← follow run group turns c
    return (entry :: log, c)

end Crew

end EventIndex
