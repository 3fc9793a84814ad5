import EventIndex.Dimension
import EventIndex.SplitKey
import EventIndex.Index.BehaviorCounters
import EventIndex.Index.Intake

/-! # Engine — the index of one trace

The engine puts the parts together: a timeline, fourteen index sets over one
page file with one bookkeeping and one pool, and the counters of behaviors.
Most dimensions have one set; `object` and `arrayIndex` have two, one for each
half of a split key.

```text
event at 1500 on thread 3, target object 42
  register 1500             -> event 17
  index thread 3 17         -> set thread
  indexObject 42 17 target  -> set object_0, even bits of 42
                               set object_1, odd bits of 42
  flush                     -> every batch is applied
```
-/

namespace EventIndex

/-- The settings of an engine. -/
structure EngineConfig where
  /-- The bytes of a page. -/
  pageSize : Nat
  /-- The memory for lists, in bytes. -/
  pageBufferSize : Nat
  /-- The payloads kept in the page cache. -/
  pageCachePages : Nat
  /-- The tuples of a batch. -/
  taskSize : Nat
  /-- The accesses that make a use. -/
  useThreshold : Nat
  workerThreads : Nat
  /-- The behaviors that have a counter from the start. -/
  behaviorCount : Nat
deriving DecidableEq, Repr

/-- One of the two halves of a split key. -/
inductive Half where
  | even | odd
deriving DecidableEq, Repr

/-- The names and kinds of all sets, in the order of their numbers. -/
def setShapes : List (String × Kind) :=
  [("type", .plain), ("thread", .plain), ("depth", .plain), ("location", .plain),
   ("advice_source", .plain), ("advice_cflow", .plain), ("role", .plain),
   ("behavior", .role), ("field", .role), ("variable", .role),
   ("array_index_0", .plain), ("array_index_1", .plain), ("object_0", .role), ("object_1", .role)]

/-- The sets with plain lists, in the order in which they are flushed and reported. -/
def plainSets : List SetId := [0, 1, 2, 3, 4, 5, 6, 10, 11]

/-- The sets with role lists, in the order in which they are flushed and reported. -/
def roleSets : List SetId := [7, 8, 9, 12, 13]

namespace Dimension

/-- The set of a dimension whose keys are not split. -/
def set? : Dimension → Option SetId
  | type => some 0
  | thread => some 1
  | depth => some 2
  | location => some 3
  | adviceSource => some 4
  | adviceCflow => some 5
  | role => some 6
  | behavior => some 7
  | field => some 8
  | localVariable => some 9
  | object | arrayIndex => none

/-- The set with plain lists of a dimension whose keys are not split. -/
def plainSet? (d : Dimension) : Option SetId := if d.isRoleTagged then none else d.set?

/-- The set with role lists of a dimension whose keys are not split. -/
def roleSet? (d : Dimension) : Option SetId := if d.isRoleTagged then d.set? else none

end Dimension

/-- The set of one half of array indexes. -/
def arrayIndexSet : Half → SetId
  | .even => 10
  | .odd => 11

/-- The set of one half of objects. -/
def objectSet : Half → SetId
  | .even => 12
  | .odd => 13

/-- The half with a number. -/
def Half.ofNumber? : Nat → Except StorageError Half
  | 0 => .ok .even
  | 1 => .ok .odd
  | n => .error (.config s!"split index has no part {n}")

/-- The value that stands for a role in the dimension of roles. -/
def roleValue (r : Role) : ValueId := UInt32.ofNat (r.code.toInt + 128).toNat

/-- The index of one trace. -/
structure Engine where
  config : EngineConfig
  recorder : Recorder
  /-- The largest object indexed so far. -/
  maxObject : UInt64
  counters : BehaviorCounters
  isDisposed : Bool

namespace Engine

variable {α : Type}

/-- A fresh engine. -/
def create (config : EngineConfig) : Except StorageError Engine :=
  match PageFile.create config.pageSize config.pageCachePages with
  | .error e => .error e
  | .ok pages =>
    let residency :=
      Residency.ofBudget config.pageBufferSize config.pageSize config.useThreshold
    let archive := setShapes.foldl
      (fun a shape => a.addSet shape.1 shape.2 config.taskSize) (Archive.create pages residency)
    .ok {
      config
      recorder := ⟨Intake.create archive config.workerThreads, Timeline.create config.taskSize⟩
      maxObject := 0
      counters := .create config.behaviorCount
      isDisposed := false }

/-- Runs an action on the recorder. -/
def onRecorder (act : Act Recorder α) : Act Engine α
  | ⟨config, recorder, maxObject, counters, isDisposed⟩ =>
    match act recorder with
    | .ok a recorder => .ok a ⟨config, recorder, maxObject, counters, isDisposed⟩
    | .error e recorder => .error e ⟨config, recorder, maxObject, counters, isDisposed⟩

/-- Runs an action on the archive. -/
def onArchive (act : Act Archive α) : Act Engine α := onRecorder (Recorder.onArchive act)

/-- Runs an action on the page file. -/
def onPages (act : Act PageFile α) : Act Engine α := onRecorder (Recorder.onPages act)

/-- Runs an action on a value over the page file and returns the value with the answer. -/
def onOver {C : Type} (c : C) (act : Act (Over C) α) : Act Engine (α × C) :=
  onPages fun pages =>
    match act ⟨c, pages⟩ with
    | .ok a s => .ok (a, s.item) s.pages
    | .error e s => .error e s.pages

/-! ## Writing

As with an intake, the operations that hand tasks on take an action for it, and those without one wait
until a task is done. -/

/-- Registers an event and returns its number. -/
def registerVia (hand : Task → Act Intake Unit) (time : Timestamp) : Act Engine EventId :=
  onRecorder (Recorder.registerVia hand time)

/-- Adds a tuple to a list. -/
def pushVia (hand : Task → Act Intake Unit) (set : SetId) (value : ValueId) (t : Tuple) :
    Act Engine Unit :=
  onRecorder (Recorder.onIntake (Intake.pushVia hand set value t))

/-- Indexes an event under the role it has itself. -/
def indexRoleVia (hand : Task → Act Intake Unit) (r : Role) (event : EventId) : Act Engine Unit :=
  pushVia hand 6 (roleValue r) (.plain event)

/-- Indexes an event under an array index. -/
def indexArrayIndexVia (hand : Task → Act Intake Unit) (key : UInt64) (event : EventId) :
    Act Engine Unit := do
  let (even, odd) ← Act.ofExcept (SplitKey.split? key)
  pushVia hand (arrayIndexSet .even) even (.plain event)
  pushVia hand (arrayIndexSet .odd) odd (.plain event)

/-- Indexes an event under an object that plays a role in it. -/
def indexObjectVia (hand : Task → Act Intake Unit) (key : UInt64) (event : EventId) (r : Role) :
    Act Engine Unit := do
  let (even, odd) ← Act.ofExcept (SplitKey.split? key)
  modify fun e => { e with maxObject := max e.maxObject key }
  pushVia hand (objectSet .even) even (.tagged event r)
  pushVia hand (objectSet .odd) odd (.tagged event r)

/-- Indexes an event under a value of any dimension. A role counts only where tuples carry one. -/
def indexVia (hand : Task → Act Intake Unit) (d : Dimension) (value : UInt64) (event : EventId)
    (r : Role) : Act Engine Unit :=
  match d with
  | .object => indexObjectVia hand value event r
  | .arrayIndex => indexArrayIndexVia hand value event
  | d =>
    match d.set? with
    | none => return ()
    | some set =>
      pushVia hand set value.toUInt32 (if d.isRoleTagged then .tagged event r else .plain event)

/-- Counts an event of a behavior. -/
def countBehavior (behavior : UInt32) : Act Engine Unit
  | ⟨config, recorder, maxObject, counters, isDisposed⟩ =>
    match BehaviorCounters.increment behavior counters with
    | .ok a counters => .ok a ⟨config, recorder, maxObject, counters, isDisposed⟩
    | .error e counters => .error e ⟨config, recorder, maxObject, counters, isDisposed⟩

/-- Hands the pending writes of several sets on, in turn. -/
def flushSetsVia (hand : Task → Act Intake Unit) : List SetId → Act Engine Unit
  | [] => return ()
  | id :: ids => do
    onRecorder (Recorder.onIntake (Intake.flushSetVia hand id))
    flushSetsVia hand ids

/-- Hands every pending write on. -/
def handOnAll (hand : Task → Act Intake Unit) : Act Engine Unit := do
  if (← get).isDisposed then throw (.disposed "indexes")
  onRecorder (Recorder.flushStampsVia hand)
  flushSetsVia hand plainSets
  flushSetsVia hand roleSets

/-- Has every pending write applied. Hands out the first error of a batch since the last flush. -/
def flushVia (hand : Task → Act Intake Unit) : Act Engine Unit := do
  handOnAll hand
  onRecorder (Recorder.onIntake Intake.flushPool)

/-- Registers an event and returns its number. -/
def register (time : Timestamp) : Act Engine EventId := registerVia Intake.submit time

/-- Indexes an event under the role it has itself. -/
def indexRole (r : Role) (event : EventId) : Act Engine Unit := indexRoleVia Intake.submit r event

/-- Indexes an event under a value of any dimension. -/
def index (d : Dimension) (value : UInt64) (event : EventId) (r : Role) : Act Engine Unit :=
  indexVia Intake.submit d value event r

/-- Has every pending write applied. Hands out the first error of a batch since the last flush. -/
def flush : Act Engine Unit := flushVia Intake.submit

/-! ## Reading -/

/-- The list of timestamps that readers see. -/
def stamps (e : Engine) : Snapshot := e.recorder.intake.state.stamps.snapshot

/-- The list of a value of a set. -/
def lookUp (set : SetId) (value : ValueId) : Act Engine Snapshot :=
  onArchive (Archive.lookUp set value)

/-- The lists of both halves of a split key. -/
def lookUpHalves (set : Half → SetId) (key : UInt64) : Act Engine (List Snapshot) := do
  let (even, odd) ← Act.ofExcept (SplitKey.split? key)
  let first ← lookUp (set .even) even
  let second ← lookUp (set .odd) odd
  return [first, second]

/-- The list of one half of a split key; halves are numbered from 0. -/
def lookUpHalf (set : Half → SetId) (number : Nat) (value : ValueId) : Act Engine Snapshot := do
  let half ← Act.ofExcept (Half.ofNumber? number)
  lookUp (set half) value

/-- The number of the first event at or after a time. -/
def eventLowerBound (time : Timestamp) : Act Engine Nat := do
  onPages ((← get).stamps.lowerBound time)

/-! ## Counting by time -/

/-- The end of slot `i` when the time from `t1` to `t2` is cut into `slots` slots. -/
def slotEnd (t1 t2 : Timestamp) (slots i : Nat) : Timestamp :=
  let span := (t2 - t1).toNat
  UInt64.ofNat (t1.toNat + ((i + 1) * span + (slots - 1)) / slots)

/-- The number of tuples of a list in each slot from `i` on, `first` being the first event of slot `i`;
`left` slots are left. -/
def countSlots (stamps view : Snapshot) (t1 t2 : Timestamp) (slots : Nat) :
    (left i first : Nat) → Act PageFile (List Nat)
  | 0, _, _ => return []
  | left + 1, i, first => do
    let stop ← stamps.lowerBound (slotEnd t1 t2 slots i)
    let count ←
      if first ≠ stop then view.countInRange (UInt64.ofNat first) (UInt64.ofNat stop) else pure 0
    return count :: (← countSlots stamps view t1 t2 slots left (i + 1) stop)

/-- The number of tuples of a list in each of `slots` slots between two times, by range counts
alone. -/
def fastCounts (view : Snapshot) (t1 t2 : Timestamp) (slots : Nat) : Act Engine (List Nat) := do
  if slots = 0 ∨ t2 ≤ t1 then return List.replicate slots 0
  let stamps := (← get).stamps
  onPages do
    let first ← stamps.lowerBound t1
    countSlots stamps view t1 t2 slots slots 0 first

/-! ## The end -/

/-- The name of the index file in its directory. -/
def fileName : String := "indexes.tdx"

/-- Whether the index file exists. It is removed when the engine is disposed. -/
def hasFile (e : Engine) : Bool := !e.isDisposed

/-- Disposes of everything. Lists in memory are dropped, not written out. -/
def dispose (e : Engine) : Engine :=
  if e.isDisposed then e
  else
    let ⟨pool, archive⟩ := e.recorder.intake
    let archive := (plainSets ++ roleSets).foldl (fun a id => a.disposeSet id) archive
    let archive := { archive with residency := archive.residency.dispose }
    { e with
      recorder := ⟨Staffed.shutDown Archive.perform ⟨pool, archive⟩, e.recorder.timeline.dispose⟩
      isDisposed := true }

end Engine

end EventIndex
