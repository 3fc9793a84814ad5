import EventIndex.Query.Plan
import EventIndex.Query.Histogram

/-! # Running queries

- `events` lists the events that satisfy a condition from a time on;
- `eventsBefore` lists those before a time, the latest first;
- `counts` counts them by time. A condition that is one leaf without roles is
  counted on its list directly; any other is walked.

Writes still in a batch are invisible to queries.
-/

namespace EventIndex

/-- An event that a query selects. -/
structure EventMatch where
  event : EventId
  time : Timestamp
  /-- The role of the tuple found; `any` on dimensions without roles. -/
  role : Role
deriving DecidableEq, Repr

namespace Query

variable {α : Type}

/-- The timestamps of events found; each must have one. -/
def withTimes (stamps : Snapshot) : List Tuple → Act PageFile (List EventMatch)
  | [] => return []
  | t :: ts => do
    match ← stamps.timestampOf t.key with
    | none => throw (.corrupt (.eventWithoutTimestamp t.key))
    | some time =>
      let found : EventMatch := ⟨t.key, time, t.role.getD Role.any⟩
      return found :: (← withTimes stamps ts)

/-- Runs an action on the cursor of a condition, set in front of the first event at or after a
time. -/
def atTime (c : Condition) (time : Timestamp) (act : Act (Over AnyCursor) α) : QueryAct α := do
  let start ← QueryAct.ofAct (Engine.eventLowerBound time)
  let cursor ← Plan.cursor (UInt64.ofNat start) c
  let (a, _) ← QueryAct.ofAct <| Engine.onOver cursor do
    Cursor.seek (UInt64.ofNat start)
    act
  return a

/-- The events found, with their timestamps. -/
def found (ts : List Tuple) : QueryAct (List EventMatch) := do
  let stamps := (← get).stamps
  QueryAct.ofAct (Engine.onPages (withTimes stamps ts))

/-- Up to `limit` events that satisfy a condition, from a time on. -/
def events (c : Condition) (start : Timestamp) (limit : Nat) : QueryAct (List EventMatch) := do
  found (← atTime c start (Cursor.collectForward limit))

/-- Up to `limit` events that satisfy a condition before a time, the latest first. -/
def eventsBefore (c : Condition) (stop : Timestamp) (limit : Nat) :
    QueryAct (List EventMatch) := do
  found (← atTime c stop (Cursor.collectBackward limit))

/-- The counts of a cursor by time. -/
def countsOf (cursor : AnyCursor) (t1 t2 : Timestamp) (slots : Nat) : QueryAct (List Nat) := do
  let stamps := (← get).stamps
  let (counts, _) ← QueryAct.ofAct <|
    Engine.onOver cursor (Histogram.walkCounts stamps t1 t2 slots)
  return counts

/-- The counts of a condition by time, found by walking its cursor. -/
def walkedCounts (c : Condition) (t1 t2 : Timestamp) (slots : Nat) : QueryAct (List Nat) := do
  let start ← QueryAct.ofAct (Engine.eventLowerBound t1)
  countsOf (← Plan.cursor (UInt64.ofNat start) c) t1 t2 slots

/-- The set on which a condition can be counted directly. -/
def directSet? : Condition → Option (Leaf × SetId)
  | .leaf l => if l.role.isNone then l.dimension.plainSet?.map fun set => (l, set) else none
  | _ => none

/-- The number of events that satisfy a condition in each of `slots` slots between two times. -/
def counts (c : Condition) (t1 t2 : Timestamp) (slots : Nat) : QueryAct (List Nat) := do
  match directSet? c with
  | some (l, set) =>
    let view ← Plan.lookUp set l
    QueryAct.ofAct (Engine.fastCounts view t1 t2 slots)
  | none => walkedCounts c t1 t2 slots

end Query

end EventIndex
