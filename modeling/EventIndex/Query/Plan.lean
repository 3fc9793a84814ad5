import EventIndex.Condition.Basic
import EventIndex.Cursor.Tower
import EventIndex.Index.Engine
import EventIndex.Query.Error

/-! # Plan — the cursor of a condition

A condition is turned into one cursor over the events that satisfy it:

- a leaf opens the list of its value, or the two lists of its halves;
- a role restriction becomes a filter on these lists;
- the halves of an object are joined on matching roles, those of an array index
  without;
- `all` and `any` become intersections and unions.

Lists without roles are widened, so that all cursors have tuples of one shape.
-/

namespace EventIndex

/-- An action on an engine that may fail as a query. -/
abbrev QueryAct := EStateM QueryError Engine

namespace QueryAct

variable {α : Type}

/-- An action of the index below a query. -/
def ofAct (act : Act Engine α) : QueryAct α := fun e =>
  match act e with
  | .ok a e => .ok a e
  | .error err e => .error (.storage err) e

end QueryAct

namespace Leaf

/-- The roles that a leaf accepts; `none` means all of them. -/
def allowedRoles (l : Leaf) : Option (List Role) :=
  match l.role with
  | none => none
  | some r => if l.dimension = .behavior then some r.behaviorExpansion else r.objectExpansion

/-- Fails if the leaf restricts the role. -/
def rejectRole (l : Leaf) : Except QueryError Unit :=
  match l.role with
  | some _ => .error (.invalidRole (.dimensionWithoutRoles l.dimension))
  | none => .ok ()

/-- The value of a leaf on a dimension whose keys are not split. -/
def valueId (l : Leaf) : Except QueryError ValueId :=
  if l.value ≤ 4294967295 then .ok l.value.toUInt32
  else .error (.storage (.keyOverflow l.value))

end Leaf

namespace Plan

/-- The outcome of a check. -/
def check {α : Type} : Except QueryError α → QueryAct α
  | .ok a => pure a
  | .error e => throw e

/-- A cursor over a list without roles. -/
def plainCursor (start : EventId) (v : Snapshot) : QueryAct AnyCursor := do
  let c ← QueryAct.ofAct (Engine.onPages (v.cursorAt start))
  return (AnyCursor.ofStored c).widened

/-- A cursor over a list with roles, of which only some may be allowed. -/
def taggedCursor (start : EventId) (allowed : Option (List Role)) (v : Snapshot) :
    QueryAct AnyCursor := do
  let c ← QueryAct.ofAct (Engine.onPages (v.cursorAt start))
  match allowed with
  | some roles => return (AnyCursor.ofStored c).filtered roles
  | none => return AnyCursor.ofStored c

/-- A cursor for each of several lists. -/
def cursorsOf (open_ : Snapshot → QueryAct AnyCursor) : List Snapshot → QueryAct (List AnyCursor)
  | [] => return []
  | v :: vs => do
    let c ← open_ v
    return c :: (← cursorsOf open_ vs)

/-- The intersection of cursors. -/
def meet (cs : List AnyCursor) (matchRoles : Bool) : QueryAct AnyCursor :=
  QueryAct.ofAct (Engine.onPages (AnyCursor.conjunction cs matchRoles))

/-- The union of cursors. -/
def join (cs : List AnyCursor) : QueryAct AnyCursor :=
  QueryAct.ofAct (Engine.onPages (AnyCursor.disjunction cs))

/-- The list of a leaf's value in a set. -/
def lookUp (set : SetId) (l : Leaf) : QueryAct Snapshot := do
  let value ← check l.valueId
  QueryAct.ofAct (Engine.lookUp set value)

/-- The cursor of a leaf from an event on. -/
def leafCursor (start : EventId) (l : Leaf) : QueryAct AnyCursor := do
  match l.dimension with
  | .object =>
    let halves ← QueryAct.ofAct (Engine.lookUpHalves objectSet l.value)
    meet (← cursorsOf (taggedCursor start l.allowedRoles) halves) true
  | .arrayIndex =>
    check l.rejectRole
    let halves ← QueryAct.ofAct (Engine.lookUpHalves arrayIndexSet l.value)
    meet (← cursorsOf (plainCursor start) halves) false
  | d =>
    match d.set? with
    | none => throw (.unknownDimension d.name)
    | some set =>
      if d.isRoleTagged then
        let c ← taggedCursor start l.allowedRoles (← lookUp set l)
        return c.distinct
      else
        check l.rejectRole
        plainCursor start (← lookUp set l)

mutual

/-- The cursor of a condition from an event on. -/
def cursor (start : EventId) : Condition → QueryAct AnyCursor
  | .leaf l => leafCursor start l
  | .all operands => do meet (← cursors start operands) false
  | .any operands => do join (← cursors start operands)

/-- The cursors of several conditions. -/
def cursors (start : EventId) : List Condition → QueryAct (List AnyCursor)
  | [] => return []
  | c :: cs => do
    let first ← cursor start c
    return first :: (← cursors start cs)

end

end Plan

end EventIndex
