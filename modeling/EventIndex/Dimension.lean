import EventIndex.Text.Decimal

/-! # Dimension — what events can be filtered on

Every event may carry a value along each of twelve dimensions. A dimension
fixes two things about its lists: whether their tuples carry a role
(`isRoleTagged`), and whether its values are too many for one list each and
are therefore split over two partial lists (`isSplit`).
-/

namespace EventIndex

open Text

/-- A dimension that events can be filtered on. -/
inductive Dimension where
  | type | thread | depth | location | adviceSource | adviceCflow | role
  | behavior | field | localVariable | object | arrayIndex
deriving DecidableEq, Repr

namespace Dimension

/-- All dimensions. -/
def all : List Dimension :=
  [type, thread, depth, location, adviceSource, adviceCflow, role,
   behavior, field, localVariable, object, arrayIndex]

/-- The name of a dimension in conditions and reports. -/
def name : Dimension → String
  | type => "type"
  | thread => "thread"
  | depth => "depth"
  | location => "location"
  | adviceSource => "advice_source"
  | adviceCflow => "advice_cflow"
  | role => "role"
  | behavior => "behavior"
  | field => "field"
  | localVariable => "variable"
  | object => "object"
  | arrayIndex => "array_index"

/-- Whether the tuples of the dimension carry a role. -/
def isRoleTagged : Dimension → Bool
  | behavior | field | localVariable | object => true
  | _ => false

/-- Whether the values of the dimension are split over two partial lists. -/
def isSplit : Dimension → Bool
  | object | arrayIndex => true
  | _ => false

/-- The dimension of a name, in capitals or not. -/
def ofName? (text : String) : Option Dimension :=
  all.find? fun d => d.name.toList = lowerAscii text.toList

/-- What is said of a text that names no dimension. -/
def unknownText (text : String) : String := "unknown dimension '" ++ text ++ "'"

end Dimension

end EventIndex
