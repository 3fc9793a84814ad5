import EventIndex.Error
import EventIndex.Role
import EventIndex.Dimension
import EventIndex.Text.Quoted

/-! # QueryError — what can go wrong with a query

A query fails because its text is no condition (`Refusal`, or text left over
after a condition), because a name in it means nothing, or because the index
below fails.
-/

namespace EventIndex

/-- What the reader of a condition looked for where it stopped. -/
inductive Expectation where
  | identifier
  | equalsSign
  | number
  /-- A number that fits 64 bits. -/
  | smallerNumber
deriving DecidableEq, Repr

/-- The word for what was looked for. -/
def Expectation.word : Expectation → String
  | identifier => "TakeWhile1"
  | equalsSign => "Char"
  | number => "Digit"
  | smallerNumber => "MapRes"

/-- Where the reader of a condition stopped, and what it looked for there. -/
structure Refusal where
  rest : List Char
  expected : Expectation
deriving DecidableEq, Repr

/-- The wording of a refusal. -/
def Refusal.describe (r : Refusal) : String :=
  "Error(Error \x7b input: " ++ String.ofList (Text.quoted r.rest) ++
    ", code: " ++ r.expected.word ++ " \x7d)"

/-- What can be wrong with the role of a leaf. -/
inductive RoleFault where
  | notABehaviorRole (name : String)
  | dimensionWithoutRoles (dimension : Dimension)
  | behaviorRole (name : String) (dimension : Dimension)
  | unknown (name : String)
deriving DecidableEq, Repr

/-- The wording of a wrong role. -/
def RoleFault.describe : RoleFault → String
  | notABehaviorRole name => "'" ++ name ++ "' is not a behavior role"
  | dimensionWithoutRoles d => "dimension '" ++ d.name ++ "' does not carry roles"
  | behaviorRole name d =>
    "'" ++ name ++ "' is a behavior role, not valid for '" ++ d.name ++ "'"
  | unknown name => Role.unknownText name

/-- The causes of a failed query. -/
inductive QueryError where
  /-- The text does not even begin with a condition. -/
  | refused (refusal : Refusal)
  /-- A condition ends before the text does. -/
  | leftover (rest : List Char)
  | unknownDimension (name : String)
  | invalidRole (fault : RoleFault)
  | storage (error : StorageError)
deriving DecidableEq, Repr

/-- The wording of a query error. -/
def QueryError.message : QueryError → String
  | refused r => "Parse error: Parse error: " ++ r.describe
  | leftover rest =>
    "Parse error: Unexpected input after condition: '" ++ String.ofList rest ++ "'"
  | unknownDimension name => "Unknown dimension: " ++ name
  | invalidRole fault => "Invalid role: " ++ fault.describe
  | storage e => "Storage error: " ++ e.message

end EventIndex
