import EventIndex.Text.Decimal

/-! # Role — the part a value plays in an event

An event may refer to a value in several ways: as the target of a call, as an
argument, as a result. A tuple that records such a reference carries the role
as one signed byte.

Two name spaces share the byte:

- *object roles* are negative, except argument positions, which count from 1;
- *behavior roles* run from 0 to 5 and are used for behaviors alone.

Each space has wildcards. `any` and `anyArg` are wildcards for object roles;
`behaviorAny` and `behaviorEnter` stand for groups of behavior roles.
-/

namespace EventIndex

open Text

/-- The part a value plays in an event, as a signed byte. -/
structure Role where
  code : Int8
deriving DecidableEq, Repr

namespace Role

def target : Role := ⟨-1⟩
def value : Role := ⟨-2⟩
def result : Role := ⟨-3⟩
def exception : Role := ⟨-4⟩

/-- Stands for every argument position. -/
def anyArg : Role := ⟨-5⟩

/-- Stands for every object role. -/
def any : Role := ⟨-6⟩

/-- Stands for every behavior role. -/
def behaviorAny : Role := ⟨0⟩

/-- Stands for `called` and `executed`. -/
def behaviorEnter : Role := ⟨1⟩

def called : Role := ⟨2⟩
def executed : Role := ⟨3⟩
def exit : Role := ⟨4⟩
def operation : Role := ⟨5⟩

/-- The names of the object roles that are no argument position. -/
def objectNames : List (String × Role) :=
  [("target", target), ("value", value), ("result", result), ("exception", exception),
   ("anyarg", anyArg), ("any", any)]

/-- The names of the behavior roles. -/
def behaviorNames : List (String × Role) :=
  [("any", behaviorAny), ("enter", behaviorEnter), ("called", called), ("executed", executed),
   ("exit", exit), ("operation", operation)]

/-- The role of the argument at a position counted from 1; there are 127 of them. -/
def argument? (position : Nat) : Option Role :=
  if 1 ≤ position ∧ position ≤ 127 then some ⟨Int8.ofNat position⟩ else none

/-- Whether the role is an argument position. -/
def isArgument (r : Role) : Bool := 0 < r.code

/-- Whether the role stands for several object roles. -/
def isWildcard (r : Role) : Bool := r = any || r = anyArg

/-- Whether two object roles may describe the same reference: they are equal, one of them is
`any`, or one is `anyArg` and the other an argument position. -/
def compatible (r s : Role) : Bool :=
  r = s || r = any || s = any || (r = anyArg && s.isArgument) || (s = anyArg && r.isArgument)

/-- The concrete behavior roles that a behavior role stands for. -/
def behaviorExpansion (r : Role) : List Role :=
  if r = behaviorAny then [called, executed, exit, operation]
  else if r = behaviorEnter then [called, executed]
  else [r]

/-- All argument positions, in order. -/
def arguments : List Role := (List.range 127).map fun i => ⟨Int8.ofNat (i + 1)⟩

/-- The concrete object roles that an object role stands for; `none` means all of them. -/
def objectExpansion (r : Role) : Option (List Role) :=
  if r = any then none
  else if r = anyArg then some arguments
  else some [r]

/-- The name of the role read as an object role. An argument position is `arg` and its number,
and so is any code without a name. -/
def name (r : Role) : String :=
  match objectNames.find? fun entry => entry.2 = r with
  | some (text, _) => text
  | none => "arg" ++ toString r.code.toInt

/-- The name of the role read as a behavior role. -/
def behaviorName? (r : Role) : Option String :=
  (behaviorNames.find? fun entry => entry.2 = r).map (·.1)

/-- The behavior role of a name, in capitals or not. -/
def ofBehaviorName? (text : String) : Option Role :=
  (behaviorNames.find? fun entry => entry.1.toList = lowerAscii text.toList).map (·.2)

/-- The argument position written as `arg` and a number that fits a byte. -/
def ofArgumentName? : List Char → Option Role
  | 'a' :: 'r' :: 'g' :: digits => (unsigned? 255 digits).bind argument?
  | _ => none

/-- The role of a name, in capitals or not. Object roles come first, so `any` is the object
wildcard; the other behavior names follow, and then the argument positions. -/
def ofName? (text : String) : Option Role :=
  let small := lowerAscii text.toList
  match (objectNames ++ behaviorNames).find? fun entry => entry.1.toList = small with
  | some (_, r) => some r
  | none => ofArgumentName? small

/-- What is said of a text that names no role. -/
def unknownText (text : String) : String := "Unknown role: " ++ text

end Role

end EventIndex
