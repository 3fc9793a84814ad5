/-! # Error — what can go wrong below the query language

`StorageError` lists the causes and `StorageError.message` words them. A cause
that is damage to stored bytes is a `Damage`, worded by `Damage.describe`.

`Act σ` is the type of actions on a state `σ` that may fail. An action that
fails keeps the changes it has made so far: counters go on counting, and pages
given back stay given back.
-/

namespace EventIndex

/-- Stored bytes that cannot have been written as they are, or that contradict each other. -/
inductive Damage where
  /-- A page of tuples without a single byte. -/
  | emptyTuplePage
  /-- A page of tuples that begins with an unknown form of compression. -/
  | unknownCompression (flag : UInt8)
  /-- A page of a role list that does not hold one role for each key. -/
  | rolesDisagree (keys roles : Nat)
  /-- Page 0 holds the file header and no payload. -/
  | headerPage
  | declaredLength (page bytes : Nat)
  | pageChecksum (page : Nat) (stored computed : UInt32)
  | descriptorTooShort (size : Nat)
  | descriptorChecksum (stored computed : UInt32)
  | chainPageTooShort (page : Nat)
  /-- A chain of pages that comes back to itself, so that reading it does not end. -/
  | unendingChain (page : Nat)
  | directoryCount (found expected : Nat)
  | tailCount (found expected : Nat)
  | tupleCount (found expected : Nat)
  | pageCount (page found expected : Nat)
  | noSlotPage (value : UInt32) (set : String)
  | slotPageTooShort (page : Nat)
  | eventWithoutTimestamp (event : UInt64)
  | described (text : String)
deriving DecidableEq, Repr

/-- The wording of a damage. -/
def Damage.describe : Damage → String
  | emptyTuplePage => "empty tuple page"
  | unknownCompression flag => s!"Unknown compression type: {flag}"
  | rolesDisagree keys roles => s!"page has {keys} keys but {roles} roles"
  | headerPage => "attempt to overwrite the file header"
  | declaredLength page bytes => s!"page {page} declares {bytes} payload bytes"
  | pageChecksum page stored computed =>
    s!"page {page} checksum mismatch: stored={stored}, computed={computed}"
  | descriptorTooShort size => s!"descriptor needs 64 bytes, got {size}"
  | descriptorChecksum stored computed =>
    s!"Descriptor checksum mismatch: stored={stored}, computed={computed}"
  | chainPageTooShort page => s!"chain page {page} is truncated"
  | unendingChain page => s!"chain page {page} leads back to itself"
  | directoryCount found expected => s!"directory lists {found} pages, descriptor says {expected}"
  | tailCount found expected => s!"tail holds {found} tuples, descriptor says {expected}"
  | tupleCount found expected => s!"store holds {found} tuples, descriptor says {expected}"
  | pageCount page found expected => s!"page {page} holds {found} tuples, directory says {expected}"
  | noSlotPage value set => s!"no slot page for index {value} of set '{set}'"
  | slotPageTooShort page => s!"slot page {page} is truncated"
  | eventWithoutTimestamp event => s!"event {event} has no timestamp"
  | described text => text

/-- The causes of failure in the storage and index layers. -/
inductive StorageError where
  | io (reason : String)
  /-- Bytes end before the record they should hold. -/
  | serialization (reason : String)
  /-- A payload that does not fit a page. -/
  | oversizedPayload (bytes capacity : Nat)
  | compression (reason : String)
  | corrupt (damage : Damage)
  /-- A key below the last key of an ordered list, or equal to it where keys are unique. -/
  | outOfOrder (key last : UInt64)
  /-- A part of the index was used after its disposal. -/
  | disposed (name : String)
  | notResident (set : String) (value : UInt32)
  /-- A behavior has been counted as often as its counter allows. -/
  | counterSaturated (behavior : UInt32)
  /-- A key beyond the range of its dimension. -/
  | keyOverflow (key : UInt64)
  | pool (reason : String)
  | config (reason : String)
deriving DecidableEq, Repr

namespace StorageError

/-- The wording of an error. -/
def message : StorageError → String
  | io reason => s!"IO error: {reason}"
  | serialization reason => s!"Serialization error: {reason}"
  | oversizedPayload bytes capacity =>
    s!"Serialization error: payload of {bytes} bytes exceeds page capacity {capacity}"
  | compression reason => s!"Compression error: {reason}"
  | corrupt damage => "Corrupt data: " ++ damage.describe
  | outOfOrder key last => s!"Out of order append: key {key} after {last}"
  | disposed name => s!"Use after dispose: {name}"
  | notResident set value => s!"Index {value} of set '{set}' is not resident"
  | counterSaturated behavior => s!"Event counter saturated for behavior {behavior}"
  | keyOverflow key => s!"Index overflow: {key}"
  | pool reason => s!"Executor error: {reason}"
  | config reason => s!"Configuration error: {reason}"

end StorageError

/-- An action on a state `σ` that may fail. A failing action keeps the changes made so far. -/
abbrev Act (σ : Type) := EStateM StorageError σ

/-- The outcome of a computation that touches no state. -/
def Act.ofExcept {σ α : Type} : Except StorageError α → Act σ α
  | .ok a => pure a
  | .error e => throw e

end EventIndex
