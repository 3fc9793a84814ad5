import EventIndex.Tuple
import EventIndex.Error
import EventIndex.Binary.Lz4

/-! # TuplePage — a run of tuples as the bytes of one page

Keys are written as differences. The body of a page holds the first key, the
difference of each key from the one before it (the first difference is 0), and
the role bytes; differences wrap around at 64 bits, so any run of keys can be
written, sorted or not. The bytes of a page are a flag and the body, either as
it is or as a packed block.

- `encode` packs the body only if that makes it shorter, so a page never
  exceeds the size of its plain form;
- `decode` undoes `encode` and says what is wrong with bytes that are no page;
- `encodeWith` and `decodeWith` are the same for any way to pack a body;
- `Kind.pageCapacity` is the number of tuples that fit a payload whatever
  their keys are.
-/

namespace EventIndex

open Binary

/-- The bytes of a page that are there whatever it holds: flag, first key, two counts. -/
def pageOverhead : Nat := 1 + 8 + 8 + 8

namespace Kind

/-- The bytes that one tuple takes in the plain form. -/
def tupleSize (k : Kind) : Nat := if k.carriesRole then 9 else 8

/-- How many tuples always fit a payload. -/
def pageCapacity (k : Kind) (payload : Nat) : Nat := (payload - pageOverhead) / k.tupleSize

end Kind

/-- The content of a page: first key, differences, role bytes. -/
structure TuplePage where
  base : UInt64
  steps : List UInt64
  roles : List Int8
deriving DecidableEq, Repr

namespace TuplePage

/-- The difference of each key from the one before it, where `last` precedes the first. -/
def stepsFrom (last : UInt64) : List Tuple → List UInt64
  | [] => []
  | t :: ts => (t.key - last) :: stepsFrom t.key ts

/-- The page of a run of tuples. -/
def ofTuples (k : Kind) (ts : List Tuple) : TuplePage :=
  let base := (ts.head?.map Tuple.key).getD 0
  { base
    steps := stepsFrom base ts
    roles := if k.carriesRole then ts.map fun t => (t.role.getD Role.any).code else [] }

/-- Adds up the differences and gives each key its role. Where roles run out, or are not kept, the
kind of the list decides. -/
def tuplesFrom (k : Kind) (last : UInt64) : List UInt64 → List Int8 → List Tuple
  | [], _ => []
  | step :: steps, roles =>
    k.tuple (last + step) (roles.head?.map Role.mk) :: tuplesFrom k (last + step) steps roles.tail

/-- The tuples of a page. A page of a role list must hold one role for each key. -/
def tuples? (k : Kind) (page : TuplePage) : Except StorageError (List Tuple) :=
  if k.carriesRole && page.roles.length != page.steps.length then
    .error (.corrupt (.rolesDisagree page.steps.length page.roles.length))
  else .ok (tuplesFrom k page.base page.steps page.roles)

/-! ## Bytes of the body -/

/-- The body of a page in its plain form. -/
def body (page : TuplePage) : List UInt8 :=
  littleEndian 8 page.base.toNat ++
    counted (fun s : UInt64 => littleEndian 8 s.toNat) page.steps ++
    counted (fun r : Int8 => [r.toUInt8]) page.roles

/-- A 64-bit number. -/
def takeWord : Reader UInt64 := fun bs =>
  (takeNumber 8 bs).map fun (n, rest) => (UInt64.ofNat n, rest)

/-- A signed byte. -/
def takeSigned : Reader Int8
  | [] => none
  | b :: bs => some (b.toInt8, bs)

/-- The page that begins a byte string; `none` when the bytes run out. -/
def ofBody? (bytes : List UInt8) : Option TuplePage :=
  match takeWord bytes with
  | none => none
  | some (base, bytes) =>
    match takeCounted takeWord bytes with
    | none => none
    | some (steps, bytes) =>
      match takeCounted takeSigned bytes with
      | none => none
      | some (roles, _) => some { base, steps, roles }

/-! ## Bytes of the page -/

/-- The flag of a body in its plain form. -/
def plainFlag : UInt8 := 0

/-- The flag of a packed body. -/
def packedFlag : UInt8 := 1

/-- The bytes of a page with a given body, which is packed if that makes it shorter. -/
def wrap (pack : List UInt8 → List UInt8) (body : List UInt8) : List UInt8 :=
  let packed := pack body
  if packed.length < body.length then packedFlag :: packed else plainFlag :: body

/-- The body of a page, unpacked if need be. -/
def unwrap (unpack? : List UInt8 → Option (List UInt8)) (bytes : List UInt8) :
    Except StorageError (List UInt8) :=
  match bytes with
  | [] => .error (.corrupt .emptyTuplePage)
  | flag :: rest =>
    if flag = plainFlag then .ok rest
    else if flag = packedFlag then
      match unpack? rest with
      | some body => .ok body
      | none => .error (.compression "the block is malformed")
    else .error (.corrupt (.unknownCompression flag))

/-- The bytes of a page that holds the given tuples, its body packed in a given way. -/
def encodeWith (pack : List UInt8 → List UInt8) (k : Kind) (ts : List Tuple) : List UInt8 :=
  wrap pack (ofTuples k ts).body

/-- The tuples of a page's bytes, its body unpacked in a given way. -/
def decodeWith (unpack? : List UInt8 → Option (List UInt8)) (k : Kind) (bytes : List UInt8) :
    Except StorageError (List Tuple) :=
  match unwrap unpack? bytes with
  | .error e => .error e
  | .ok body =>
    match ofBody? body with
    | none => .error (.serialization "a page of tuples ends early")
    | some page => page.tuples? k

/-- The bytes of a page that holds the given tuples. -/
def encode (k : Kind) (ts : List Tuple) : List UInt8 := encodeWith Lz4.pack k ts

/-- The tuples of a page's bytes. -/
def decode (k : Kind) (bytes : List UInt8) : Except StorageError (List Tuple) :=
  decodeWith Lz4.unpack? k bytes

end TuplePage

end EventIndex
