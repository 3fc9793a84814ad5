/-! # Fixed-width numbers, least significant byte first

Every number the index stores is written in a fixed number of bytes, the least
significant first. `littleEndian` writes one; a `Reader` takes values back off
the front of a byte string and fails when the bytes run out. What follows the
value is handed on, so trailing bytes are never an error by themselves.
-/

namespace EventIndex.Binary

/-- The `width` low bytes of `n`, least significant first. -/
def littleEndian : (width : Nat) → (n : Nat) → List UInt8
  | 0, _ => []
  | width + 1, n => UInt8.ofNat n :: littleEndian width (n / 256)

/-- The number that a byte string writes, least significant byte first. -/
def ofLittleEndian : List UInt8 → Nat
  | [] => 0
  | b :: bs => b.toNat + 256 * ofLittleEndian bs

/-- Takes a value off the front of a byte string; `none` when the bytes run out. -/
abbrev Reader (α : Type) := List UInt8 → Option (α × List UInt8)

/-- The first `n` bytes. -/
def takeBytes : (n : Nat) → Reader (List UInt8)
  | 0, bs => some ([], bs)
  | _ + 1, [] => none
  | n + 1, b :: bs =>
    match takeBytes n bs with
    | none => none
    | some (front, rest) => some (b :: front, rest)

/-- A number of `width` bytes. -/
def takeNumber (width : Nat) : Reader Nat := fun bs =>
  match takeBytes width bs with
  | none => none
  | some (front, rest) => some (ofLittleEndian front, rest)

/-- The same reader `n` times over. -/
def takeTimes {α : Type} (read : Reader α) : (n : Nat) → Reader (List α)
  | 0, bs => some ([], bs)
  | n + 1, bs =>
    match read bs with
    | none => none
    | some (a, rest) =>
      match takeTimes read n rest with
      | none => none
      | some (as, rest) => some (a :: as, rest)

/-- A counted sequence: an 8-byte count, then as many values. -/
def takeCounted {α : Type} (read : Reader α) : Reader (List α) := fun bs =>
  match takeNumber 8 bs with
  | none => none
  | some (n, rest) => takeTimes read n rest

/-- Writes a counted sequence: an 8-byte count, then each value. -/
def counted {α : Type} (write : α → List UInt8) (as : List α) : List UInt8 :=
  littleEndian 8 as.length ++ as.flatMap write

/-- The number written in `width` bytes at an offset; missing bytes count as nothing. -/
def numberAt (bs : List UInt8) (offset width : Nat) : Nat :=
  ofLittleEndian ((bs.drop offset).take width)

end EventIndex.Binary
