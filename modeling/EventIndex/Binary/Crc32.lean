/-! # Crc32 — the checksum of stored bytes

The cyclic redundancy check of 32 bits with the polynomial of IEEE 802.3, its
bits reflected, started from all ones and complemented at the end. Bytes are
taken one bit at a time: the remainder moves down one place, and the
polynomial is added whenever a one falls out.
-/

namespace EventIndex.Binary.Crc32

/-- The generating polynomial, its bits reflected. -/
def polynomial : UInt32 := 0xEDB88320

/-- Moves the remainder down one place. -/
def shift (c : UInt32) : UInt32 :=
  if c &&& 1 = 1 then (c >>> 1) ^^^ polynomial else c >>> 1

/-- Takes one byte into the remainder. -/
def step (c : UInt32) (b : UInt8) : UInt32 :=
  shift (shift (shift (shift (shift (shift (shift (shift (c ^^^ b.toUInt32))))))))

/-- The checksum of a byte string. -/
def checksum (bytes : List UInt8) : UInt32 :=
  bytes.foldl step 0xFFFFFFFF ^^^ 0xFFFFFFFF

end EventIndex.Binary.Crc32
