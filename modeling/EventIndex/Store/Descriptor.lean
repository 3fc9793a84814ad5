import EventIndex.Error
import EventIndex.Binary.LittleEndian
import EventIndex.Binary.Crc32

/-! # Descriptor — where a stored list is

A list that is not in memory is found again through a record of 64 bytes:

```text
 0 length (8)      8 sealed pages (4)   12 directory page (4)   16 tail page (4)
20 tail length (4) 24 last key? (1)     25 last key (8)         33 zeros
60 checksum of the 60 bytes before it (4)
```

The last key counts as present when its mark is any byte but 0.
-/

namespace EventIndex

open Binary

/-- The place and shape of a stored list. -/
structure Descriptor where
  length : UInt64
  pageCount : UInt32
  /-- The first page of the directory chain, 0 if there is no directory. -/
  directory : UInt32
  /-- The page of the unsealed tuples, 0 if there are none. -/
  tailPage : UInt32
  tailLength : UInt32
  lastKey : Option UInt64
deriving DecidableEq, Repr

namespace Descriptor

/-- The bytes of a descriptor. -/
def byteSize : Nat := 64

/-- The bytes that the checksum of a descriptor covers. -/
def checkedSize : Nat := 60

/-- The checked bytes of a descriptor. -/
def checkedBytes (d : Descriptor) : List UInt8 :=
  littleEndian 8 d.length.toNat ++ littleEndian 4 d.pageCount.toNat ++
    littleEndian 4 d.directory.toNat ++ littleEndian 4 d.tailPage.toNat ++
    littleEndian 4 d.tailLength.toNat ++ [if d.lastKey.isSome then 1 else 0] ++
    littleEndian 8 (d.lastKey.getD 0).toNat ++ List.replicate 27 0

/-- The bytes of a descriptor, checksum included. -/
def toBytes (d : Descriptor) : List UInt8 :=
  d.checkedBytes ++ littleEndian 4 (Crc32.checksum d.checkedBytes).toNat

/-- The fields that the checked bytes of a descriptor hold. -/
def ofChecked (bytes : List UInt8) : Descriptor where
  length := UInt64.ofNat (numberAt bytes 0 8)
  pageCount := UInt32.ofNat (numberAt bytes 8 4)
  directory := UInt32.ofNat (numberAt bytes 12 4)
  tailPage := UInt32.ofNat (numberAt bytes 16 4)
  tailLength := UInt32.ofNat (numberAt bytes 20 4)
  lastKey :=
    if numberAt bytes 24 1 ≠ 0 then some (UInt64.ofNat (numberAt bytes 25 8)) else none

/-- Reads a descriptor, refusing bytes that are too few or do not match their checksum. -/
def ofBytes (bytes : List UInt8) : Except StorageError Descriptor :=
  if bytes.length < byteSize then .error (.corrupt (.descriptorTooShort bytes.length))
  else
    let stored := UInt32.ofNat (numberAt bytes checkedSize 4)
    let computed := Crc32.checksum (bytes.take checkedSize)
    if stored ≠ computed then .error (.corrupt (.descriptorChecksum stored computed))
    else .ok (ofChecked bytes)

end Descriptor

end EventIndex
