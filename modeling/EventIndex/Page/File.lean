import EventIndex.Error
import EventIndex.Recency
import EventIndex.Binary.LittleEndian
import EventIndex.Binary.Crc32
import Std.Data.HashMap

/-! # PageFile — one file of fixed-size pages

All lists of an index share one file of pages. Page 0 is the header; every
other page holds a payload behind its checksum and its length:

```text
page 0:   magic (4) | version (2) | page size (4) | checksum (4) | zeros
page n:   checksum (4) | length (4) | payload | zeros
```

The file is a value. Its bytes are kept page by page, and a page that was never
written reads as zeros as long as it lies before the end of the file.

- Writing goes to the bytes at once and also fills a cache of payloads.
- `read` looks into the cache first and counts hits and misses; `load` reads
  the bytes themselves and checks length and checksum.
- Pages given back are handed out again, the last one first. Nothing keeps a
  page from being given back twice.
-/

namespace EventIndex

open Binary

/-- The number of a page. Page 0 is the header, and stands for "no page" in links. -/
abbrev PageId := Nat

/-- The link that leads nowhere. -/
def noPage : PageId := 0

/-- The bytes of a page taken by its checksum and length. -/
def pageHeaderSize : Nat := 8

/-- The smallest page size. -/
def minPageSize : Nat := 256

/-- The largest page size. -/
def maxPageSize : Nat := 4294967295

/-- A file of fixed-size pages with its cache, its free pages and its counters. -/
structure PageFile where
  pageSize : Nat
  /-- The pages whose bytes are not all zero, and maybe others. -/
  blocks : Std.HashMap PageId ByteArray
  /-- The number of bytes up to the end of the file. -/
  length : Nat
  cacheLimit : Nat
  cache : Recency PageId ByteArray
  /-- The pages handed out so far, the header included. -/
  pageCount : Nat
  /-- The pages given back, the last one first. -/
  free : List PageId
  hits : Nat
  misses : Nat
  writes : Nat

namespace PageFile

/-- A byte string in compact form. -/
def pack (bytes : List UInt8) : ByteArray := ⟨bytes.toArray⟩

/-- The bytes of a byte string in compact form. -/
def unpack (bytes : ByteArray) : List UInt8 := bytes.data.toList

/-- A byte string filled up with zeros. -/
def padded (size : Nat) (bytes : List UInt8) : List UInt8 :=
  bytes ++ List.replicate (size - bytes.length) 0

/-- The bytes of the header page. -/
def header (pageSize : Nat) : List UInt8 :=
  let front := [84, 68, 69, 88] ++ littleEndian 2 1 ++ littleEndian 4 pageSize
  padded pageSize (front ++ littleEndian 4 (Crc32.checksum front).toNat)

/-- A new file. A cache without room is given room for one page. -/
def create (pageSize cachePages : Nat) : Except StorageError PageFile :=
  if pageSize < minPageSize ∨ maxPageSize < pageSize then
    .error (.config
      s!"page size must be between {minPageSize} and {maxPageSize} bytes, got {pageSize}")
  else
    .ok {
      pageSize
      blocks := Std.HashMap.emptyWithCapacity.insert 0 (pack (header pageSize))
      length := pageSize
      cacheLimit := max cachePages 1
      cache := .empty
      pageCount := 1
      free := []
      hits := 0
      misses := 0
      writes := 0 }

/-- The bytes of payload that one page can hold. -/
def payloadCapacity (f : PageFile) : Nat := f.pageSize - pageHeaderSize

/-! ## Bytes of the file -/

/-- The bytes of a page, as far as the file reaches or not. -/
def blockBytes (f : PageFile) (id : PageId) : List UInt8 :=
  match f.blocks[id]? with
  | some block => unpack block
  | none => List.replicate f.pageSize 0

/-- The byte at an offset. -/
def byteAt (f : PageFile) (offset : Nat) : UInt8 :=
  match f.blocks[offset / f.pageSize]? with
  | some block => block.data.getD (offset % f.pageSize) 0
  | none => 0

/-- The bytes of the file from an offset on; fewer than asked for at the end of the file. -/
def bytesAt (f : PageFile) (offset count : Nat) : List UInt8 :=
  (List.range (min count (f.length - offset))).map fun i => f.byteAt (offset + i)

/-- Changes one byte of the file, behind the cache. -/
def setByte (f : PageFile) (offset : Nat) (b : UInt8) : PageFile :=
  let id := offset / f.pageSize
  let block := (f.blocks[id]?).getD (pack (List.replicate f.pageSize 0))
  { f with
    blocks := f.blocks.insert id ⟨block.data.setIfInBounds (offset % f.pageSize) b⟩
    length := max f.length (offset + 1) }

/-- Changes bytes of the file from an offset on, behind the cache. -/
def patch (f : PageFile) (offset : Nat) : List UInt8 → PageFile
  | [] => f
  | b :: bs => (f.setByte offset b).patch (offset + 1) bs

/-- The whole pages of the file. -/
def wholePages (f : PageFile) : Nat := f.length / f.pageSize

/-! ## Pages in and out of use -/

/-- Hands out a page, one given back if there is any. -/
def allocate : Act PageFile PageId := fun f =>
  match f.free with
  | id :: rest => .ok id { f with free := rest }
  | [] => .ok f.pageCount { f with pageCount := f.pageCount + 1 }

/-- Takes a page back and forgets what the cache knows of it. -/
def release (id : PageId) : Act PageFile Unit := fun f =>
  if id = noPage then .ok () f
  else .ok () { f with cache := f.cache.erase id, free := id :: f.free }

/-! ## Payloads -/

/-- The bytes of a page that holds a payload. -/
def pageBytes (pageSize : Nat) (payload : List UInt8) : List UInt8 :=
  let checked := littleEndian 4 payload.length ++ payload
  padded pageSize (littleEndian 4 (Crc32.checksum checked).toNat ++ checked)

/-- Remembers a payload as the last one used. -/
def remember (f : PageFile) (id : PageId) (payload : List UInt8) : PageFile :=
  { f with cache := (f.cache.put id (pack payload)).keep f.cacheLimit }

/-- Writes a payload to a page. -/
def write (id : PageId) (payload : List UInt8) : Act PageFile Unit := fun f =>
  if id = noPage then .error (.corrupt .headerPage) f
  else if f.payloadCapacity < payload.length then
    .error (.oversizedPayload payload.length f.payloadCapacity) f
  else
    let f :=
      { f with
        blocks := f.blocks.insert id (pack (pageBytes f.pageSize payload))
        length := max f.length ((id + 1) * f.pageSize)
        writes := f.writes + 1 }
    .ok () (f.remember id payload)

/-- The payload that the bytes of a page hold, whatever the cache knows. -/
def load (f : PageFile) (id : PageId) : Except StorageError (List UInt8) :=
  if f.length < (id + 1) * f.pageSize then .error (.io "the page lies beyond the end of the file")
  else
    let block := f.blockBytes id
    let stored := UInt32.ofNat (numberAt block 0 4)
    let size := numberAt block 4 4
    if f.payloadCapacity < size then .error (.corrupt (.declaredLength id size))
    else
      let checked := (block.drop 4).take (4 + size)
      let computed := Crc32.checksum checked
      if stored ≠ computed then .error (.corrupt (.pageChecksum id stored computed))
      else .ok (checked.drop 4)

/-- The payload of a page, from the cache if it is there. -/
def read (id : PageId) : Act PageFile (List UInt8) := fun f =>
  match f.cache.find? id with
  | some payload =>
    .ok (unpack payload) { f with hits := f.hits + 1, cache := f.cache.promote id }
  | none =>
    let f := { f with misses := f.misses + 1 }
    match f.load id with
    | .error e => .error e f
    | .ok payload => .ok payload (f.remember id payload)

end PageFile

end EventIndex
