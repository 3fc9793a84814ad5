import EventIndex.Page.File
import EventIndex.Page.TuplePage
import EventIndex.Store.Descriptor

/-! # Store — an ordered list of tuples

A store keeps its tuples in key order. Full pages are sealed into the page
file and never change afterwards; the tuples after the last sealed page (the
*tail*) and the directory of sealed pages stay in memory:

```text
directory (memory)             page file
page 12  keys 0 to 411    -->  sealed page
page 31  keys 412 to 904  -->  sealed page
tail (memory): 905, 911, 913
```

- `append` refuses a key that goes backwards, or repeats where keys are unique;
- `save` writes tail and directory to fresh pages and returns the descriptor;
- `load` takes a store back from its descriptor and releases those pages. It
  releases each page as soon as it has read it, so a load that fails later has
  given back what it read before.
-/

namespace EventIndex

open Binary

/-- The directory entry of a sealed page. -/
structure PageRef where
  page : PageId
  firstKey : UInt64
  lastKey : UInt64
  length : Nat
  /-- The position of the page's first tuple in the store. -/
  start : Nat
deriving DecidableEq, Repr, Inhabited

/-- The position behind the page's last tuple. -/
def PageRef.stop (p : PageRef) : Nat := p.start + p.length

/-- An ordered list of tuples whose full pages lie in a page file. -/
structure Store where
  kind : Kind
  directory : Array PageRef
  tail : Array Tuple
  /-- The number of tuples in sealed pages. -/
  sealedLength : Nat
  lastKey : Option UInt64
deriving DecidableEq, Repr

namespace Store

/-- A store without tuples. -/
def empty (kind : Kind) : Store where
  kind
  directory := #[]
  tail := #[]
  sealedLength := 0
  lastKey := none

/-- The number of tuples. -/
def length (s : Store) : Nat := s.sealedLength + s.tail.size

/-- How many tuples a page of a store of this kind holds. -/
def tuplesPerPage (kind : Kind) (f : PageFile) : Nat := max (kind.pageCapacity f.payloadCapacity) 1

/-- Whether a key may follow the last one. -/
def accepts (s : Store) (key : UInt64) : Bool :=
  match s.lastKey with
  | none => true
  | some last => last < key || (last = key && s.kind.allowsEqualKeys)

/-! ## Appending -/

/-- Moves the tail to a page of its own. -/
def sealTail (s : Store) : Act PageFile Store := do
  match s.tail[0]?, s.tail.back? with
  | some first, some last =>
    let page ← PageFile.allocate
    PageFile.write page (TuplePage.encode s.kind s.tail.toList)
    return { s with
      directory := s.directory.push
        { page
          firstKey := first.key
          lastKey := last.key
          length := s.tail.size
          start := s.sealedLength }
      tail := #[]
      sealedLength := s.sealedLength + s.tail.size }
  | _, _ => return s

/-- The store with one more tuple, its tail not yet sealed. -/
def push (s : Store) (t : Tuple) : Store :=
  { s with tail := s.tail.push t, lastKey := some t.key }

/-- Appends a tuple whose key may follow the last one, and seals the tail when it fills a page. -/
def append (s : Store) (t : Tuple) : Act PageFile Store := do
  match s.lastKey with
  | some last => if !s.accepts t.key then throw (.outOfOrder t.key last)
  | none => pure ()
  let s := s.push t
  let capacity := tuplesPerPage s.kind (← get)
  if capacity ≤ s.tail.size then s.sealTail else return s

/-! ## The directory as bytes -/

/-- The bytes of a directory entry. -/
def refBytes (p : PageRef) : List UInt8 :=
  littleEndian 4 p.page ++ littleEndian 8 p.firstKey.toNat ++ littleEndian 8 p.lastKey.toNat ++
    littleEndian 4 p.length ++ littleEndian 8 p.start

/-- Takes a directory entry off a byte string. -/
def takeRef : Reader PageRef := fun bs => do
  let (page, bs) ← takeNumber 4 bs
  let (firstKey, bs) ← takeNumber 8 bs
  let (lastKey, bs) ← takeNumber 8 bs
  let (length, bs) ← takeNumber 4 bs
  let (start, bs) ← takeNumber 8 bs
  return ({ page, firstKey := UInt64.ofNat firstKey, lastKey := UInt64.ofNat lastKey, length, start },
    bs)

/-- The bytes of a directory. -/
def directoryBytes (directory : List PageRef) : List UInt8 := counted refBytes directory

/-- The directory that begins a byte string. -/
def directoryOf? (bytes : List UInt8) : Option (List PageRef) :=
  (takeCounted takeRef bytes).map (·.1)

/-! ## Chains of pages

A byte string of any length lies in a chain of pages. Each page begins with the link to the next
one, 0 at the end of the chain. -/

/-- Cuts a byte string into pieces of `size` bytes, the last maybe shorter. Every piece takes a
byte at least, so `fuel` need not exceed the number of bytes. -/
def piecesOf (size : Nat) : (fuel : Nat) → List UInt8 → List (List UInt8)
  | 0, _ => []
  | _ + 1, [] => []
  | fuel + 1, b :: bs => (b :: bs).take size :: piecesOf size fuel ((b :: bs).drop size)

/-- Allocates a page for each piece. -/
def allocateFor : List (List UInt8) → Act PageFile (List PageId)
  | [] => return []
  | _ :: pieces => do
    let page ← PageFile.allocate
    return page :: (← allocateFor pieces)

/-- Writes each piece to its page, behind the link to the page after it. -/
def writePieces : List PageId → List (List UInt8) → Act PageFile Unit
  | page :: pages, piece :: pieces => do
    PageFile.write page (littleEndian 4 (pages.headD noPage) ++ piece)
    writePieces pages pieces
  | _, _ => return ()

/-- Writes a byte string to a chain of fresh pages and returns the first of them. -/
def writeChain (bytes : List UInt8) : Act PageFile PageId := do
  let pieces := piecesOf ((← get).payloadCapacity - 4) bytes.length bytes
  let pages ← allocateFor pieces
  writePieces pages pieces
  return pages.headD noPage

/-- Reads a chain from `page` on and releases its pages, going over at most `fuel` of them; `none`
when the chain is longer. -/
def readChainWithin : (fuel : Nat) → (page : PageId) → Act PageFile (Option (List UInt8))
  | fuel, page => do
    if page = noPage then return some []
    match fuel with
    | 0 => return none
    | fuel + 1 =>
      let payload ← PageFile.read page
      if payload.length < 4 then throw (.corrupt (.chainPageTooShort page))
      PageFile.release page
      match ← readChainWithin fuel (numberAt payload 0 4) with
      | none => return none
      | some rest => return some (payload.drop 4 ++ rest)

/-- A number of pages that only a chain without an end exceeds. Reading a page takes it out of the
cache, so no more pages are found there than it has entries; and while pages are read from the file
alone, a chain that ends comes to no page twice. -/
def chainBound (f : PageFile) : Nat := (f.wholePages + 1) * (f.cache.size + 1)

/-- Reads a chain and releases its pages. A chain without an end is read for ever; the error stands
for that. -/
def readChain (page : PageId) : Act PageFile (List UInt8) := do
  match ← readChainWithin (chainBound (← get)) page with
  | some bytes => return bytes
  | none => throw (.corrupt (.unendingChain page))

/-! ## Saving and loading -/

/-- Writes the tail to a fresh page, if there is a tail. -/
def saveTail (s : Store) : Act PageFile PageId := do
  if s.tail.isEmpty then return noPage
  let page ← PageFile.allocate
  PageFile.write page (TuplePage.encode s.kind s.tail.toList)
  return page

/-- Writes the directory to a chain of fresh pages, if there is a directory. -/
def saveDirectory (s : Store) : Act PageFile PageId := do
  if s.directory.isEmpty then return noPage
  writeChain (directoryBytes s.directory.toList)

/-- Writes tail and directory to fresh pages. The store itself stays as it is. -/
def save (s : Store) : Act PageFile Descriptor := do
  let tailPage ← s.saveTail
  let directory ← s.saveDirectory
  return {
    length := UInt64.ofNat s.length
    pageCount := UInt32.ofNat s.directory.size
    directory := UInt32.ofNat directory
    tailPage := UInt32.ofNat tailPage
    tailLength := UInt32.ofNat s.tail.size
    lastKey := s.lastKey }

/-- Reads the directory that a descriptor points at and releases its pages. -/
def loadDirectory (d : Descriptor) : Act PageFile (List PageRef) := do
  if d.directory = 0 then return []
  let bytes ← readChain d.directory.toNat
  match directoryOf? bytes with
  | some directory => return directory
  | none => throw (.serialization "a directory ends early")

/-- Reads the tail that a descriptor points at and releases its page. -/
def loadTail (kind : Kind) (d : Descriptor) : Act PageFile (List Tuple) := do
  if d.tailPage = 0 then return []
  let payload ← PageFile.read d.tailPage.toNat
  let tuples ← Act.ofExcept (TuplePage.decode kind payload)
  PageFile.release d.tailPage.toNat
  return tuples

/-- Takes a store back from its descriptor, releasing the pages of its tail and directory. -/
def load (kind : Kind) (d : Descriptor) : Act PageFile Store := do
  let directory ← loadDirectory d
  if directory.length ≠ d.pageCount.toNat then
    throw (.corrupt (.directoryCount directory.length d.pageCount.toNat))
  let tail ← loadTail kind d
  if tail.length ≠ d.tailLength.toNat then
    throw (.corrupt (.tailCount tail.length d.tailLength.toNat))
  let sealedLength := (directory.getLast?.map PageRef.stop).getD 0
  if sealedLength + tail.length ≠ d.length.toNat then
    throw (.corrupt (.tupleCount (sealedLength + tail.length) d.length.toNat))
  return {
    kind
    directory := directory.toArray
    tail := tail.toArray
    sealedLength
    lastKey := d.lastKey }

end Store

end EventIndex
