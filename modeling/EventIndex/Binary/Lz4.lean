import EventIndex.Binary.LittleEndian
import Std.Data.HashMap

/-! # Lz4 — blocks of literals and copies

A block is a list of sequences. Each sequence begins with a token whose high
half counts literal bytes and whose low half counts the bytes, beyond the first
four, of a copy from what was written before. A half of 15 is continued by
extra bytes, each adding up to 255. After the literals comes the distance of
the copy in two bytes; the last sequence of a block has literals only.

- `expand?` undoes a block, refusing one that is malformed or yields more than
  its declared size;
- `compress` takes the first copy that it finds at each place, knowing earlier
  places from a small table with one place per slot.

A *packed* block has its declared size in front, in four bytes.
-/

namespace EventIndex.Binary.Lz4

/-- The shortest copy. -/
def minCopy : Nat := 4

/-- The largest distance of a copy. -/
def maxDistance : Nat := 65535

/-- The bytes at the end of a block that no copy reaches. -/
def endLiterals : Nat := 6

/-- The distance from the end of a block within which no copy starts. -/
def copyMargin : Nat := 12

/-! ## Reading a block -/

/-- The rest of a length whose half of the token is 15. -/
def takeExtra : Reader Nat
  | [] => none
  | b :: bs =>
    if b = 255 then
      match takeExtra bs with
      | none => none
      | some (n, rest) => some (n + 255, rest)
    else some (b.toNat, bs)

/-- A length that begins in half a token. -/
def takeLength (half : Nat) : Reader Nat := fun bs =>
  if half = 15 then
    match takeExtra bs with
    | none => none
    | some (n, rest) => some (n + 15, rest)
  else some (half, bs)

/-- Repeats `n` bytes, each from `distance` places back. A copy may reach into its own bytes. -/
def copyBack (distance : Nat) : (n : Nat) → Array UInt8 → Array UInt8
  | 0, out => out
  | n + 1, out => copyBack distance n (out.push (out.getD (out.size - distance) 0))

/-- Undoes one sequence after another. Each takes at least its token off the input, so `fuel`
need not exceed the length of the input. -/
def expandSequences (capacity : Nat) : (fuel : Nat) → List UInt8 → Array UInt8 → Option (Array UInt8)
  | 0, _, _ => none
  | _ + 1, [], _ => none
  | fuel + 1, token :: bs, out =>
    match takeLength (token.toNat / 16) bs with
    | none => none
    | some (literals, bs) =>
      if capacity < out.size + literals then none
      else
        match takeBytes literals bs with
        | none => none
        -- the last sequence ends with its literals
        | some (front, []) => some (out ++ front.toArray)
        | some (front, bs) =>
          let out := out ++ front.toArray
          match takeNumber 2 bs with
          | none => none
          | some (distance, bs) =>
            match takeLength (token.toNat % 16) bs with
            | none => none
            | some (extra, bs) =>
              if distance = 0 ∨ out.size < distance ∨ capacity < out.size + (minCopy + extra) then
                none
              else expandSequences capacity fuel bs (copyBack distance (minCopy + extra) out)

/-- The bytes of a block whose declared size is `capacity`, or of its beginning if it yields
fewer. -/
def expand? (capacity : Nat) (block : List UInt8) : Option (List UInt8) :=
  (expandSequences capacity (block.length + 1) block #[]).map Array.toList

/-- The bytes of a packed block. -/
def unpack? (packed : List UInt8) : Option (List UInt8) :=
  match takeNumber 4 packed with
  | none => none
  | some (capacity, block) => expand? capacity block

/-! ## Writing a block -/

/-- The half of a token that a length takes. -/
def halfOf (n : Nat) : Nat := min n 15

/-- The extra bytes of a length from 15 on. -/
def extraOf (n : Nat) : List UInt8 :=
  if n < 15 then []
  else List.replicate ((n - 15) / 255) 255 ++ [UInt8.ofNat ((n - 15) % 255)]

/-- A sequence with a copy of `minCopy + extra` bytes. -/
def sequenceBytes (literals : List UInt8) (distance extra : Nat) : List UInt8 :=
  let n := literals.length
  UInt8.ofNat (16 * halfOf n + halfOf extra) ::
    (extraOf n ++ literals ++ littleEndian 2 distance ++ extraOf extra)

/-- The last sequence, with literals only. -/
def finalBytes (literals : List UInt8) : List UInt8 :=
  let n := literals.length
  UInt8.ofNat (16 * halfOf n) :: (extraOf n ++ literals)

/-- How many bytes from `i` on repeat those from `j` on, looking at no more than `n`. -/
def commonLength (bytes : Array UInt8) (i j : Nat) : (n : Nat) → Nat
  | 0 => 0
  | n + 1 =>
    if bytes.getD i 0 = bytes.getD j 0 then commonLength bytes (i + 1) (j + 1) n + 1 else 0

/-- How many bytes before `i` repeat those before `j`, where `i` may go back by `n` and `j` to the
first byte. -/
def commonBefore (bytes : Array UInt8) : (n i j : Nat) → Nat
  | 0, _, _ => 0
  | _ + 1, 0, _ => 0
  | _ + 1, _, 0 => 0
  | n + 1, i + 1, j + 1 =>
    if bytes.getD i 0 = bytes.getD j 0 then commonBefore bytes n i j + 1 else 0

/-- Whether the four bytes at one place are those at another. -/
def sameGroup (bytes : Array UInt8) (i j : Nat) : Bool := commonLength bytes i j minCopy == minCopy

/-! ### Places seen before

The table has 4096 slots. The bytes at a place choose the slot, the latest place takes it, and an
unused slot stands for place 0. -/

/-- Places by slot. -/
abbrev Slots := Std.HashMap Nat Nat

/-- From this size on, five bytes choose the slot instead of four. -/
def wideSize : Nat := 65535

/-- The number that `n` bytes form, the first counting least. -/
def groupAt (bytes : Array UInt8) (i n : Nat) : Nat :=
  (List.range n).foldr (fun k word => (bytes.getD (i + k) 0).toNat + 256 * word) 0

/-- The slot of the bytes at a place. -/
def slotAt (bytes : Array UInt8) (i : Nat) : Nat :=
  if bytes.size < wideSize then groupAt bytes i 4 * 2654435761 % (1 <<< 32) / (1 <<< 20)
  else groupAt bytes i 5 * (1 <<< 24) * 889523592379 % (1 <<< 64) / (1 <<< 52)

/-- The table after a visit to a place. -/
def Slots.visit (slots : Slots) (bytes : Array UInt8) (i : Nat) : Slots :=
  slots.insert (slotAt bytes i) i

/-- The place known for the bytes at a place. -/
def Slots.earlier (slots : Slots) (bytes : Array UInt8) (i : Nat) : Nat :=
  slots.getD (slotAt bytes i) 0

/-- After this many misses in a row the steps get longer by one. -/
def patience : Nat := 32

/-- Walks over the bytes. `start` is the first byte not yet written, `place` the one looked at and
`misses` the number of places since the last copy at which none was found. -/
def compressFrom (bytes : Array UInt8) :
    (fuel start place misses : Nat) → Slots → List (List UInt8) → List (List UInt8)
  | 0, start, _, _, _, written => finalBytes (bytes.toList.drop start) :: written
  | fuel + 1, start, place, misses, slots, written =>
    if bytes.size < place + copyMargin then finalBytes (bytes.toList.drop start) :: written
    else
      let earlier := slots.earlier bytes place
      let slots := slots.visit bytes place
      if place - earlier ≤ maxDistance ∧ sameGroup bytes earlier place then
        -- the copy may begin before the place looked at
        let back := commonBefore bytes (place - start) place earlier
        let extra := back + commonLength bytes (earlier + minCopy) (place + minCopy)
          (bytes.size - endLiterals - (place + minCopy))
        let literals := (bytes.extract start (place - back)).toList
        let next := place - back + minCopy + extra
        -- of the places in the copy, the table learns the last but one
        compressFrom bytes fuel next next 0 (slots.visit bytes (next - 2))
          (sequenceBytes literals (place - earlier) extra :: written)
      else
        compressFrom bytes fuel start (place + 1 + misses / patience) (misses + 1) slots written

/-- A block that `expand?` turns back into `bytes`. It never begins with a copy. -/
def compress (bytes : List UInt8) : List UInt8 :=
  (compressFrom bytes.toArray bytes.length 0 1 0 {} []).reverse.flatten

/-- A block with its size in front. -/
def pack (bytes : List UInt8) : List UInt8 :=
  littleEndian 4 bytes.length ++ compress bytes

end EventIndex.Binary.Lz4
