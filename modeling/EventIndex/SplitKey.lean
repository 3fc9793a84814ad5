import EventIndex.Error

/-! # SplitKey — large keys in two halves

Objects and array indexes take too many values for one list each. Such a key
is split into the numbers made of its even and of its odd bits, and each half
has a list of its own:

```text
key  = b7 b6 b5 b4 b3 b2 b1 b0
even =          b6 b4 b2 b0
odd  =          b7 b5 b3 b1
```

Keys have 31 bits, so the even half has 16 bits and the odd half 15.
-/

namespace EventIndex.SplitKey

/-- The largest key that can be split. -/
def maxKey : UInt64 := 2147483647

/-- The bits of a half. -/
def halfBits : Nat := 16

/-- The number made of the bits of `n` at `places` even places from 0 on. -/
def evenBits : (places : Nat) → (n : Nat) → Nat
  | 0, _ => 0
  | places + 1, n => n % 2 + 2 * evenBits places (n / 4)

/-- The number with the `places` low bits of `n` at its even places. -/
def spread : (places : Nat) → (n : Nat) → Nat
  | 0, _ => 0
  | places + 1, n => n % 2 + 4 * spread places (n / 2)

/-- The even and odd halves of a key. -/
def split? (key : UInt64) : Except StorageError (UInt32 × UInt32) :=
  if maxKey < key then .error (.keyOverflow key)
  else
    .ok (UInt32.ofNat (evenBits halfBits key.toNat), UInt32.ofNat (evenBits halfBits (key.toNat / 2)))

/-- The key of two halves. -/
def join (even odd : UInt32) : UInt64 :=
  UInt64.ofNat (spread halfBits even.toNat + 2 * spread halfBits odd.toNat)

end EventIndex.SplitKey
