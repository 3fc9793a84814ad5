/-! # Unsigned decimal numbers

How the library reads a run of decimal digits. A number is read either bare
(`digits?`, the form numbers take in conditions) or with an optional leading
plus sign (`unsigned?`, the form they take in role names and environment
variables). Both refuse a number above a given bound instead of wrapping it
around.
-/

namespace EventIndex.Text

/-- Whether `c` is one of the ten ASCII digits. -/
def isDecimalDigit (c : Char) : Bool := '0' ≤ c && c ≤ '9'

/-- The number written by a nonempty run of decimal digits, if it is at most `bound`. -/
def digits? (bound : Nat) (cs : List Char) : Option Nat :=
  if cs ≠ [] ∧ cs.all isDecimalDigit then
    let n := Nat.ofDigitChars 10 cs 0
    if n ≤ bound then some n else none
  else none

/-- The number written by decimal digits after an optional plus sign, if it is at most `bound`. -/
def unsigned? (bound : Nat) : List Char → Option Nat
  | '+' :: cs => digits? bound cs
  | cs => digits? bound cs

/-- A text with its ASCII capitals made small and all else kept. -/
def lowerAscii (cs : List Char) : List Char := cs.map Char.toLower

end EventIndex.Text
