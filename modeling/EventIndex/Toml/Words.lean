import EventIndex.Text.Decimal

/-! # Toml.Words — keys, strings, numbers and dates

The smallest parts of a TOML document. Every reader takes one part off the
front of a text and fails on anything else.
-/

namespace EventIndex.Toml

open Text

/-- Takes a value off the front of a text. -/
abbrev Reader (α : Type) := List Char → Option (α × List Char)

/-- The text after a given character. -/
def char (c : Char) : List Char → Option (List Char)
  | d :: ds => if d = c then some ds else none
  | [] => none

/-- The text after a given word. -/
def word (w cs : List Char) : Option (List Char) :=
  if w.isPrefixOf cs then some (cs.drop w.length) else none

/-- A text without the spaces and tabs at its beginning. -/
def skipSpaces (cs : List Char) : List Char := cs.dropWhile fun c => c = ' ' || c = '\t'

/-- The text after the end of a line. -/
def newline : List Char → Option (List Char)
  | '\n' :: cs => some cs
  | '\r' :: '\n' :: cs => some cs
  | _ => none

/-- Whether a character may stand in a comment: no control character but the tab. -/
def isPlain (c : Char) : Bool := c = '\t' || (0x20 ≤ c.toNat && c.toNat ≠ 0x7F)

/-- A text without the comment at its beginning, up to the end of the line. -/
def skipComment : List Char → List Char
  | '#' :: cs => cs.dropWhile isPlain
  | cs => cs

/-- The text after the end of a line, which may hold a comment, or the end of the document. -/
def lineEnd (cs : List Char) : Option (List Char) :=
  match skipComment (skipSpaces cs) with
  | [] => some []
  | cs => newline cs

/-- A text without the white space, comments and line ends at its beginning. Each round takes a line
end or a comment off, so `fuel` need not exceed the text's length. -/
def skipLines : (fuel : Nat) → List Char → Option (List Char)
  | 0, cs => some cs
  | fuel + 1, cs =>
    match skipSpaces cs with
    | '#' :: cs =>
      match skipComment ('#' :: cs) with
      | [] => some []
      | cs => (newline cs).bind (skipLines fuel)
    | cs =>
      match newline cs with
      | some cs => skipLines fuel cs
      | none => some cs

/-! ## Strings -/

/-- The number of hexadecimal digits in a given number of characters. -/
def hexNumber (n : Nat) (cs : List Char) : Option Nat :=
  let digits := cs.take n
  let value (c : Char) : Option Nat :=
    if isDecimalDigit c then some (c.toNat - '0'.toNat)
    else if 'a' ≤ c && c ≤ 'f' then some (c.toNat - 'a'.toNat + 10)
    else if 'A' ≤ c && c ≤ 'F' then some (c.toNat - 'A'.toNat + 10)
    else none
  if digits.length < n then none
  else digits.foldl (fun sum c => match sum, value c with
    | some sum, some d => some (16 * sum + d)
    | _, _ => none) (some 0)

/-- The character with a code point, unless it is none. -/
def charOf (n : Nat) : Option Char :=
  if n.isValidChar then some (Char.ofNat n) else none

/-- The character that the text after a backslash stands for. -/
def escaped : Reader Char
  | 'b' :: cs => some ('\x08', cs)
  | 't' :: cs => some ('\t', cs)
  | 'n' :: cs => some ('\n', cs)
  | 'f' :: cs => some ('\x0c', cs)
  | 'r' :: cs => some ('\r', cs)
  | '"' :: cs => some ('"', cs)
  | '\\' :: cs => some ('\\', cs)
  | 'u' :: cs => (hexNumber 4 cs).bind charOf |>.map fun c => (c, cs.drop 4)
  | 'U' :: cs => (hexNumber 8 cs).bind charOf |>.map fun c => (c, cs.drop 8)
  | _ => none

/-- The rest of a string between double quotes, after the first one. -/
def basicRest : (fuel : Nat) → Reader (List Char)
  | 0, _ => none
  | _ + 1, [] => none
  | fuel + 1, c :: cs =>
    if c = '"' then some ([], cs)
    else if c = '\\' then do
      let (d, cs) ← escaped cs
      let (ds, cs) ← basicRest fuel cs
      return (d :: ds, cs)
    else if isPlain c then do
      let (ds, cs) ← basicRest fuel cs
      return (c :: ds, cs)
    else none

/-- The rest of a string between single quotes, after the first one. -/
def literalRest (cs : List Char) : Option (List Char × List Char) :=
  let inside := cs.takeWhile fun c => c ≠ '\'' && isPlain c
  (char '\'' (cs.drop inside.length)).map fun cs => (inside, cs)

/-- A text without the white space and line ends at its beginning. -/
def skipGaps : (fuel : Nat) → List Char → List Char
  | 0, cs => cs
  | fuel + 1, cs =>
    match newline (skipSpaces cs) with
    | some cs => skipGaps fuel cs
    | none => skipSpaces cs

/-- The rest of a string over several lines, after the quotes that open it. It ends with three
quotes; up to two more of them belong to the string. With `escapes`, a backslash stands for
characters that cannot be written, or drops a line end and the gaps after it. -/
def longRest (quote : Char) (escapes : Bool) : (fuel : Nat) → Reader (List Char)
  | 0, _ => none
  | _ + 1, [] => none
  | fuel + 1, c :: cs =>
    if c = quote then
      let quotes := (c :: cs).takeWhile (· = quote)
      let rest := (c :: cs).dropWhile (· = quote)
      let n := quotes.length
      if n < 3 then do
        let (ds, rest) ← longRest quote escapes (fuel - (n - 1)) rest
        return (quotes ++ ds, rest)
      else if n ≤ 5 then some (quotes.drop 3, rest)
      else none
    else if escapes && c = '\\' then
      match newline (skipSpaces cs) with
      | some cs => longRest quote escapes fuel (skipGaps cs.length cs)
      | none => do
        let (d, cs) ← escaped cs
        let (ds, cs) ← longRest quote escapes fuel cs
        return (d :: ds, cs)
    else if c = '\r' || c = '\n' then do
      let cs ← newline (c :: cs)
      let (ds, cs) ← longRest quote escapes fuel cs
      return ('\n' :: ds, cs)
    else if isPlain c then do
      let (ds, cs) ← longRest quote escapes fuel cs
      return (c :: ds, cs)
    else none

/-- The text after a line end that follows opening quotes at once. -/
def dropFirstNewline (cs : List Char) : List Char := (newline cs).getD cs

/-- A string on one line. -/
def shortString : Reader (List Char)
  | '"' :: cs => basicRest (cs.length + 1) cs
  | '\'' :: cs => literalRest cs
  | _ => none

/-- A string. -/
def string : Reader (List Char)
  | '"' :: '"' :: '"' :: cs => longRest '"' true (cs.length + 1) (dropFirstNewline cs)
  | '\'' :: '\'' :: '\'' :: cs => longRest '\'' false (cs.length + 1) (dropFirstNewline cs)
  | cs => shortString cs

/-! ## Keys -/

/-- Whether a character may stand in a key without quotes. -/
def isBareKeyChar (c : Char) : Bool := c.isAlphanum || c = '_' || c = '-'

/-- One part of a key. -/
def simpleKey (cs : List Char) : Option (String × List Char) :=
  match cs with
  | '"' :: _ | '\'' :: _ => (shortString cs).map fun (k, cs) => (String.ofList k, cs)
  | _ =>
    let k := cs.takeWhile isBareKeyChar
    if k.isEmpty then none else some (String.ofList k, cs.drop k.length)

/-- The parts of a key after the first one, each behind a dot. -/
def keyRest : (fuel : Nat) → Reader (List String)
  | 0, cs => some ([], cs)
  | fuel + 1, cs =>
    match char '.' (skipSpaces cs) with
    | none => some ([], cs)
    | some cs => do
      let (k, cs) ← simpleKey (skipSpaces cs)
      let (ks, cs) ← keyRest fuel cs
      return (k :: ks, cs)

/-- The depth that neither keys nor values reach. -/
def maxDepth : Nat := 80

/-- A key: the parts before the last one, and the last one. -/
def key (cs : List Char) : Option ((List String × String) × List Char) := do
  let (k, cs) ← simpleKey (skipSpaces cs)
  let (ks, cs) ← keyRest cs.length cs
  if maxDepth ≤ ks.length + 1 then none
  else return (((k :: ks).dropLast, ks.getLastD k), cs)

/-! ## Numbers -/

/-- Digits with single underscores between them. -/
def digitsWith (isDigit : Char → Bool) : (fuel : Nat) → Reader (List Char)
  | 0, _ => none
  | fuel + 1, cs =>
    let ds := cs.takeWhile isDigit
    if ds.isEmpty then none
    else
      match char '_' (cs.drop ds.length) with
      | none => some (ds, cs.drop ds.length)
      | some rest => do
        let (more, rest) ← digitsWith isDigit fuel rest
        return (ds ++ more, rest)

/-- The value of digits to a base. -/
def valueOf (base : Nat) (ds : List Char) : Nat :=
  ds.foldl (fun sum c =>
    base * sum +
      (if isDecimalDigit c then c.toNat - '0'.toNat else c.toLower.toNat - 'a'.toNat + 10)) 0

/-- The sign of a number, and the text after it. -/
def sign : List Char → Bool × List Char
  | '-' :: cs => (true, cs)
  | '+' :: cs => (false, cs)
  | cs => (false, cs)

/-- A decimal integer without its sign; a zero stands alone. -/
def decimal (cs : List Char) : Option (List Char × List Char) :=
  match cs with
  | '0' :: cs => some (['0'], cs)
  | _ => digitsWith isDecimalDigit (cs.length + 1) cs

/-- An integer within 64 bits. -/
def inRange (n : Int) : Option Int :=
  if -9223372036854775808 ≤ n ∧ n ≤ 9223372036854775807 then some n else none

/-- An integer, decimal or to the base 16, 8 or 2. -/
def integer (cs : List Char) : Option (Int × List Char) :=
  let based (base : Nat) (isDigit : Char → Bool) (cs : List Char) : Option (Int × List Char) := do
    let (ds, cs) ← digitsWith isDigit (cs.length + 1) cs
    return (← inRange (valueOf base ds), cs)
  match cs with
  | '0' :: 'x' :: cs =>
    based 16 (fun c => isDecimalDigit c || ('a' ≤ c.toLower && c.toLower ≤ 'f')) cs
  | '0' :: 'o' :: cs => based 8 (fun c => '0' ≤ c && c ≤ '7') cs
  | '0' :: 'b' :: cs => based 2 (fun c => c = '0' || c = '1') cs
  | cs => do
    let (negative, cs) := sign cs
    let (ds, cs) ← decimal cs
    let n : Int := valueOf 10 ds
    return (← inRange (if negative then -n else n), cs)

/-- The exponent of a floating-point number, and the text after it. -/
def exponent (cs : List Char) : Option (Int × List Char) :=
  match cs with
  | 'e' :: cs | 'E' :: cs => do
    let (negative, cs) := sign cs
    let (ds, cs) ← digitsWith isDecimalDigit (cs.length + 1) cs
    let n : Int := valueOf 10 ds
    return (if negative then -n else n, cs)
  | _ => none

/-- Whether a decimal number rounds to a finite floating-point number: its digits `n` and the power of
ten of the last of them. The least number that does not is 2 ^ 1024 - 2 ^ 970. -/
def isFinite (n : Nat) (power : Int) : Bool :=
  if n = 0 then true
  else if 0 ≤ power then
    (Nat.toDigits 10 n).length + power.toNat ≤ 309 && n * Nat.pow 10 power.toNat < (1 <<< 1024) - (1 <<< 970)
  else
    let digits := (Nat.toDigits 10 n).length
    if digits ≤ (-power).toNat + 308 then true
    else n < ((1 <<< 1024) - (1 <<< 970)) * Nat.pow 10 (-power).toNat

/-- A floating-point number, whose value plays no part except that it must not round to positive
infinity. -/
def float (cs : List Char) : Option (List Char) :=
  let (negative, rest) := sign cs
  match word ['i', 'n', 'f'] rest <|> word ['n', 'a', 'n'] rest with
  | some rest => some rest
  | none => do
    let (whole, rest) ← decimal rest
    match char '.' rest with
    | some rest =>
      let (fraction, rest) ← digitsWith isDecimalDigit (rest.length + 1) rest
      let (power, rest) := (exponent rest).getD (0, rest)
      if rest.head?.any (fun c => c = 'e' || c = 'E') then none
      else if negative || isFinite (valueOf 10 (whole ++ fraction)) (power - fraction.length) then
        some rest
      else none
    | none =>
      let (power, rest) ← exponent rest
      if negative || isFinite (valueOf 10 whole) power then some rest else none

/-! ## Dates and times -/

/-- A number of exactly `n` digits within bounds. -/
def fixed (n low high : Nat) (cs : List Char) : Option (Nat × List Char) :=
  let ds := cs.take n
  if ds.length = n ∧ ds.all isDecimalDigit then
    let v := valueOf 10 ds
    if low ≤ v ∧ v ≤ high then some (v, cs.drop n) else none
  else none

/-- The days of a month. -/
def daysIn (year month : Nat) : Nat :=
  if month = 2 then
    if year % 4 = 0 ∧ (year % 100 ≠ 0 ∨ year % 400 = 0) then 29 else 28
  else if month = 4 ∨ month = 6 ∨ month = 9 ∨ month = 11 then 30
  else 31

/-- A date. -/
def date (cs : List Char) : Option (List Char) := do
  let (year, cs) ← fixed 4 0 9999 cs
  let cs ← char '-' cs
  let (month, cs) ← fixed 2 1 12 cs
  let cs ← char '-' cs
  let (_, cs) ← fixed 2 1 (daysIn year month) cs
  return cs

/-- A time of day. -/
def timeOfDay (cs : List Char) : Option (List Char) := do
  let (_, cs) ← fixed 2 0 23 cs
  let cs ← char ':' cs
  let (_, cs) ← fixed 2 0 59 cs
  let cs ← char ':' cs
  let (_, cs) ← fixed 2 0 60 cs
  match cs with
  | '.' :: rest =>
    let ds := rest.takeWhile isDecimalDigit
    if ds.isEmpty then none else return rest.drop ds.length
  | _ => return cs

/-- The distance from universal time. -/
def offset (cs : List Char) : Option (List Char) :=
  match cs with
  | 'Z' :: cs | 'z' :: cs => some cs
  | '+' :: cs | '-' :: cs => do
    let (_, cs) ← fixed 2 0 23 cs
    let cs ← char ':' cs
    let (_, cs) ← fixed 2 0 59 cs
    return cs
  | _ => none

/-- A date, a time of day or both, with or without an offset. -/
def moment (cs : List Char) : Option (List Char) :=
  match date cs with
  | none => timeOfDay cs
  | some afterDate =>
    match afterDate with
    | 'T' :: cs | 't' :: cs | ' ' :: cs =>
      match timeOfDay cs with
      | some cs => some ((offset cs).getD cs)
      | none => some afterDate
    | _ => some afterDate

end EventIndex.Toml
