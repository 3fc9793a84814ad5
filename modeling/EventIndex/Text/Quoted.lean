import EventIndex.Text.CharClass

/-! # Quoted texts

How a message shows a text that may hold anything: between double quotes, with
quotes, backslashes and the common control characters behind a backslash and
every other hidden character by its number.
-/

namespace EventIndex.Text

/-- A character by its number: `\u` and the hexadecimal digits in braces. -/
def byNumber (c : Char) : List Char :=
  ['\\', 'u', '\x7b'] ++ Nat.toDigits 16 c.toNat ++ ['\x7d']

/-- A character within a quoted text. -/
def quotedChar (c : Char) : List Char :=
  match c with
  | '"' => ['\\', '"']
  | '\\' => ['\\', '\\']
  | '\n' => ['\\', 'n']
  | '\r' => ['\\', 'r']
  | '\t' => ['\\', 't']
  | '\x00' => ['\\', '0']
  | c => if isHidden c then byNumber c else [c]

/-- A text between double quotes. -/
def quoted (cs : List Char) : List Char := '"' :: (cs.flatMap quotedChar ++ ['"'])

end EventIndex.Text
