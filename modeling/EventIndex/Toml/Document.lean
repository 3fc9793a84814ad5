import EventIndex.Toml.Item
import EventIndex.Toml.Words

/-! # Toml.Document — reading a settings file

A document is read line by line. A line adds a key to the table under way, or
opens another table with a header, or is empty. The table under way is kept
apart from the document and put in its place when the next header or the end of
the text comes.

Values nest to a limited depth, which is also what bounds the reading of
arrays and inline tables.
-/

namespace EventIndex.Toml

/-! ## Values -/

/-- The items of an array, after its opening bracket. -/
def arrayRest (value : Reader Item) : (fuel : Nat) → Reader (List Item)
  | 0, _ => none
  | fuel + 1, cs => do
    let cs ← skipLines cs.length cs
    match char ']' cs with
    | some cs => return ([], cs)
    | none =>
      let (item, cs) ← value cs
      let cs ← skipLines cs.length cs
      match char ',' cs with
      | some cs =>
        let (items, cs) ← arrayRest value fuel cs
        return (item :: items, cs)
      | none =>
        let cs ← char ']' cs
        return ([item], cs)

/-- A key and its value. -/
def keyValue (value : Reader Item) (cs : List Char) :
    Option ((List String × String × Item) × List Char) := do
  let ((path, k), cs) ← key cs
  let cs ← char '=' (skipSpaces cs)
  let (item, cs) ← value (skipSpaces cs)
  return ((path, k, item), cs)

/-- The entries of an inline table from a key on. -/
def inlineRest (value : Reader Item) : (fuel : Nat) → Entries → Reader Entries
  | 0, _, _ => none
  | fuel + 1, es, cs => do
    let ((path, k, item), cs) ← keyValue value cs
    let es ← es.add path k item
    match char ',' (skipSpaces cs) with
    | some cs => inlineRest value fuel es cs
    | none =>
      let cs ← char '}' (skipSpaces cs)
      return (es, cs)

/-- An inline table, after its opening brace. -/
def inlineTable (value : Reader Item) (cs : List Char) : Option (Entries × List Char) :=
  match char '}' (skipSpaces cs) with
  | some cs => some ([], cs)
  | none => inlineRest value (cs.length + 1) [] (skipSpaces cs)

/-- A value in which arrays and inline tables nest to at most `depth`. -/
def value : (depth : Nat) → Reader Item
  | depth, cs =>
    match cs with
    | '"' :: _ | '\'' :: _ => (string cs).map fun (s, cs) => (.text (String.ofList s), cs)
    | '[' :: cs =>
      match depth with
      | 0 => none
      | depth + 1 =>
        (arrayRest (value depth) (cs.length + 1) cs).map fun (items, cs) => (.array items, cs)
    | '{' :: cs =>
      match depth with
      | 0 => none
      | depth + 1 =>
        (inlineTable (value depth) cs).map fun (es, cs) => (.table .inline es, cs)
    | 't' :: _ => (word ['t', 'r', 'u', 'e'] cs).map fun cs => (.boolean true, cs)
    | 'f' :: _ => (word ['f', 'a', 'l', 's', 'e'] cs).map fun cs => (.boolean false, cs)
    | _ =>
      match moment cs with
      | some cs => some (.moment, cs)
      | none =>
        match float cs with
        | some cs => some (.float, cs)
        | none => (integer cs).map fun (n, cs) => (.integer n, cs)

/-! ## Tables -/

/-- A document being read: what is finished, and the table under way with its path. -/
structure Reading where
  root : Entries
  path : List String
  /-- Whether the table under way is an element of an array of tables. -/
  isElement : Bool
  current : Entries

namespace Reading

/-- An empty document, its outermost table under way. -/
def start : Reading := ⟨[], [], false, []⟩

/-- Adds an element to the array of tables with a key, which is made if need be. -/
def addElement (k : String) (element : List Entries) (es : Entries) : Option Entries :=
  match es.item? k with
  | none => some (es.put k (.tables element))
  | some (.tables elements) => some (es.put k (.tables (elements ++ element)))
  | some _ => none

/-- Puts a table in the place of a key that is free, or that only an implied table holds. -/
def placeTable (k : String) (table : Entries) (es : Entries) : Option Entries :=
  match es.item? k with
  | none => some (es.put k (.table .header table))
  | some (.table .implied _) => some (es.put k (.table .header table))
  | some _ => none

/-- Puts the table under way in its place. -/
def finish (r : Reading) : Option Entries :=
  match r.path.getLast? with
  | none => some r.current
  | some k =>
    let f := if r.isElement then addElement k [r.current] else placeTable k r.current
    Entries.alter false (fun _ es => f es) r.path.dropLast .header r.root

/-- The entries of the implied table with a key, which a header now takes over; none if the key is
free. -/
def takeOver (k : String) (es : Entries) : Option Entries :=
  match es.item? k with
  | none => some []
  | some (.table .implied inner) => some inner
  | some _ => none

/-- The entries that the table with a key starts with, if a header may open it. -/
def entriesAt (k : String) : (path : List String) → Entries → Option Entries
  | [], es => takeOver k es
  | step :: path, es =>
    match es.item? step with
    | none => some []
    | some (.table .inline _) => none
    | some (.table _ inner) => entriesAt k path inner
    | some (.tables elements) => (elements.getLast?).bind (entriesAt k path)
    | some _ => none

/-- Opens the table with a header. -/
def openTable (r : Reading) (path : List String) (k : String) : Option Reading := do
  let root ← r.finish
  let current ← entriesAt k path root
  let root ← Entries.alter false (fun _ es => some (es.without k)) path .header root
  return ⟨root, path ++ [k], false, current⟩

/-- Opens a new element of an array of tables. -/
def openElement (r : Reading) (path : List String) (k : String) : Option Reading := do
  let root ← r.finish
  let root ← Entries.alter false (fun _ es => addElement k [] es) path .header root
  return ⟨root, path ++ [k], true, []⟩

/-- Reads a header. -/
def header (r : Reading) (cs : List Char) : Option (Reading × List Char) :=
  match cs with
  | '[' :: '[' :: cs => do
    let ((path, k), cs) ← key cs
    let cs ← word [']', ']'] (skipSpaces cs)
    return (← r.openElement path k, ← lineEnd cs)
  | '[' :: cs => do
    let ((path, k), cs) ← key cs
    let cs ← char ']' (skipSpaces cs)
    return (← r.openTable path k, ← lineEnd cs)
  | _ => none

/-- Reads a line with a key and a value. -/
def assignment (r : Reading) (cs : List Char) : Option (Reading × List Char) := do
  let ((path, k, item), cs) ← keyValue (value (maxDepth - 1)) cs
  let current ← r.current.add path k item
  return ({ r with current }, ← lineEnd cs)

/-- Reads line after line. Each line takes a character at least, so `fuel` need not exceed the text's
length. -/
def lines : (fuel : Nat) → Reading → List Char → Option Reading
  | 0, _, _ => none
  | fuel + 1, r, cs =>
    match skipSpaces cs with
    | [] => some r
    | '#' :: cs => (lineEnd ('#' :: cs)).bind (lines fuel r)
    | '\n' :: cs => lines fuel r cs
    | '\r' :: cs => (newline ('\r' :: cs)).bind (lines fuel r)
    | '[' :: cs => (r.header ('[' :: cs)).bind fun (r, cs) => lines fuel r cs
    | cs => (r.assignment cs).bind fun (r, cs) => lines fuel r cs

end Reading

/-- The entries of the document that a text holds, which may begin with a byte order mark. -/
def document (text : String) : Option Entries :=
  let cs := text.toList
  let cs := (char '\uFEFF' cs).getD cs
  (Reading.lines (cs.length + 1) .start cs).bind Reading.finish

end EventIndex.Toml
