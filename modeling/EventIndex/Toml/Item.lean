/-! # Toml.Item — what a settings file holds

A TOML document is a table of items. Besides its entries a table knows where it
comes from, because that decides what may still be added to it:

- a table with a *header* of its own is closed once its lines end;
- a table *implied* by the header of a table in it may still get its header;
- a table made by *dotted* keys may get more dotted keys, but no header;
- an *inline* table is a value and never grows.

`Entries.alter` goes down a path of keys and changes the entries found at its
end, making tables on the way and refusing to enter what must not grow.
-/

namespace EventIndex.Toml

/-- Where a table comes from. -/
inductive Origin where
  | header | implied | dotted | inline
deriving DecidableEq, Repr

/-- A value, a table or an array of tables. -/
inductive Item where
  | text (s : String)
  | integer (n : Int)
  | float
  | boolean (b : Bool)
  /-- A date, a time of day, or both. -/
  | moment
  | array (items : List Item)
  | table (origin : Origin) (entries : List (String × Item))
  /-- An array of tables, each with a header of its own. -/
  | tables (elements : List (List (String × Item)))
deriving Repr, Inhabited

/-- The entries of a table, in the order in which they appear. -/
abbrev Entries := List (String × Item)

namespace Entries

/-- The item of a key. -/
def item? (es : Entries) (key : String) : Option Item :=
  (List.find? (fun entry => entry.1 = key) es).map (·.2)

/-- Gives a key an item, in its old place if it has one. -/
def put (es : Entries) (key : String) (item : Item) : Entries :=
  if es.any fun entry => entry.1 = key then
    es.map fun entry => if entry.1 = key then (key, item) else entry
  else es ++ [(key, item)]

/-- Drops a key. -/
def without (es : Entries) (key : String) : Entries := es.filter fun entry => entry.1 ≠ key

/-- Changes the last of some elements. -/
def alterLast (f : Entries → Option Entries) : List Entries → Option (List Entries)
  | [] => none
  | [es] => (f es).map ([·])
  | es :: rest => (alterLast f rest).map (es :: ·)

/-- Goes down a path from a table and changes the entries at its end. Tables on the way that do not
exist are made: by a dotted key if `dotted`, else implied. A dotted key enters neither a table with a
header nor a table written inline, and nothing enters a value. -/
def alter (dotted : Bool) (f : Origin → Entries → Option Entries) :
    (path : List String) → Origin → Entries → Option Entries
  | [], origin, es => f origin es
  | key :: path, _, es =>
    match es.item? key with
    | none =>
      let origin := if dotted then .dotted else .implied
      (alter dotted f path origin []).map fun inner => es.put key (.table origin inner)
    | some (.table .inline _) => none
    | some (.table origin inner) =>
      if dotted && origin = .header then none
      else (alter dotted f path origin inner).map fun inner => es.put key (.table origin inner)
    | some (.tables elements) =>
      (alterLast (alter dotted f path .header) elements).map fun elements =>
        es.put key (.tables elements)
    | some _ => none

/-- Adds a new key to a table reached by a dotted path, which is empty for the table itself. Only a
table made by dotted keys is entered by one. -/
def addNew (path : List String) (key : String) (item : Item) (origin : Origin) (es : Entries) :
    Option Entries :=
  if (origin == .dotted) == path.isEmpty then none
  else if (es.item? key).isSome then none
  else some (es.put key item)

/-- Adds a key and its item to a table, going down a dotted path first. -/
def add (es : Entries) (path : List String) (key : String) (item : Item) : Option Entries :=
  alter true (addNew path key item) path .header es

end Entries

end EventIndex.Toml
