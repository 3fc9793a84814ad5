/-! # Recency — entries in order of their last use

A finite map whose entries are kept in the order of their last use, the most
recent first. Both bounded caches of the index are built on it: the page cache
drops what `keep` cuts off, and the residency manager asks the owners of what
`beyond` lists to give it up.

Each key occurs at most once. Looking an entry up does not count as a use;
`promote` and `put` do.
-/

namespace EventIndex

/-- Entries with distinct keys, the most recently used first. -/
structure Recency (κ ν : Type) where
  entries : List (κ × ν)
deriving Repr

namespace Recency

variable {κ ν : Type} [DecidableEq κ]

/-- No entries. -/
def empty : Recency κ ν := ⟨[]⟩

/-- The number of entries. -/
def size (r : Recency κ ν) : Nat := r.entries.length

/-- The keys, the most recently used first. -/
def keys (r : Recency κ ν) : List κ := r.entries.map Prod.fst

/-- The value of a key. -/
def find? (r : Recency κ ν) (k : κ) : Option ν :=
  (r.entries.find? fun entry => entry.1 = k).map Prod.snd

/-- Whether there is an entry of a key. -/
def contains (r : Recency κ ν) (k : κ) : Bool := r.entries.any fun entry => entry.1 = k

/-- Drops the entry of a key, if there is one. -/
def erase (r : Recency κ ν) (k : κ) : Recency κ ν := ⟨r.entries.filter fun entry => entry.1 ≠ k⟩

/-- Gives a key a value and makes it the most recently used. -/
def put (r : Recency κ ν) (k : κ) (v : ν) : Recency κ ν := ⟨(k, v) :: (r.erase k).entries⟩

/-- Makes a key the most recently used, if it has an entry. -/
def promote (r : Recency κ ν) (k : κ) : Recency κ ν :=
  match r.find? k with
  | some v => r.put k v
  | none => r

/-- The `n` most recently used entries. -/
def keep (r : Recency κ ν) (n : Nat) : Recency κ ν := ⟨r.entries.take n⟩

/-- The keys beyond the `n` most recently used ones, the least recently used first. -/
def beyond (r : Recency κ ν) (n : Nat) : List κ := ((r.entries.drop n).map Prod.fst).reverse

/-- Drops every entry whose key satisfies `p`. -/
def eraseIf (r : Recency κ ν) (p : κ → Bool) : Recency κ ν :=
  ⟨r.entries.filter fun entry => !p entry.1⟩

end Recency

end EventIndex
