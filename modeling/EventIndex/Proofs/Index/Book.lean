import EventIndex.Index.Archive
import EventIndex.Proofs.Store.Ordered
import Mathlib.Logic.Function.Basic

/-! # Book — an index without pages

A book keeps each list as a list of tuples, and nothing else: no pages, no residency, nothing that
is written out or taken back. It says what the tasks of an archive come to.

Main results:

* `Kind.extendEach`, `Book.applyBatch`: a batch goes as far as its first refused tuple.
* `Book.error_of_perform`: no task fails but for a key that is refused.
-/

namespace EventIndex

namespace Kind

/-- A batch on lists of tuples: each tuple is added to the list of its value, up to the first that is
refused. -/
def extendEach (k : Kind) : List (ValueId × Tuple) → Act (ValueId → List Tuple) Unit
  | [], lists => .ok () lists
  | (value, t) :: entries, lists =>
    match k.extend (lists value) t with
    | .ok ts => k.extendEach entries (Function.update lists value ts)
    | .error e => .error e lists

/-- The values of the entries that a batch comes to, the refused one included. -/
def reached (k : Kind) : List (ValueId × Tuple) → (ValueId → List Tuple) → List ValueId
  | [], _ => []
  | (value, t) :: entries, lists =>
    match k.extend (lists value) t with
    | .ok ts => value :: k.reached entries (Function.update lists value ts)
    | .error _ => [value]

/-- A batch fails for a key that is refused. -/
theorem error_of_extendEach {k : Kind} {entries : List (ValueId × Tuple)}
    {lists lists' : ValueId → List Tuple} {e : StorageError}
    (h : k.extendEach entries lists = .error e lists') : ∃ key last, e = .outOfOrder key last := by
  induction entries generalizing lists with
  | nil => cases h
  | cons entry entries ih =>
    obtain ⟨value, t⟩ := entry
    unfold extendEach at h
    split at h
    · exact ih h
    · rename_i hextend
      obtain ⟨last, rfl⟩ := error_of_extend hextend
      cases h
      exact ⟨t.key, last, rfl⟩

end Kind

/-- The lists of an index, and the list of timestamps. -/
structure Book where
  /-- The kinds of the sets that there are. -/
  kind? : SetId → Option Kind
  lists : SetId → ValueId → List Tuple
  stamps : List Tuple

namespace Book

/-- A batch changes the lists of its set, as far as it goes. -/
def applyBatch (id : SetId) (entries : List (ValueId × Tuple)) : Act Book Unit := fun b =>
  match b.kind? id with
  | none => .ok () b
  | some k =>
    match k.extendEach entries (b.lists id) with
    | .ok _ lists => .ok () { b with lists := Function.update b.lists id lists }
    | .error e lists => .error e { b with lists := Function.update b.lists id lists }

theorem applyBatch_of_none {b : Book} {id : SetId} (hkind : b.kind? id = none)
    (entries : List (ValueId × Tuple)) : applyBatch id entries b = .ok () b := by
  simp only [applyBatch, hkind]

theorem applyBatch_of_ok {b : Book} {id : SetId} {k : Kind} {entries : List (ValueId × Tuple)}
    {lists : ValueId → List Tuple} (hkind : b.kind? id = some k)
    (hext : k.extendEach entries (b.lists id) = .ok () lists) :
    applyBatch id entries b = .ok () { b with lists := Function.update b.lists id lists } := by
  simp only [applyBatch, hkind, hext]

theorem applyBatch_of_error {b : Book} {id : SetId} {k : Kind} {entries : List (ValueId × Tuple)}
    {e : StorageError} {lists : ValueId → List Tuple} (hkind : b.kind? id = some k)
    (hext : k.extendEach entries (b.lists id) = .error e lists) :
    applyBatch id entries b = .error e { b with lists := Function.update b.lists id lists } := by
  simp only [applyBatch, hkind, hext]

/-- Timestamps are appended up to the first that is refused. -/
def appendStamps : List Tuple → Act Book Unit
  | [], b => .ok () b
  | t :: ts, b =>
    match Kind.stamp.extend b.stamps t with
    | .ok stamps => appendStamps ts { b with stamps }
    | .error e => .error e b

theorem appendStamps_cons_ok {b : Book} {t : Tuple} {stamps : List Tuple}
    (h : Kind.stamp.extend b.stamps t = .ok stamps) (ts : List Tuple) :
    appendStamps (t :: ts) b = appendStamps ts { b with stamps } := by
  simp only [appendStamps, h]

theorem appendStamps_cons_error {b : Book} {t : Tuple} {e : StorageError}
    (h : Kind.stamp.extend b.stamps t = .error e) (ts : List Tuple) :
    appendStamps (t :: ts) b = .error e b := by
  simp only [appendStamps, h]

/-- Does a task. -/
def perform : Task → Act Book Unit
  | .batch set entries => applyBatch set entries
  | .stamps times => appendStamps times

theorem error_of_appendStamps {times : List Tuple} {b b' : Book} {e : StorageError}
    (h : appendStamps times b = .error e b') : ∃ key last, e = .outOfOrder key last := by
  induction times generalizing b with
  | nil => cases h
  | cons t times ih =>
    unfold appendStamps at h
    split at h
    · exact ih h
    · rename_i hextend
      obtain ⟨last, rfl⟩ := Kind.error_of_extend hextend
      cases h
      exact ⟨t.key, last, rfl⟩

/-- A task fails for a key that is refused. -/
theorem error_of_perform {t : Task} {b b' : Book} {e : StorageError} (h : perform t b = .error e b') :
    ∃ key last, e = .outOfOrder key last := by
  cases t with
  | batch id entries =>
    have happly : applyBatch id entries b = .error e b' := h
    unfold applyBatch at happly
    split at happly
    · cases happly
    · split at happly
      · cases happly
      · rename_i hextend
        cases happly
        exact Kind.error_of_extendEach hextend
  | stamps times => exact error_of_appendStamps h

end Book

end EventIndex
