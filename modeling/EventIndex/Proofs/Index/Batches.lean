import EventIndex.Proofs.Index.Totals

/-! # Batches — how writes are put together, and what becomes of them

Writes to a set wait until there are enough of them for a batch, or until a flush hands them on
(`Batching`). Every write is in one batch, and the batches have the writes to a list in their order
(`Batching.total_add`, `Batching.total_handOn`).

A batch is tried on the lists that those before it have left (`Trial`, `Tried`). Either it is kept as
a whole, or the first of its tuples that its list refuses is lost with all that follow in the batch.
This is all that a task comes to (`Book.exists_trial`).
-/

namespace EventIndex

/-- The tuples that some batches have for a value of a set. -/
def tuplesIn (set : SetId) (value : ValueId) (batches : List (SetId × List (ValueId × Tuple))) :
    List Tuple :=
  batches.flatMap fun batch => (Task.batch batch.1 batch.2).tuplesFor set value

theorem tuplesIn_append (set : SetId) (value : ValueId)
    (batches more : List (SetId × List (ValueId × Tuple))) :
    tuplesIn set value (batches ++ more) = tuplesIn set value batches ++ tuplesIn set value more :=
  List.flatMap_append

theorem tuplesIn_singleton (set : SetId) (value : ValueId) (id : SetId)
    (entries : List (ValueId × Tuple)) :
    tuplesIn set value [(id, entries)] = (Task.batch id entries).tuplesFor set value :=
  List.flatMap_singleton ..

/-! ## Putting writes together -/

/-- The batches that writes have come to, and the writes that wait to make more. -/
structure Batching where
  /-- The batches that were handed on, the oldest first. -/
  handed : List (SetId × List (ValueId × Tuple))
  waiting : SetId → List (ValueId × Tuple)

namespace Batching

variable {b : Batching} {size : Nat}

/-- Before anything is written. -/
def start : Batching := ⟨[], fun _ => []⟩

/-- The writes to a set that wait are handed on, if there are any. -/
def handOn (b : Batching) (set : SetId) : Batching :=
  if b.waiting set = [] then b
  else ⟨b.handed ++ [(set, b.waiting set)], Function.update b.waiting set []⟩

/-- A write waits with the others of its set. -/
def wait (b : Batching) (set : SetId) (entry : ValueId × Tuple) : Batching :=
  { b with waiting := Function.update b.waiting set (b.waiting set ++ [entry]) }

/-- A write waits, and is handed on with the others of its set if they are enough. -/
def add (size : Nat) (b : Batching) (set : SetId) (entry : ValueId × Tuple) : Batching :=
  if size ≤ ((b.wait set entry).waiting set).length then (b.wait set entry).handOn set
  else b.wait set entry

/-- The writes to the list of a value, handed on or not. -/
def total (b : Batching) (set : SetId) (value : ValueId) : List Tuple :=
  tuplesIn set value b.handed ++ entriesOf value (b.waiting set)

theorem waiting_wait (b : Batching) (set : SetId) (entry : ValueId × Tuple) :
    (b.wait set entry).waiting set = b.waiting set ++ [entry] := Function.update_self ..

theorem waiting_handOn (b : Batching) (set : SetId) : (b.handOn set).waiting set = [] := by
  unfold handOn
  split
  · assumption
  · exact Function.update_self ..

theorem waiting_handOn_of_nil {other : SetId} (h : b.waiting other = []) (set : SetId) :
    (b.handOn set).waiting other = [] := by
  unfold handOn
  split
  · exact h
  · by_cases heq : other = set
    · rw [heq]
      exact Function.update_self ..
    · exact (Function.update_of_ne heq _ _).trans h

/-- Handing on takes nothing away from a list. -/
theorem total_handOn (b : Batching) (id set : SetId) (value : ValueId) :
    (b.handOn id).total set value = b.total set value := by
  unfold handOn
  split
  · rfl
  · show tuplesIn set value (b.handed ++ [(id, b.waiting id)]) ++
      entriesOf value (Function.update b.waiting id [] set) = b.total set value
    rw [total, tuplesIn_append, tuplesIn_singleton, List.append_assoc, Task.tuplesFor]
    by_cases heq : id = set
    · rw [if_pos heq, heq, Function.update_self]
      exact congrArg _ (List.append_nil _)
    · rw [if_neg heq, Function.update_of_ne (Ne.symm heq), List.nil_append]

/-- A write is the last one of its list. -/
theorem total_wait (b : Batching) (id : SetId) (entry : ValueId × Tuple) (set : SetId)
    (value : ValueId) : (b.wait id entry).total set value =
      b.total set value ++ if id = set ∧ entry.1 = value then [entry.2] else [] := by
  rw [total, total, List.append_assoc]
  refine congrArg (tuplesIn set value b.handed ++ ·) ?_
  by_cases heq : id = set
  · rw [heq, waiting_wait, entriesOf_append]
    by_cases hvalue : entry.1 = value <;> simp [entriesOf, hvalue]
  · rw [if_neg fun h => heq h.1, List.append_nil]
    exact congrArg _ (Function.update_of_ne (Ne.symm heq) _ _)

/-- A write that is added is the last one of its list, handed on or not. -/
theorem total_add (size : Nat) (b : Batching) (id : SetId) (entry : ValueId × Tuple) (set : SetId)
    (value : ValueId) : (b.add size id entry).total set value =
      b.total set value ++ if id = set ∧ entry.1 = value then [entry.2] else [] := by
  rw [add, ← total_wait]
  split
  · exact total_handOn _ _ _ _
  · rfl

/-- When sets are flushed, nothing waits for them. -/
theorem waiting_handOnAll {set : SetId} (sets : List SetId)
    (h : set ∈ sets ∨ b.waiting set = []) : (sets.foldl handOn b).waiting set = [] := by
  induction sets generalizing b with
  | nil => exact h.resolve_left List.not_mem_nil
  | cons id sets ih =>
    apply ih
    rcases h with h | h
    · rcases List.mem_cons.mp h with rfl | h
      · exact .inr (waiting_handOn b set)
      · exact .inl h
    · exact .inr (waiting_handOn_of_nil h id)

/-- Where nothing waits, nothing is handed on. -/
theorem handOnAll_start (sets : List SetId) : sets.foldl handOn start = start := by
  induction sets with
  | nil => rfl
  | cons id sets ih => exact ih

/-- Handing on takes nothing away from any list. -/
theorem total_handOnAll (sets : List SetId) (set : SetId) (value : ValueId) :
    (sets.foldl handOn b).total set value = b.total set value := by
  induction sets generalizing b with
  | nil => rfl
  | cons id sets ih => exact ih.trans (total_handOn b id set value)

end Batching

/-! ## Trying batches -/

/-- What became of a batch. -/
structure Trial where
  set : SetId
  /-- The entries that were added to their lists. -/
  kept : List (ValueId × Tuple)
  lost : List (ValueId × Tuple)
  error : Option StorageError

namespace Trial

/-- The batch, as it was handed on. -/
def batch (t : Trial) : SetId × List (ValueId × Tuple) := (t.set, t.kept ++ t.lost)

/-- The part of the batch that was kept. -/
def keptPart (t : Trial) : SetId × List (ValueId × Tuple) := (t.set, t.kept)

/-- How a batch goes on the lists of its set: it is kept as a whole, or the first tuple that the list of
its value refuses, however far it has come by then, is lost with all that follow. -/
inductive Goes (k : Kind) (lists : ValueId → List Tuple) : Trial → Prop
  | whole (set : SetId) (entries : List (ValueId × Tuple)) : Goes k lists ⟨set, entries, [], none⟩
  | cut {set : SetId} {kept more : List (ValueId × Tuple)} {value : ValueId} {t : Tuple}
      {e : StorageError} (h : k.extend (lists value ++ entriesOf value kept) t = .error e) :
      Goes k lists ⟨set, kept, (value, t) :: more, some e⟩

/-- An entry that is added comes before what becomes of the rest. -/
theorem Goes.cons {k : Kind} {lists : ValueId → List Tuple} {set : SetId} {value : ValueId}
    {t : Tuple} {kept lost : List (ValueId × Tuple)} {error : Option StorageError}
    (h : Goes k (Function.update lists value (lists value ++ [t])) ⟨set, kept, lost, error⟩) :
    Goes k lists ⟨set, (value, t) :: kept, lost, error⟩ := by
  cases h with
  | whole => exact .whole set _
  | @cut _ _ _ value' _ _ hrefused =>
    refine .cut ?_
    rw [entriesOf_cons]
    by_cases heq : value = value'
    · rw [if_pos heq, ← List.append_assoc]
      rwa [← heq, Function.update_self, heq] at hrefused
    · rw [if_neg heq, List.nil_append]
      rwa [Function.update_of_ne (Ne.symm heq)] at hrefused

end Trial

/-- Batches are tried one after another, each on the lists that those before it have left. -/
inductive Tried (kind? : SetId → Option Kind) (lists : SetId → ValueId → List Tuple) :
    List Trial → Prop
  | nil : Tried kind? lists []
  | snoc {done : List Trial} {t : Trial} {k : Kind} (hdone : Tried kind? lists done)
      (hkind : kind? t.set = some k)
      (ht : t.Goes k fun value =>
        lists t.set value ++ tuplesIn t.set value (done.map Trial.keptPart)) :
      Tried kind? lists (done ++ [t])

/-- Where no batch has failed, nothing is lost. -/
theorem Tried.kept_eq {kind? : SetId → Option Kind} {lists : SetId → ValueId → List Tuple}
    {trials : List Trial} (h : Tried kind? lists trials)
    (hnone : trials.findSome? Trial.error = none) :
    trials.map Trial.keptPart = trials.map Trial.batch := by
  induction h with
  | nil => rfl
  | snoc hdone hkind ht ih =>
    rw [List.findSome?_append, Option.or_eq_none_iff] at hnone
    rw [List.map_append, List.map_append, ih hnone.1]
    cases ht with
    | whole => simp [Trial.keptPart, Trial.batch]
    | cut => cases hnone.2

/-! ## What a task comes to -/

/-- What becomes of a batch on the lists of a set. -/
theorem Kind.exists_trial (k : Kind) (set : SetId) (entries : List (ValueId × Tuple))
    (lists : ValueId → List Tuple) :
    ∃ t : Trial, t.batch = (set, entries) ∧ t.Goes k lists ∧
      Recorder.errorOf (Act.outcome (k.extendEach entries) lists) = t.error ∧
      ∀ value, Act.after (k.extendEach entries) lists value =
        lists value ++ entriesOf value t.kept := by
  induction entries generalizing lists with
  | nil => exact ⟨⟨set, [], [], none⟩, rfl, .whole set [], rfl, fun _ => (List.append_nil _).symm⟩
  | cons entry entries ih =>
    obtain ⟨value, t⟩ := entry
    cases hextend : k.extend (lists value) t with
    | error e =>
      -- the first tuple that is refused cuts the batch
      have hrun : k.extendEach ((value, t) :: entries) lists = .error e lists := by
        simp only [extendEach, hextend]
      refine ⟨⟨set, [], (value, t) :: entries, some e⟩, rfl, .cut ?_, ?_, ?_⟩
      · rwa [show entriesOf value [] = [] from rfl, List.append_nil]
      · rw [Act.outcome_error hrun]
        rfl
      · intro value'
        rw [Act.after_error hrun]
        exact (List.append_nil _).symm
    | ok ts =>
      have hts : ts = lists value ++ [t] := eq_append_of_extend hextend
      have hrun : k.extendEach ((value, t) :: entries) lists =
          k.extendEach entries (Function.update lists value (lists value ++ [t])) := by
        simp only [extendEach, hextend, hts]
      obtain ⟨⟨set', kept, lost, error⟩, hbatch, hgoes, herror, hafter⟩ :=
        ih (Function.update lists value (lists value ++ [t]))
      cases hbatch
      refine ⟨⟨set', (value, t) :: kept, lost, error⟩, rfl, hgoes.cons, ?_, ?_⟩
      · rw [Act.outcome_congr hrun]
        exact herror
      · intro value'
        rw [Act.after_congr hrun, hafter, entriesOf_cons, ← List.append_assoc]
        refine congrArg (· ++ entriesOf value' kept) ?_
        by_cases heq : value = value'
        · rw [heq, Function.update_self, if_pos rfl]
        · rw [Function.update_of_ne (Ne.symm heq), if_neg heq, List.append_nil]

/-- What becomes of a batch in a book. -/
theorem Book.exists_trial {b : Book} {set : SetId} {k : Kind} (hkind : b.kind? set = some k)
    (entries : List (ValueId × Tuple)) :
    ∃ t : Trial, t.batch = (set, entries) ∧ t.Goes k (b.lists set) ∧
      Recorder.errorOf (Act.outcome (perform (.batch set entries)) b) = t.error ∧
      ∀ id value, (Act.after (perform (.batch set entries)) b).lists id value =
        b.lists id value ++ tuplesIn id value [t.keptPart] := by
  obtain ⟨t, hbatch, hgoes, herror, hafter⟩ := k.exists_trial set entries (b.lists set)
  have hset : t.set = set := congrArg Prod.fst hbatch
  have happly : Act.outcome (applyBatch set entries) b =
        Act.outcome (k.extendEach entries) (b.lists set) ∧
      (Act.after (applyBatch set entries) b).lists =
        Function.update b.lists set (Act.after (k.extendEach entries) (b.lists set)) := by
    simp only [Act.outcome, Act.after, applyBatch, hkind]
    cases k.extendEach entries (b.lists set) <;> exact ⟨rfl, rfl⟩
  refine ⟨t, hbatch, hgoes, ?_, ?_⟩
  · rw [← herror, ← happly.1]
    rfl
  · intro id value
    show (Act.after (applyBatch set entries) b).lists id value = _
    rw [happly.2, Trial.keptPart, tuplesIn_singleton, hset, Task.tuplesFor]
    -- a batch is tried on the lists of its own set
    by_cases heq : set = id
    · rw [if_pos heq, ← heq, Function.update_self]
      exact hafter value
    · rw [if_neg heq, Function.update_of_ne (Ne.symm heq), List.append_nil]

end EventIndex
