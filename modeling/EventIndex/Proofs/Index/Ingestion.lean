import EventIndex.Proofs.Index.Rest
import EventIndex.Proofs.Index.Serving

/-! # Ingestion — what an engine holds when all is flushed

An `Operation` is one thing that can happen to an engine: an event is registered or indexed, a list is
looked up or written out, a page is read, a worker takes a job, or everything is flushed. Between
flushes workers take jobs at any time; a flush lets them go on in any order before it waits for them.

What the operations say of the events is read off the operations alone: `times` are the timestamps of
the events, and `written` are the tuples of each list. When every write has been flushed, and no flush
has failed, the lists of the engine are just these (`Engine.run_spec`).

Operations are brought down to calls of the index, for which everything is proved: `ComesTo` says of an
operation which calls it comes to. A flush is the long one of them. It hands on what is pending, lets
the workers empty their queues, and hands out the error that they left.

Main results:

* `Engine.create_spec`: an engine that has just been created is at work.
* `Working.comesTo_index`: an event is indexed by writing its entries.
* `Working.flush_spec`: what a flush comes to, and what it hands out.
-/

namespace EventIndex

/-- The number of a set of an engine. -/
abbrev EngineSet := Fin setShapes.length

/-- One thing that can happen to an engine. -/
inductive Operation where
  | register (time : Timestamp)
  | indexRole (r : Role) (event : EventId)
  | index (d : Dimension) (value : UInt64) (event : EventId) (r : Role)
  | lookUp (set : EngineSet) (value : ValueId)
  | discard (set : EngineSet) (value : ValueId)
  /-- Somebody reads a page. -/
  | readPage (page : PageId)
  /-- A worker takes the oldest job of its queue. -/
  | work (worker : Nat)
  /-- Every pending write is handed on, some workers take jobs in an order, then all empty their queues,
  and the first error since the last flush is handed out. -/
  | flush (order : List Nat)
deriving Repr

/-! ## What operations say of the events -/

/-- The tuples that an event is indexed with: the set, the value and the tuple of each. -/
def Dimension.entries (d : Dimension) (value : UInt64) (event : EventId) (r : Role) :
    List (EngineSet × ValueId × Tuple) :=
  match d with
  | .object =>
    match SplitKey.split? value with
    | .ok (even, odd) =>
      [(⟨objectSet .even, objectSet_lt _⟩, even, .tagged event r),
        (⟨objectSet .odd, objectSet_lt _⟩, odd, .tagged event r)]
    | .error _ => []
  | .arrayIndex =>
    match SplitKey.split? value with
    | .ok (even, odd) =>
      [(⟨arrayIndexSet .even, arrayIndexSet_lt _⟩, even, .plain event),
        (⟨arrayIndexSet .odd, arrayIndexSet_lt _⟩, odd, .plain event)]
    | .error _ => []
  | d =>
    match h : d.set? with
    | some set =>
      [(⟨set, Dimension.set_lt h⟩, value.toUInt32,
        if d.isRoleTagged then .tagged event r else .plain event)]
    | none => []

namespace Operation

/-- The timestamp of an event to be registered. -/
def time? : Operation → Option Timestamp
  | register time => some time
  | _ => none

/-- The event that is indexed. -/
def event? : Operation → Option EventId
  | indexRole _ event => some event
  | index _ _ event _ => some event
  | _ => none

/-- Whether something is written that needs a flush to be seen. -/
def isWrite (op : Operation) : Bool := op.time?.isSome || op.event?.isSome

/-- The tuples that an operation writes. -/
def entries : Operation → List (EngineSet × ValueId × Tuple)
  | indexRole r event => [(⟨6, by decide⟩, roleValue r, .plain event)]
  | index d value event r => d.entries value event r
  | _ => []

end Operation

/-- The timestamps of the events. -/
def times (ops : List Operation) : List Timestamp := accepted none (ops.filterMap Operation.time?)

/-- The tuples written to each list, in the order of writing. -/
def written (ops : List Operation) (set : SetId) (value : ValueId) : List Tuple :=
  (ops.flatMap Operation.entries).filterMap fun entry =>
    if (entry.1 : SetId) = set ∧ entry.2.1 = value then some entry.2.2 else none

/-- Every write is followed by a flush. -/
def Flushed (ops : List Operation) : Prop :=
  ∀ before op after, ops = before ++ op :: after → op.isWrite = true →
    ∃ order, Operation.flush order ∈ after

/-! ## What operations do -/

namespace Engine

/-- The engine after something was done to its intake. -/
def onIntake (f : Intake → Intake) (e : Engine) : Engine :=
  { e with recorder := ⟨f e.recorder.intake, e.recorder.timeline⟩ }

/-- What an operation does. -/
def act : Operation → Act Engine Unit
  | .register time => do
    let _ ← registerVia Intake.defer time
  | .indexRole r event => indexRoleVia Intake.defer r event
  | .index d value event r => indexVia Intake.defer d value event r
  | .lookUp set value => do
    let _ ← lookUp set value
  | .discard set value => onArchive (Archive.discard set value)
  | .readPage page => do
    let _ ← onPages (PageFile.read page)
  | .work worker => modify (onIntake fun s => s.work Archive.perform worker)
  | .flush order => do
    handOnAll Intake.defer
    modify (onIntake (Staffed.workAll Archive.perform order))
    onRecorder (Recorder.onIntake Intake.flushPool)

/-- The engine after an operation, whether it failed or not. -/
def next (e : Engine) (op : Operation) : Engine := Act.after (act op) e

/-- The engine after some operations. -/
def run (e : Engine) (ops : List Operation) : Engine := ops.foldl next e

/-- No flush has failed. -/
def FlushesSucceed (e : Engine) (ops : List Operation) : Prop :=
  ∀ before order after, ops = before ++ .flush order :: after →
    Act.outcome (act (.flush order)) (e.run before) = .ok ()

/-- An event was registered at a time, and this is its number. -/
def Registers (e : Engine) (ops : List Operation) (event : EventId) (time : Timestamp) : Prop :=
  ∃ before after, ops = before ++ .register time :: after ∧
    Act.outcome (registerVia Intake.defer time) (e.run before) = .ok event

/-- Events are indexed after they were registered, no flush has failed, and nothing is left to be
flushed. -/
structure Ingests (e : Engine) (ops : List Operation) : Prop where
  registers : ∀ before op after, ops = before ++ op :: after →
    ∀ event, op.event? = some event → ∃ time, e.Registers before event time
  succeed : e.FlushesSucceed ops
  flushed : Flushed ops

/-- The kinds of the lists of an engine. -/
def kind? (id : SetId) : Option Kind := setShapes[id]?.map (·.2)

end Engine

/-! ## Entries -/

/-- The call that writes an entry. -/
def entryCall (entry : EngineSet × ValueId × Tuple) : Call setShapes.length :=
  .push entry.1 entry.2.1 entry.2.2.key entry.2.2.role

/-- A tuple has the shape of the lists of its set. -/
def EntryFits (entry : EngineSet × ValueId × Tuple) : Prop :=
  ((Engine.kind? entry.1).getD .plain).tuple entry.2.2.key entry.2.2.role = entry.2.2

/-- On a dimension with a set of its own an event has one entry. -/
theorem Dimension.entries_of_set {d : Dimension} {set : SetId} (h : d.set? = some set)
    (value : UInt64) (event : EventId) (r : Role) :
    d.entries value event r = [(⟨set, Dimension.set_lt h⟩, value.toUInt32,
      if d.isRoleTagged then .tagged event r else .plain event)] := by
  cases d <;> cases h <;> rfl

/-- Entries have the shape of their set, whatever the dimension. -/
theorem Dimension.entries_fit (d : Dimension) (value : UInt64) (event : EventId) (r : Role) :
    ∀ entry ∈ d.entries value event r, EntryFits entry ∧ entry.2.2.key = event := by
  -- two dimensions have a set for each half of the value, and the others a single one
  intro entry hentry
  unfold Dimension.entries at hentry
  split at hentry
  · split at hentry
    · simp only [List.mem_cons, List.not_mem_nil, or_false] at hentry
      rcases hentry with rfl | rfl <;> exact ⟨rfl, rfl⟩
    · cases hentry
  · split at hentry
    · simp only [List.mem_cons, List.not_mem_nil, or_false] at hentry
      rcases hentry with rfl | rfl <;> exact ⟨rfl, rfl⟩
    · cases hentry
  · split at hentry
    · rename_i set hset
      rw [List.mem_singleton] at hentry
      subst hentry
      have hkind : Engine.kind? set = some d.kind := d.shape_of_set hset
      refine ⟨?_, by dsimp only; split <;> rfl⟩
      simp only [EntryFits, hkind, Option.getD_some, Dimension.kind]
      cases d.isRoleTagged <;> rfl
    · cases hentry

namespace Operation

/-- Entries have the shape of their lists, and are about the event that is indexed. -/
theorem entries_fit {op : Operation} {entry : EngineSet × ValueId × Tuple} (h : entry ∈ op.entries) :
    EntryFits entry ∧ op.event? = some entry.2.2.key := by
  cases op with
  | indexRole r event =>
    rw [entries, List.mem_singleton] at h
    subst h
    exact ⟨rfl, rfl⟩
  | index d value event r =>
    obtain ⟨hfit, hkey⟩ := d.entries_fit value event r entry h
    exact ⟨hfit, by rw [hkey]; rfl⟩
  | _ => cases h

/-! ## Operations as calls -/

/-- The sets with plain lists, in the order in which they are flushed. -/
def plainOrder : List EngineSet := plainSets.pmap Fin.mk (by decide)

/-- The sets with role lists, in the order in which they are flushed. -/
def roleOrder : List EngineSet := roleSets.pmap Fin.mk (by decide)

/-- The calls that hand every pending write on. -/
def handOnCalls : List (Call setShapes.length) :=
  .flushStamps :: (plainOrder ++ roleOrder).map .flushSet

/-- What a flush does before the workers settle. -/
def flushCalls (order : List Nat) : List (Call setShapes.length) :=
  handOnCalls ++ order.map .work ++ [.raiseBarriers]

/-- The calls that an operation comes to. -/
def calls (r : Recorder) : Operation → List (Call setShapes.length)
  | .register time => [.register time]
  | .indexRole role event => (indexRole role event).entries.map entryCall
  | .index d value event role => (index d value event role).entries.map entryCall
  | .lookUp set value => [.lookUp set value]
  | .discard set value => [.discard set value]
  | .readPage page => [.readPage page]
  | .work worker => [.work worker]
  | .flush order =>
    let s := (r.run (flushCalls order)).intake
    flushCalls order ++ (s.settlingOrder Archive.perform s.pool.waiting).map .work ++ [.takeError]

end Operation

namespace Engine

/-- The calls that some operations come to. -/
def callsOf (e : Engine) : List Operation → List (Call setShapes.length)
  | [] => []
  | op :: ops => op.calls e.recorder ++ (e.next op).callsOf ops

/-- An engine at work: its index is sound, its sets have their kinds, and it has not been disposed
of. -/
structure Working (e : Engine) (c : Contents) (extra : List OwnerKey) : Prop where
  sound : e.recorder.Sound setShapes.length c extra
  ledger : (e.recorder.ledger c).Sound kind?
  isLive : e.isDisposed = false

variable {config : EngineConfig} {e e' : Engine} {c c' : Contents} {extra : List OwnerKey}
  {ops : List Operation}

/-- How the index of an engine is set up. -/
def setup (config : EngineConfig) : Setup where
  pageSize := config.pageSize
  cachePages := config.pageCachePages
  capacity := config.pageBufferSize / max config.pageSize 1
  useThreshold := config.useThreshold
  workers := config.workerThreads
  stampTaskSize := config.taskSize
  shapes := setShapes.map fun shape => (shape.1, shape.2, config.taskSize)

/-- A new engine has the index of its setup, which has just been started. -/
theorem start_setup (h : create config = .ok e) :
    (setup config).start = .ok e.recorder ∧ e.isDisposed = false := by
  unfold create at h
  unfold Setup.start
  cases hpages : PageFile.create config.pageSize config.pageCachePages with
  | error err =>
    rw [hpages] at h
    cases h
  | ok pages =>
    rw [hpages] at h
    cases h
    refine ⟨?_, rfl⟩
    rw [show (setup config).pageSize = config.pageSize from rfl,
      show (setup config).cachePages = config.pageCachePages from rfl, hpages]
    simp only [Setup.archive, setup, List.foldl_map]
    rfl

/-- Where every run begins. -/
theorem create_spec (h : create config = .ok e) :
    ∃ c, e.Working c [] ∧ (e.recorder.ledger c).Rested setShapes.length ∧
      (e.recorder.ledger c).Timed kind? [] ∧
      ∀ id value, (e.recorder.ledger c).book.lists id value = [] := by
  obtain ⟨hstart, hlive⟩ := start_setup h
  obtain ⟨hs, hledger, -⟩ := Setup.start_spec hstart
  have hlength : (setup config).shapes.length = setShapes.length := List.length_map ..
  rw [hlength] at hs
  have hpool : (setup config).ledger.staffed.pool.Routed := Pool.routed_start _
  -- nothing has been submitted, so nothing waits and nothing has failed
  have hqueues : ∀ queue ∈ (setup config).ledger.staffed.pool.queues, queue = [] :=
    fun queue hqueue => List.eq_of_mem_replicate hqueue
  have hkinds : (setup config).ledger.book.kind? = kind? := by
    funext id
    show ((setShapes.map fun shape => (shape.1, shape.2, config.taskSize))[id]?).map (·.2.1) = kind? id
    rw [List.getElem?_map, Option.map_map]
    rfl
  have hrested : (setup config).ledger.Rested setShapes.length := ⟨⟨fun _ => rfl, rfl⟩, hqueues, rfl⟩
  refine ⟨_, ⟨hs, ?_, hlive⟩, ?_, ?_, ?_⟩
  · rw [hledger]
    exact ⟨hpool, hkinds, fun _ _ _ => rfl, rfl⟩
  · rw [hledger]
    exact hrested
  · rw [hledger]
    exact ⟨hrested.stamps_eq.symm, .nil, rfl, rfl⟩
  · rw [hledger]
    exact fun _ _ => rfl

/-! ## Operations as calls -/

/-- An engine whose recorder went on. -/
theorem Working.of_recorder (hw : e.Working c extra) {e' : Engine}
    (hlive : e'.isDisposed = e.isDisposed) {calls : List (Call setShapes.length)}
    (hrecorder : e'.recorder = e.recorder.run calls) (hroom : e'.pageCount ≤ maxPages) :
    ∃ c' extra', e'.Working c' extra' ∧
      e'.recorder.ledger c' = (e.recorder.ledger c).run calls := by
  have hroom' : (e.recorder.run calls).pageCount ≤ maxPages := hrecorder ▸ hroom
  obtain ⟨c', hstep, hledger⟩ := Recorder.run_spec hw.sound calls hroom'
  refine ⟨c', _, ⟨hrecorder ▸ hstep.sound, ?_, hlive.trans hw.isLive⟩, hrecorder ▸ hledger⟩
  rw [hrecorder, hledger]
  exact hw.ledger.run calls

/-- An entry is written, and joins the pending writes of its set. -/
theorem Working.pushVia (hw : e.Working c extra) {entry : EngineSet × ValueId × Tuple}
    (hfit : EntryFits entry) :
    ∃ e', Engine.pushVia Intake.defer entry.1 entry.2.1 entry.2.2 e = .ok () e' ∧
      e'.recorder = e.recorder.run [entryCall entry] ∧ e'.Working c extra := by
  have hkind : e.recorder.kindOf entry.1 = (kind? entry.1).getD .plain := by
    rw [← hw.ledger.kind?_eq]
    rfl
  have hholds : (((e.recorder.ledger c).book.kind? entry.1).getD .plain).Holds entry.2.2 := by
    rw [hw.ledger.kind?_eq, ← hfit]
    exact Kind.holds_tuple _ _ _
  obtain ⟨r', hrun, hstep, hledger⟩ := Recorder.push_spec hw.sound entry.1 entry.2.1 hholds
  -- the call makes the tuple from the kind of the set; an entry that fits has just this tuple
  have hnext : e.recorder.next (entryCall entry) = r' := by
    refine (Act.after_bind_ok (x := (get : Act Recorder Recorder)) rfl).trans ?_
    show Act.after (Recorder.onIntake (Intake.pushVia Intake.defer entry.1 entry.2.1
      ((e.recorder.kindOf entry.1).tuple entry.2.2.key entry.2.2.role))) e.recorder = r'
    rw [hkind, hfit]
    exact Act.after_ok hrun
  refine ⟨{ e with recorder := r' }, onRecorder_ok hrun, hnext.symm, hstep.sound, ?_, hw.isLive⟩
  have hsound := hw.ledger.next (entryCall entry)
  have hpush : (e.recorder.ledger c).next (entryCall entry) = r'.ledger c := by
    rw [hledger]
    show (e.recorder.ledger c).push entry.1 entry.2.1 _ = _
    rw [hw.ledger.kind?_eq, hfit]
  exact hpush ▸ hsound

/-- An operation is on the way: it comes to some calls. -/
def ComesTo (e : Engine) (x : Act Engine Unit) (calls : List (Call setShapes.length)) : Prop :=
  (Act.after x e).recorder = e.recorder.run calls ∧ (Act.after x e).isDisposed = e.isDisposed

/-- What is done to the index by one call is that call. -/
theorem comesTo_onRecorder {α : Type} (x : Act Recorder α) {call : Call setShapes.length}
    (hcall : Act.after x e.recorder = e.recorder.next call) :
    e.ComesTo (onRecorder x >>= fun _ => pure ()) [call] := by
  rw [ComesTo, Act.after_bind_pure, after_onRecorder]
  exact ⟨hcall, rfl⟩

/-- An event on a split key is written to the lists of both halves. -/
theorem Working.comesTo_pushes (hw : e.Working c extra) {x y : EngineSet × ValueId × Tuple}
    (hx : EntryFits x) (hy : EntryFits y) :
    e.ComesTo (do
      Engine.pushVia Intake.defer x.1 x.2.1 x.2.2
      Engine.pushVia Intake.defer y.1 y.2.1 y.2.2) [entryCall x, entryCall y] := by
  obtain ⟨e₁, hrun₁, hrecorder₁, hw₁⟩ := hw.pushVia hx
  obtain ⟨e₂, hrun₂, hrecorder₂, hw₂⟩ := hw₁.pushVia hy
  have hrun := (Act.bind_ok (f := fun _ => Engine.pushVia Intake.defer y.1 y.2.1 y.2.2) hrun₁).trans hrun₂
  rw [ComesTo, Act.after_ok hrun]
  exact ⟨by rw [hrecorder₂, hrecorder₁]; rfl, hw₂.isLive.trans hw.isLive.symm⟩

/-- Writing an entry is one call. -/
theorem Working.comesTo_push (hw : e.Working c extra) {entry : EngineSet × ValueId × Tuple}
    (hfit : EntryFits entry) :
    e.ComesTo (Engine.pushVia Intake.defer entry.1 entry.2.1 entry.2.2) [entryCall entry] := by
  obtain ⟨e', hrun, hrecorder, hw'⟩ := hw.pushVia hfit
  rw [ComesTo, Act.after_ok hrun]
  exact ⟨hrecorder, hw'.isLive.trans hw.isLive.symm⟩

/-- What goes as something else does from an engine with the same index comes to the same calls. -/
theorem ComesTo.of_eq {x y : Act Engine Unit} {calls : List (Call setShapes.length)}
    (h : e'.ComesTo y calls) (hrecorder : e'.recorder = e.recorder) (hlive : e'.isDisposed = e.isDisposed)
    (hxy : x e = y e') : e.ComesTo x calls := by
  rw [ComesTo, Act.after_congr hxy, ← hrecorder, ← hlive]
  exact h

/-- An event on an object is written to the lists of both halves. -/
theorem Working.comesTo_indexObject (hw : e.Working c extra) (value : UInt64) (event : EventId)
    (r : Role) :
    e.ComesTo (indexObjectVia Intake.defer value event r)
      ((Dimension.object.entries value event r).map entryCall) := by
  have hfit := fun entry hentry => (Dimension.object.entries_fit value event r entry hentry).1
  simp only [Dimension.entries] at hfit ⊢
  unfold indexObjectVia
  cases hsplit : SplitKey.split? value with
  | error err => exact ⟨rfl, rfl⟩
  | ok halves =>
    simp only [hsplit, List.forall_mem_cons] at hfit
    -- the largest object is noted before the writes
    have hw' : Working { e with maxObject := max e.maxObject value } c extra :=
      ⟨hw.sound, hw.ledger, hw.isLive⟩
    exact (hw'.comesTo_pushes hfit.1 hfit.2.1).of_eq rfl rfl rfl

/-- An event on an array index is written to the lists of both halves. -/
theorem Working.comesTo_indexArrayIndex (hw : e.Working c extra) (value : UInt64) (event : EventId)
    (r : Role) :
    e.ComesTo (indexArrayIndexVia Intake.defer value event)
      ((Dimension.arrayIndex.entries value event r).map entryCall) := by
  have hfit := fun entry hentry => (Dimension.arrayIndex.entries_fit value event r entry hentry).1
  simp only [Dimension.entries] at hfit ⊢
  unfold indexArrayIndexVia
  cases hsplit : SplitKey.split? value with
  | error err => exact ⟨rfl, rfl⟩
  | ok halves =>
    simp only [hsplit, List.forall_mem_cons] at hfit
    exact (hw.comesTo_pushes hfit.1 hfit.2.1).of_eq rfl rfl rfl

/-- On a dimension with a set of its own one tuple is written. -/
theorem indexVia_of_set {d : Dimension} {set : SetId} (h : d.set? = some set) (value : UInt64)
    (event : EventId) (r : Role) :
    indexVia Intake.defer d value event r = pushVia Intake.defer set value.toUInt32
      (if d.isRoleTagged then .tagged event r else .plain event) := by
  cases d <;> cases h <;> rfl

/-- An event is indexed: its entries are written. -/
theorem Working.comesTo_index (hw : e.Working c extra) (d : Dimension) (value : UInt64)
    (event : EventId) (r : Role) :
    e.ComesTo (indexVia Intake.defer d value event r) ((d.entries value event r).map entryCall) := by
  cases hset : d.set? with
  | some set =>
    have hentries := Dimension.entries_of_set hset value event r
    have hfit := (d.entries_fit value event r _
      (hentries ▸ List.mem_singleton_self _)).1
    have hpush := hw.comesTo_push hfit
    rw [hentries, indexVia_of_set hset]
    exact hpush
  | none =>
    cases d with
    | object => exact hw.comesTo_indexObject value event r
    | arrayIndex => exact hw.comesTo_indexArrayIndex value event r
    | _ => cases hset

/-! ### Flushing -/

/-- Handing the batches of some sets on comes to as many calls. -/
theorem Working.flushSets (hw : e.Working c extra) (sets : List EngineSet) :
    ∃ e', flushSetsVia Intake.defer (sets.map Fin.val) e = .ok () e' ∧
      e'.recorder = e.recorder.run (sets.map .flushSet) ∧ e'.Working c extra := by
  induction sets generalizing e with
  | nil => exact ⟨e, rfl, rfl, hw⟩
  | cons set sets ih =>
    obtain ⟨r', hrun, hstep, hledger⟩ := Recorder.flushSet_spec hw.sound set
    have hnext : e.recorder.next (.flushSet set) = r' := Act.after_ok hrun
    have hw' : Working { e with recorder := r' } c extra :=
      ⟨hstep.sound, hledger ▸ hw.ledger.next (.flushSet set), hw.isLive⟩
    obtain ⟨e', hrest, hrecorder, hw''⟩ := ih hw'
    refine ⟨e', ?_, ?_, hw''⟩
    · exact (Act.bind_ok (onRecorder_ok hrun)).trans hrest
    · rw [hrecorder, ← hnext]
      rfl

/-- Handing the timestamps on is one call. -/
theorem Working.flushStamps (hw : e.Working c extra) :
    ∃ e', onRecorder (Recorder.flushStampsVia Intake.defer) e = .ok () e' ∧
      e'.recorder = e.recorder.run [(.flushStamps : Call setShapes.length)] ∧
      e'.Working c extra := by
  obtain ⟨r', hrun, hstep, hledger⟩ := Recorder.flushStamps_spec hw.sound
  have hnext : e.recorder.next (.flushStamps : Call setShapes.length) = r' := Act.after_ok hrun
  have hsound := hw.ledger.next (.flushStamps : Call setShapes.length)
  exact ⟨{ e with recorder := r' }, onRecorder_ok hrun, hnext.symm, hstep.sound,
    hledger ▸ hsound, hw.isLive⟩

/-- Every pending write is handed on. -/
theorem Working.handOnAll (hw : e.Working c extra) :
    ∃ e', Engine.handOnAll Intake.defer e = .ok () e' ∧
      e'.recorder = e.recorder.run Operation.handOnCalls ∧ e'.isDisposed = e.isDisposed := by
  obtain ⟨e₁, hrun₁, hrecorder₁, hw₁⟩ := hw.flushStamps
  obtain ⟨e₂, hrun₂, hrecorder₂, hw₂⟩ := hw₁.flushSets Operation.plainOrder
  obtain ⟨e₃, hrun₃, hrecorder₃, hw₃⟩ := hw₂.flushSets Operation.roleOrder
  have hget : (get : Act Engine Engine) e = .ok e e := rfl
  refine ⟨e₃, ?_, ?_, hw₃.isLive.trans hw.isLive.symm⟩
  · unfold Engine.handOnAll
    rw [Act.bind_ok hget, hw.isLive, if_neg Bool.false_ne_true]
    exact (Act.bind_ok hrun₁).trans ((Act.bind_ok hrun₂).trans hrun₃)
  · rw [hrecorder₃, hrecorder₂, hrecorder₁, ← Recorder.run_append, ← Recorder.run_append,
      ← List.map_append]
    rfl

end Engine

namespace Recorder

variable {n : Nat}

/-- Workers change the intake alone. -/
theorem run_works (r : Recorder) (workers : List Nat) :
    r.run (workers.map (.work : Nat → Call n)) =
      { r with intake := r.intake.workAll Archive.perform workers } := by
  induction workers generalizing r with
  | nil => rfl
  | cons worker workers ih => exact ih (r.next (.work worker : Call n))

/-- The intake when the workers have emptied their queues. -/
def settled (r : Recorder) : Intake := r.intake.settle Archive.perform

/-- The workers of the settling order empty the queues. -/
theorem run_settlingOrder (r : Recorder) :
    r.run ((r.intake.settlingOrder Archive.perform r.intake.pool.waiting).map
      (.work : Nat → Call n)) = { r with intake := r.settled } := by
  rw [run_works, ← Staffed.settleWithin_eq_workAll]
  rfl

end Recorder

/-- What a flush hands out. -/
def Pool.verdict : Option StorageError → Except StorageError Unit
  | none => .ok ()
  | some e => .error e

/-- A flush succeeds if no error waits. -/
theorem Pool.verdict_eq_ok_iff {firstError : Option StorageError} :
    verdict firstError = .ok () ↔ firstError = none := by
  cases firstError <;> simp [verdict]

/-- A flush waits for all tasks, and nobody finds the error again that it hands out. -/
theorem Staffed.flush_spec {τ σ : Type} (run : τ → Act σ Unit) (s : Staffed τ σ)
    {settled : Staffed τ σ} (hsettled : settle run ⟨s.pool.raiseBarriers, s.state⟩ = settled) :
    Act.after (flush run) s = ⟨{ settled.pool with firstError := none }, settled.state⟩ ∧
      Act.outcome (flush run) s = Pool.verdict settled.pool.firstError := by
  rcases settled with ⟨⟨workers, queues, firstError, submitted, completed, failed⟩, state⟩
  unfold flush Act.after Act.outcome
  simp only [hsettled]
  cases firstError <;> exact ⟨rfl, rfl⟩

namespace Recorder

variable {n : Nat}

/-- The calls that waiting for all tasks comes to, once the barriers stand. -/
def settlingCalls (r : Recorder) : List (Call n) :=
  (r.intake.settlingOrder Archive.perform r.intake.pool.waiting).map .work ++ [.takeError]

/-- Waiting for all tasks comes to calls, and hands out the error that the workers left. -/
theorem flushPool_spec (r : Recorder) {raised : Recorder}
    (hraised : r.next (.raiseBarriers : Call n) = raised) :
    Act.after (onIntake Intake.flushPool) r = raised.run (settlingCalls raised : List (Call n)) ∧
      Act.outcome (onIntake Intake.flushPool) r = Pool.verdict raised.settled.pool.firstError := by
  have hsettled : Staffed.settle Archive.perform ⟨r.intake.pool.raiseBarriers, r.intake.state⟩ =
      raised.settled := by
    rw [← hraised]
    rfl
  have htimeline : r.timeline = raised.timeline := by
    rw [← hraised]
    rfl
  obtain ⟨hafter, houtcome⟩ := Staffed.flush_spec Archive.perform r.intake hsettled
  constructor
  · rw [after_onIntake, settlingCalls, run_append, run_settlingOrder]
    show (⟨Act.after (Staffed.flush Archive.perform) r.intake, r.timeline⟩ : Recorder) = _
    rw [hafter, htimeline]
    rfl
  · rw [outcome_onIntake]
    exact houtcome

end Recorder

namespace Engine

variable {e : Engine} {c : Contents} {extra : List OwnerKey}

/-- A flush comes to its calls, and hands out the first error that is waiting when all is done. -/
theorem Working.flush_spec (hw : e.Working c extra) (order : List Nat) :
    e.ComesTo (act (.flush order)) ((Operation.flush order).calls e.recorder) ∧
      Act.outcome (act (.flush order)) e =
        Pool.verdict (e.recorder.run (Operation.flushCalls order)).settled.pool.firstError := by
  obtain ⟨e₁, hrun₁, hrecorder₁, hlive₁⟩ := hw.handOnAll
  -- the workers of the order run, then all others until the queues are empty
  let r₂ : Recorder := { e₁.recorder with
    intake := e₁.recorder.intake.workAll Archive.perform order }
  have hrun₂ : (modify (onIntake (Staffed.workAll Archive.perform order)) : Act Engine PUnit) e₁ =
      .ok ⟨⟩ { e₁ with recorder := r₂ } := rfl
  have hr₂ : r₂ = e.recorder.run (Operation.handOnCalls ++ order.map .work) := by
    rw [Recorder.run_append, ← hrecorder₁, Recorder.run_works]
  have hact : act (.flush order) e =
      onRecorder (Recorder.onIntake Intake.flushPool) { e₁ with recorder := r₂ } := by
    show (Engine.handOnAll Intake.defer >>= fun _ => _) e = _
    rw [Act.bind_ok hrun₁, Act.bind_ok hrun₂]
  have hraised : r₂.next (.raiseBarriers : Call setShapes.length) =
      e.recorder.run (Operation.flushCalls order) := by
    rw [Operation.flushCalls, Recorder.run_append, ← hr₂]
    rfl
  obtain ⟨hafter, houtcome⟩ := Recorder.flushPool_spec r₂ hraised
  constructor
  · rw [ComesTo, Act.after_congr hact, after_onRecorder]
    refine ⟨?_, hlive₁⟩
    show Act.after (Recorder.onIntake Intake.flushPool) r₂ = _
    rw [hafter, Operation.calls, List.append_assoc, Recorder.run_append _ (Operation.flushCalls order)]
    rfl
  · rw [Act.outcome_congr hact, outcome_onRecorder]
    exact houtcome

end Engine

end EventIndex
