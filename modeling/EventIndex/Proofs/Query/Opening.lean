import EventIndex.Proofs.Cursor.Tower
import EventIndex.Proofs.Query.Running
import EventIndex.Proofs.Query.Satisfaction

/-! # Opening cursors

What it means that a cursor selects events (`Book.Selects`), and what the pieces give that the cursor
of a condition is put together from: lists that are looked up and opened, intersections and unions.
Cursors opened earlier wait while others are opened, and go on showing what they showed.

Main results:

* `Book.Selects`, `Book.Chooses`: what a cursor, and a list, has to do with the events that are asked
  for.
* `chooses_of_merges`: a merged list chooses the events that it has a pick for.
* `gives_plainCursor`, `gives_taggedCursor`, `gives_meet`, `gives_join`: what each piece gives.
-/

namespace EventIndex

open Cursor

/-- The lists of an index whose events have timestamps. -/
structure Book.Complete (b : Book) : Prop where
  kind?_eq : ∀ id, b.kind? id = setShapes[id]?.map (·.2)
  ordered : ∀ id value k, b.kind? id = some k → k.Ordered (b.lists id value)
  stampsOrdered : Kind.stamp.Ordered b.stamps
  dated : ∀ id value k, b.kind? id = some k →
    ∀ t ∈ b.lists id value, t.key.toNat < b.stamps.length
  few : b.stamps.length < 2 ^ 64

variable {b : Book} {ds : Disks} {start : EventId}

/-! ## Chosen events -/

/-- A list has one tuple for each event of a kind, in order, and these events have timestamps. -/
structure Book.Chooses (b : Book) (P : EventId → Bool) (ts : List Tuple) : Prop where
  strict : ts.Pairwise fun t u => t.key < u.key
  exists_iff : ∀ event, (∃ t ∈ ts, t.key = event) ↔ P event = true
  dated : ∀ t ∈ ts, t.key.toNat < b.stamps.length

/-- A cursor shows one tuple for each event of a kind. -/
def Book.Selects (b : Book) (P : EventId → Bool) (ds : Disks) (x : AnyCursor) : Prop :=
  ∃ ts p, Shows ds x.cursor ts p ∧ b.Chooses P ts

namespace Book

variable {P Q : EventId → Bool} {ts : List Tuple} {lists : List (List Tuple)} {ds' : Disks}
  {x : AnyCursor}

/-- A cursor that selects events over some disks selects them over fewer. -/
theorem Selects.narrow (h : b.Selects P ds x) (hds : ds'.Narrow ds) : b.Selects P ds' x :=
  let ⟨ts, p, hshows, hts⟩ := h
  ⟨ts, p, hshows.mono hds.sub, hts⟩

/-- A list chooses the same events however they are described. -/
theorem Chooses.congr (h : b.Chooses P ts) (hPQ : ∀ event, P event = Q event) :
    b.Chooses Q ts :=
  ⟨h.strict, fun event => hPQ event ▸ h.exists_iff event, h.dated⟩

/-- No event with a timestamp is numbered by the largest key. -/
theorem Complete.ne_maxKey (hb : b.Complete) {t : Tuple} (h : t.key.toNat < b.stamps.length) :
    t.key ≠ maxKey := by
  intro hkey
  have hfew := hb.few
  rw [hkey, show maxKey.toNat = 2 ^ 64 - 1 from rfl] at h
  omega

/-- A merged list chooses the events with a pick. -/
theorem chooses_of_merges {pick : UInt64 → Option Tuple} (hm : Merges pick ts)
    (hpick : ∀ key t, pick key = some t → t.key = key ∧ ∃ us ∈ lists, t ∈ us)
    (hdated : ∀ us ∈ lists, ∀ t ∈ us, t.key.toNat < b.stamps.length)
    (hP : ∀ event, (pick event).isSome = true ↔ P event = true) : b.Chooses P ts where
  strict := hm.strict
  exists_iff event := (hm.exists_key_iff fun t ht => (hpick event t ht).1).trans (hP event)
  dated t ht := by
    obtain ⟨-, us, hus, htus⟩ := hpick _ t (hm.pick_eq ht)
    exact hdated us hus t htus

end Book

namespace Plan

/-! ## Growth -/

theorem grows_plainCursor (start : EventId) (v : Snapshot) :
    Act.Grows Engine.pageCount (plainCursor start v) :=
  (QueryAct.grows_ofAct (Engine.grows_onPages (v.grows_cursorAt start))).bind fun _ => .pure _

/-- A list with roles is opened with a seek, and filtered if the leaf asks for roles. -/
theorem grows_taggedCursor (start : EventId) (allowed : Option (List Role)) (v : Snapshot) :
    Act.Grows Engine.pageCount (taggedCursor start allowed v) := by
  refine (QueryAct.grows_ofAct (Engine.grows_onPages (v.grows_cursorAt start))).bind fun c => ?_
  cases allowed <;> exact .pure _

/-- Opening one list after the other takes no pages back if opening one takes none. -/
theorem grows_cursorsOf {open_ : Snapshot → QueryAct AnyCursor}
    (h : ∀ v, Act.Grows Engine.pageCount (open_ v)) (vs : List Snapshot) :
    Act.Grows Engine.pageCount (cursorsOf open_ vs) := by
  induction vs with
  | nil => exact .pure _
  | cons v vs ih => exact (h v).bind fun _ => ih.bind fun _ => .pure _

theorem grows_meet (cs : List AnyCursor) (matchRoles : Bool) :
    Act.Grows Engine.pageCount (meet cs matchRoles) :=
  QueryAct.grows_ofAct (Engine.grows_onPages (AnyCursor.grows_conjunction cs matchRoles))

theorem grows_join (cs : List AnyCursor) : Act.Grows Engine.pageCount (join cs) :=
  QueryAct.grows_ofAct (Engine.grows_onPages (AnyCursor.grows_disjunction cs))

theorem grows_check {α : Type} (r : Except QueryError α) :
    Act.Grows Engine.pageCount (check r) := by
  cases r with
  | ok a => exact .pure _
  | error e => exact .throw _

theorem grows_lookUp (set : SetId) (l : Leaf) : Act.Grows Engine.pageCount (lookUp set l) :=
  (grows_check _).bind fun _ => QueryAct.grows_ofAct (Engine.grows_lookUp _ _)

theorem grows_lookUpHalves (set : Half → SetId) (key : UInt64) :
    Act.Grows Engine.pageCount (QueryAct.ofAct (Engine.lookUpHalves set key)) :=
  QueryAct.grows_ofAct (Engine.grows_lookUpHalves set key)

/-- The cursor of a leaf takes no pages back, whatever its dimension. -/
theorem grows_leafCursor (start : EventId) (l : Leaf) :
    Act.Grows Engine.pageCount (leafCursor start l) := by
  unfold leafCursor
  split
  · exact (grows_lookUpHalves _ _).bind fun _ =>
      (grows_cursorsOf (grows_taggedCursor _ _) _).bind fun _ => grows_meet _ _
  · exact (grows_check _).bind fun _ => (grows_lookUpHalves _ _).bind fun _ =>
      (grows_cursorsOf (grows_plainCursor _) _).bind fun _ => grows_meet _ _
  · split
    · exact .throw _
    · split
      · exact (grows_lookUp _ _).bind fun _ => (grows_taggedCursor _ _ _).bind fun _ => .pure _
      · exact (grows_check _).bind fun _ => (grows_lookUp _ _).bind fun _ => grows_plainCursor _ _

mutual

/-- The cursor of a condition takes no pages back, by induction on the condition. -/
theorem grows_cursor (start : EventId) : (c : Condition) →
    Act.Grows Engine.pageCount (cursor start c)
  | .leaf l => by
    rw [cursor]
    exact grows_leafCursor start l
  | .all operands => by
    rw [cursor]
    exact (grows_cursors start operands).bind fun _ => grows_meet _ _
  | .any operands => by
    rw [cursor]
    exact (grows_cursors start operands).bind fun _ => grows_join _

/-- The cursors of several conditions take no pages back. -/
theorem grows_cursors (start : EventId) : (cs : List Condition) →
    Act.Grows Engine.pageCount (cursors start cs)
  | [] => by
    rw [cursors]
    exact .pure _
  | c :: cs => by
    rw [cursors]
    exact (grows_cursor start c).bind fun _ => (grows_cursors start cs).bind fun _ => .pure _

end

/-! ## Lists -/

/-- A cursor shows a list from an event on. -/
def ShowsFrom (start : EventId) (ts : List Tuple) (ds : Disks) (x : AnyCursor) : Prop :=
  Shows ds x.cursor ts (place ts start)

/-- A list without roles is shown with any role. -/
theorem gives_plainCursor {v : Snapshot} {ts : List Tuple} (h : Views ts ds v) :
    Gives b ds (plainCursor start v) (ShowsFrom start (ts.map Tuple.widen)) := by
  obtain ⟨chunks, hlies, rfl⟩ := h
  refine (Gives.onPages (hlies.reads_cursorAt start)).bind ?_ fun _ => .pure _
  rintro _ ds₁ hds₁ rfl
  refine .pure fun ds₂ hds₂ => ?_
  have hshows := AnyCursor.shows_widened
    (AnyCursor.shows_ofStored (Stored.shows_of_view hlies (place_le _ start)))
  rw [ShowsFrom, Widened.place_map_widen]
  exact hshows.mono (hds₂.trans hds₁).sub

/-- A list with roles is shown as far as the leaf accepts them. -/
theorem gives_taggedCursor {v : Snapshot} {ts : List Tuple} (h : Views ts ds v) (l : Leaf) :
    Gives b ds (taggedCursor start l.allowedRoles v)
      (ShowsFrom start (ts.filter l.accepts)) := by
  obtain ⟨chunks, hlies, rfl⟩ := h
  have hsorted := hlies.sorted
  refine (Gives.onPages (hlies.reads_cursorAt start)).bind ?_ fun c => by split <;> exact .pure _
  rintro _ ds₁ hds₁ rfl
  have hshows := AnyCursor.shows_ofStored (Stored.shows_of_view hlies (place_le _ start))
  cases hallowed : l.allowedRoles with
  | none =>
    -- a leaf without a role accepts every tuple, and nothing is filtered
    have hall : (v.tuples chunks).filter l.accepts = v.tuples chunks :=
      List.filter_eq_self.mpr fun t _ => by rw [l.accepts_eq, hallowed]
    rw [hall]
    exact .pure fun ds₂ hds₂ => hshows.mono (hds₂.trans hds₁).sub
  | some roles =>
    -- the filter passes what the leaf accepts
    have haccepts : l.accepts = RoleFilter.accepts roles := by
      funext t
      rw [l.accepts_eq, hallowed]
    rw [haccepts]
    refine .pure fun ds₂ hds₂ => ?_
    rw [ShowsFrom, ← RoleFilter.passed_place hsorted]
    exact (AnyCursor.shows_filtered hshows roles).mono (hds₂.trans hds₁).sub

/-- The cursors of two lists. -/
theorem gives_cursorsOf {open_ : Snapshot → QueryAct AnyCursor} {g : List Tuple → List Tuple}
    (hopen : ∀ (ds' : Disks) v ts, Views ts ds' v →
      Gives b ds' (open_ v) (ShowsFrom start (g ts)))
    (hgrows : ∀ v, Act.Grows Engine.pageCount (open_ v)) {v w : Snapshot} {us ts : List Tuple}
    (hv : Views us ds v) (hw : Views ts ds w) :
    Gives b ds (cursorsOf open_ [v, w]) fun ds' xs => AnyCursor.AllShow ds' xs [g us, g ts] := by
  have hlast : Act.Grows Engine.pageCount (cursorsOf open_ [w]) := grows_cursorsOf hgrows _
  refine (hopen ds v us hv).bind (fun x ds₁ hds₁ hx => ?_) fun x => hlast.bind fun _ => .pure _
  have hrest : Gives b ds₁ (cursorsOf open_ [w]) fun ds' ys => AnyCursor.AllShow ds' ys [g ts] := by
    refine (hopen ds₁ w ts (hw.narrow hds₁)).bind (fun y ds₂ _ hy => ?_) fun y => .bind (.pure _)
      fun _ => .pure _
    exact .pure fun ds₃ hds₃ => .cons ⟨_, hy.mono hds₃.sub⟩ .nil
  refine hrest.bind (fun ys ds₂ hds₂ hys => ?_) fun _ => .pure _
  refine .pure fun ds₃ hds₃ => .cons ⟨_, hx.mono (hds₃.trans hds₂).sub⟩ ?_
  exact hys.imp fun _ _ ⟨p, hy⟩ => ⟨p, hy.mono hds₃.sub⟩

/-! ## Merging -/

variable {cs : List AnyCursor} {lists : List (List Tuple)}

/-- An intersection of cursors that show lists shows the intersection of the lists. -/
theorem gives_meet (hb : b.Complete) (h : AnyCursor.AllShow ds cs lists)
    (hdated : ∀ us ∈ lists, ∀ u ∈ us, u.key.toNat < b.stamps.length) (matchRoles : Bool) :
    Gives b ds (meet cs matchRoles) fun ds' x =>
      ∃ ts p, Shows ds' x.cursor ts p ∧ Conjunction.Intersects matchRoles lists ts := by
  obtain ⟨x, ts, p, hread, hshows, hts⟩ := AnyCursor.reads_conjunction h
    (fun us hus u hu => hb.ne_maxKey (hdated us hus u hu)) matchRoles
  refine (Gives.onPages hread).mono ?_
  rintro _ ds' hds' rfl
  exact ⟨ts, p, hshows.mono hds'.sub, hts⟩

/-- A union of cursors that show lists shows the union of the lists. -/
theorem gives_join (hb : b.Complete) (h : AnyCursor.AllShow ds cs lists)
    (hdated : ∀ us ∈ lists, ∀ u ∈ us, u.key.toNat < b.stamps.length) :
    Gives b ds (join cs) fun ds' x =>
      ∃ ts p, Shows ds' x.cursor ts p ∧ Disjunction.Unites lists ts := by
  obtain ⟨x, ts, p, hread, hshows, hts⟩ := AnyCursor.reads_disjunction h
    (fun us hus u hu => hb.ne_maxKey (hdated us hus u hu))
  refine (Gives.onPages hread).mono ?_
  rintro _ ds' hds' rfl
  exact ⟨ts, p, hshows.mono hds'.sub, hts⟩

end Plan

end EventIndex
