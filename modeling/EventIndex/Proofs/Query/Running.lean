import EventIndex.Proofs.Cursor.Growth
import EventIndex.Proofs.Index.Serving
import EventIndex.Query.Run

/-! # Running queries

A query looks lists up and reads pages, and every look-up may write other lists out. `Gives b ds x R`
says what an action of a query comes to on any engine with the lists of `b`: it leaves the lists as
they are, and its answer is right on all disks that may come after it. The disks `ds` are those that
may come before, so that what was found earlier is still right.

The pages must not run out. `Engine.pageCount` never shrinks, so it is enough that they do not run out
by the end.

`Gives.bind` is what all queries are put together with: disks only get fewer on the way, and what was
found on more of them is right on those that are left.
-/

namespace EventIndex

open Cursor

variable {α β : Type}

/-! ## Actions of queries -/

namespace QueryAct

theorem ofAct_ok {act : Act Engine α} {e e' : Engine} {a : α} (h : act e = .ok a e') :
    ofAct act e = .ok a e' := by
  simp only [ofAct, h]

theorem after_ofAct (act : Act Engine α) (e : Engine) :
    Act.after (ofAct act) e = Act.after act e := by
  simp only [Act.after, ofAct]
  cases act e <;> rfl

theorem grows_ofAct {act : Act Engine α} (h : Act.Grows Engine.pageCount act) :
    Act.Grows Engine.pageCount (ofAct act) := by
  intro e
  rw [after_ofAct]
  exact h e

/-- The answer of one action is the input of another. -/
theorem ofAct_bind (x : Act Engine α) (f : α → Act Engine β) :
    ofAct (x >>= f) = ofAct x >>= fun a => ofAct (f a) := by
  funext e
  cases hx : x e with
  | ok a e' =>
    rw [Act.bind_ok (ofAct_ok hx)]
    simp only [ofAct, Act.bind_ok hx]
  | error err e' =>
    have hof : ofAct x e = .error (.storage err) e' := by simp only [ofAct, hx]
    rw [Act.bind_error hof]
    simp only [ofAct, Act.bind_error hx]

end QueryAct

/-! ## What an action gives -/

/-- Fewer disks, but still some. -/
structure Disks.Narrow (ds' ds : Disks) : Prop where
  nonempty : ∃ d, ds' d
  sub : ∀ d, ds' d → ds d

theorem Disks.Narrow.trans {ds ds' ds'' : Disks} (h : ds''.Narrow ds') (h' : ds'.Narrow ds) :
    ds''.Narrow ds := ⟨h.nonempty, fun d hd => h'.sub d (h.sub d hd)⟩

theorem Snapshot.LiesOnAll.narrow {v : Snapshot} {ds ds' : Disks} {chunks : List (List Tuple)}
    (h : v.LiesOnAll ds chunks) (hds : ds'.Narrow ds) : v.LiesOnAll ds' chunks :=
  ⟨hds.nonempty, fun d hd => h.lies d (hds.sub d hd)⟩

/-- A snapshot has the tuples of a list on some disks. -/
def Views (ts : List Tuple) (ds : Disks) (v : Snapshot) : Prop :=
  ∃ chunks, v.LiesOnAll ds chunks ∧ v.tuples chunks = ts

/-- A snapshot that has the tuples on some disks has them on fewer. -/
theorem Views.narrow {ts : List Tuple} {ds ds' : Disks} {v : Snapshot} (h : Views ts ds v)
    (hds : ds'.Narrow ds) : Views ts ds' v :=
  let ⟨chunks, hlies, htuples⟩ := h
  ⟨chunks, hlies.narrow hds, htuples⟩

/-- On any engine with the lists of a book, an action succeeds unless the pages run out, leaves the lists
as they are, and has an answer that is right on all disks to come. -/
def Gives (b : Book) (ds : Disks) (x : QueryAct α) (R : Disks → α → Prop) : Prop :=
  ∀ e c extra, e.recorder.Sound setShapes.length c extra → (e.recorder.ledger c).book = b →
    (∀ d, e.recorder.later setShapes.length c d → ds d) →
    (Act.after x e).pageCount ≤ maxPages →
    ∃ a e' c', x e = .ok a e' ∧ Engine.Same e e' setShapes.length c c' extra ∧
      R (e'.recorder.later setShapes.length c') a

namespace Gives

variable {b : Book} {ds : Disks} {x : QueryAct α} {f : α → QueryAct β} {R R' : Disks → α → Prop}
  {S : Disks → β → Prop} {a : α}

/-- An answer that is there already is right if it is right on fewer disks. -/
theorem pure (h : ∀ ds' : Disks, ds'.Narrow ds → R ds' a) : Gives b ds (pure a) R :=
  fun e c _ hs _ hlater _ => ⟨a, e, c, rfl, .refl hs, h _ ⟨⟨_, hs.later_self⟩, hlater⟩⟩

/-- What an answer says may be weakened. -/
theorem mono (hx : Gives b ds x R)
    (h : ∀ a (ds' : Disks), ds'.Narrow ds → R ds' a → R' ds' a) : Gives b ds x R' := by
  intro e c extra hs hbook hlater hroom
  obtain ⟨a, e', c', hrun, hsame, hR⟩ := hx e c extra hs hbook hlater hroom
  have hnarrow : Disks.Narrow (e'.recorder.later setShapes.length c') ds :=
    ⟨⟨_, hsame.step.sound.later_self⟩, fun d hd => hlater d (hsame.step.later hd)⟩
  exact ⟨a, e', c', hrun, hsame, h _ _ hnarrow hR⟩

/-- One action after another. The second finds what the first gave still right. -/
theorem bind (hx : Gives b ds x R)
    (hf : ∀ a (ds' : Disks), ds'.Narrow ds → R ds' a → Gives b ds' (f a) S)
    (hgrows : ∀ a, Act.Grows Engine.pageCount (f a)) : Gives b ds (x >>= f) S := by
  intro e c extra hs hbook hlater hroom
  obtain ⟨a, e₁, c₁, hrun₁, hsame₁, hR⟩ :=
    hx e c extra hs hbook hlater (Nat.le_trans (Act.Grows.after_le_bind hgrows e) hroom)
  have hbook₁ : (e₁.recorder.ledger c₁).book = b := by rw [hsame₁.ledger_eq, hbook]
  have hnarrow : Disks.Narrow (e₁.recorder.later setShapes.length c₁) ds :=
    ⟨⟨_, hsame₁.step.sound.later_self⟩, fun d hd => hlater d (hsame₁.step.later hd)⟩
  rw [Act.after_bind_ok hrun₁] at hroom
  obtain ⟨a₂, e₂, c₂, hrun₂, hsame₂, hS⟩ :=
    hf a _ hnarrow hR e₁ c₁ extra hsame₁.step.sound hbook₁ (fun d hd => hd) hroom
  exact ⟨a₂, e₂, c₂, (Act.bind_ok hrun₁).trans hrun₂, hsame₁.trans hsame₂, hS⟩

/-- A check that passes has its answer. -/
theorem check {r : Except QueryError α} (h : r = .ok a) :
    Gives b ds (Plan.check r) fun _ a' => a' = a := by
  rw [h]
  exact pure fun _ _ => rfl

/-- What reads from the disks to come has its answer. -/
theorem onPages {act : Act PageFile α} (h : PageFile.Reads ds act a) :
    Gives b ds (QueryAct.ofAct (Engine.onPages act)) fun _ a' => a' = a := by
  intro e c extra hs _ hlater _
  obtain ⟨e', hrun, hsame, -⟩ := Engine.onPages_spec hs h (hlater _ hs.later_self)
  exact ⟨a, e', c, QueryAct.ofAct_ok hrun, hsame, rfl⟩

/-- A cursor is moved as it moves over the disks to come. -/
theorem onOver {C : Type} {y y' : C} {act : Act (Over C) α} (h : Over.Reads ds act y a y') :
    Gives b ds (QueryAct.ofAct (Engine.onOver y act)) fun _ answer => answer = (a, y') := by
  intro e c extra hs _ hlater _
  obtain ⟨e', hrun, hsame, -⟩ := Engine.onOver_spec hs h (hlater _ hs.later_self)
  exact ⟨(a, y'), e', c, QueryAct.ofAct_ok hrun, hsame, rfl⟩

/-! ### Lists -/

/-- A list is looked up. -/
theorem lookUp {set : SetId} (hset : set < setShapes.length) (value : ValueId) :
    Gives b ds (QueryAct.ofAct (Engine.lookUp set value)) (Views (b.lists set value)) := by
  intro e c extra hs hbook _ hroom
  rw [QueryAct.after_ofAct] at hroom
  obtain ⟨view, chunks, e', c', hrun, hsame, hlies, htuples⟩ :=
    Engine.lookUp_spec hs ⟨set, hset⟩ value hroom
  exact ⟨view, e', c', QueryAct.ofAct_ok hrun, hsame, chunks, hlies, hbook ▸ htuples⟩

/-- The lists of both halves of a split key are looked up. -/
theorem lookUpHalves {set : Half → SetId} (hset : ∀ half, set half < setShapes.length)
    {key : UInt64} {even odd : ValueId} (h : SplitKey.split? key = .ok (even, odd)) :
    Gives b ds (QueryAct.ofAct (Engine.lookUpHalves set key)) fun ds' views =>
      ∃ v w, views = [v, w] ∧ Views (b.lists (set .even) even) ds' v ∧
        Views (b.lists (set .odd) odd) ds' w := by
  have hact : Engine.lookUpHalves set key = do
      let v ← Engine.lookUp (set .even) even
      let w ← Engine.lookUp (set .odd) odd
      return [v, w] := by
    unfold Engine.lookUpHalves
    rw [h]
    rfl
  rw [hact, QueryAct.ofAct_bind]
  refine (lookUp (hset .even) even).bind (fun v ds₁ _ hv => ?_) fun v => ?_
  · rw [QueryAct.ofAct_bind]
    refine (lookUp (hset .odd) odd).bind (fun w ds₂ hds₂ hw => ?_) fun w => .pure _
    exact pure fun ds₃ hds₃ => ⟨v, w, rfl, hv.narrow (hds₃.trans hds₂), hw.narrow hds₃⟩
  · exact QueryAct.grows_ofAct ((Engine.grows_lookUp _ _).bind fun _ => .pure _)

/-- The list of timestamps is there at any moment. -/
theorem getStamps :
    Gives b ds (get : QueryAct Engine) fun ds' e => Views b.stamps ds' e.stamps := by
  intro e c extra hs hbook _ _
  obtain ⟨hlies, htuples⟩ := Engine.stamps_spec hs
  exact ⟨e, e, c, rfl, .refl hs, c.stamps, hlies, hbook ▸ htuples⟩

/-- The first event at or after a time. -/
theorem eventLowerBound (time : Timestamp) :
    Gives b ds (QueryAct.ofAct (Engine.eventLowerBound time)) fun _ i =>
      i = place b.stamps time := by
  have hact : QueryAct.ofAct (Engine.eventLowerBound time) =
      (get >>= fun e => QueryAct.ofAct (Engine.onPages (e.stamps.lowerBound time))) :=
    QueryAct.ofAct_bind get _
  rw [hact]
  refine getStamps.bind (fun e ds' _ hview => ?_) fun e => ?_
  · obtain ⟨chunks, hlies, htuples⟩ := hview
    rw [← htuples]
    exact onPages (hlies.reads_lowerBound time)
  · exact QueryAct.grows_ofAct (Engine.grows_onPages (Snapshot.grows_lowerBound _ _))

end Gives

end EventIndex
