import EventIndex.Cursor.Tower
import EventIndex.Proofs.Cursor.Conjunction
import EventIndex.Proofs.Cursor.Disjunction
import EventIndex.Proofs.Cursor.Distinct
import EventIndex.Proofs.Cursor.Filter
import EventIndex.Proofs.Cursor.Stored

/-! # Cursors of every shape

All layers of a tower are casings, so a tower shows what its outermost cursor shows.

Heads of one merge have to be of one type, and so towers of different heights are first raised to the
height of the tallest (`AllShow.leveled`).

Main results:

* `shows_distinct`, `shows_filtered`, `shows_widened`: the filters over a cursor of any shape.
* `reads_conjunction`, `reads_disjunction`: the merges of cursors of any shapes.
-/

namespace EventIndex

open Cursor

/-- A source over a snapshot does what the snapshot's cursor does. -/
theorem Source.casing_stored : Casing Source.stored := by
  have hrun : ∀ {α : Type} (x : Act (Over Listed) α) (y : Act (Over Stored) α),
      Wraps Source.stored y (Source.run x y) := by
    intro α x y c f
    simp only [Source.run]
    cases y ⟨c, f⟩ <;> rfl
  exact ⟨hrun _ _, hrun _ _, hrun _ _, hrun _ _, fun _ => hrun _ _, fun _ => rfl⟩

namespace Layer

variable {C D : Type} [Cursor C] [Cursor D]

/-- A layer does every operation on the cursor in it. -/
theorem casing {wrap : D → Layer C}
    (hrun : ∀ {α : Type} (act : {D : Type} → [Cursor D] → Act (Over D) α) (c : D) (f : PageFile),
      Layer.run act ⟨wrap c, f⟩ = under wrap act c f)
    (hextent : ∀ c, Cursor.extent (wrap c) = Cursor.extent c) : Casing wrap := by
  have hwrap : ∀ {α : Type} (act : {D : Type} → [Cursor D] → Act (Over D) α),
      Wraps wrap act (Layer.run act) := by
    intro α act c f
    rw [hrun act c f, under]
    cases act (⟨c, f⟩ : Over D) <;> rfl
  exact ⟨hwrap _, hwrap _, hwrap _, hwrap _, fun key => hwrap (seek key), hextent⟩

/-- A layer that adds nothing is one of the layers. -/
theorem casing_same : Casing (Layer.same (C := C)) := casing (fun _ _ _ => rfl) fun _ => rfl

theorem casing_distinct : Casing (Layer.distinct (C := C)) :=
  casing (fun _ _ _ => rfl) fun _ => rfl

theorem casing_filtered : Casing (Layer.filtered (C := C)) :=
  casing (fun _ _ _ => rfl) fun _ => rfl

theorem casing_widened : Casing (Layer.widened (C := C)) :=
  casing (fun _ _ _ => rfl) fun _ => rfl

theorem casing_conjunction : Casing (Layer.conjunction (C := C)) :=
  casing (fun _ _ _ => rfl) fun _ => rfl

theorem casing_disjunction : Casing (Layer.disjunction (C := C)) :=
  casing (fun _ _ _ => rfl) fun _ => rfl

end Layer

/-! ## Towers -/

namespace AnyCursor

variable {ds : Disks} {ts us : List Tuple} {p : Nat} {c : AnyCursor} {cs : List AnyCursor}
  {lists : List (List Tuple)}

/-- A cursor of any shape may be a cursor over a snapshot. -/
theorem shows_ofStored {c : Stored} (h : Shows ds c ts p) :
    Shows ds (ofStored c).cursor ts p :=
  show Shows ds (Source.stored c) ts p from h.cased Source.casing_stored

/-- Over a tower one may look at the first tuples of runs, from a gap between two of them. -/
theorem shows_distinct (h : Shows ds c.cursor ts p) (hbetween : Distinct.Between ts p) :
    Shows ds c.distinct.cursor (Distinct.firsts ts) (Distinct.runs ts p) :=
  (h.distinct hbetween).cased Layer.casing_distinct

/-- Over a tower one may look at the tuples with allowed roles, from any gap. -/
theorem shows_filtered (h : Shows ds c.cursor ts p) (allowed : List Role) :
    Shows ds (c.filtered allowed).cursor (ts.filter (RoleFilter.accepts allowed))
      (RoleFilter.passed allowed ts p) :=
  (h.filtered allowed).cased Layer.casing_filtered

/-- Over a tower one may look at the tuples with the role `any`. -/
theorem shows_widened (h : Shows ds c.cursor ts p) :
    Shows ds c.widened.cursor (ts.map Tuple.widen) p :=
  h.widened.cased Layer.casing_widened

/-- Layers that add nothing change nothing. -/
theorem shows_raise {n : Nat} {c : Tower n} (h : Shows ds c ts p) (k : Nat) :
    Shows ds (Tower.raise c k) ts p := by
  induction k with
  | zero => exact h
  | succ k ih => exact ih.cased Layer.casing_same

/-- How the height of a tower is written makes no difference. -/
theorem shows_cast {m n : Nat} (heq : m = n) {c : Tower m} (h : Shows ds c ts p) :
    Shows ds (heq ▸ c : Tower n) ts p := by
  subst heq
  exact h

/-- A cursor that is raised to a greater height shows what it showed. -/
theorem shows_raisedTo (h : Shows ds c.cursor ts p) {n : Nat} (hn : c.height ≤ n) :
    Shows ds (c.raisedTo n hn) ts p :=
  shows_cast (Nat.add_sub_cancel' hn) (shows_raise h (n - c.height))

/-- Cursors show some lists, wherever their gaps are. -/
def AllShow (ds : Disks) (cs : List AnyCursor) (lists : List (List Tuple)) : Prop :=
  List.Forall₂ (fun c ts => ∃ p, Shows ds c.cursor ts p) cs lists

/-- Cursors brought to one height show what they showed. -/
theorem AllShow.leveled (h : AllShow ds cs lists) : Heads.AllShow ds (leveled cs) lists := by
  have hpmap : ∀ {n : Nat} (hn : ∀ c ∈ cs, c.height ≤ n),
      Heads.AllShow ds (cs.pmap (fun c hc => c.raisedTo n hc) hn) lists := by
    intro n hn
    induction h with
    | nil => exact .nil
    | cons hc _ ih =>
      obtain ⟨p, hc⟩ := hc
      exact .cons ⟨p, shows_raisedTo hc _⟩ (ih fun c hmem => hn c (List.mem_cons_of_mem _ hmem))
  have hleveled := hpmap (n := maxHeight cs) fun c hc => height_le_maxHeight hc
  rwa [List.pmap_eq_map_attach] at hleveled

/-- The intersection of cursors shows the intersection of their lists. -/
theorem reads_conjunction (h : AllShow ds cs lists)
    (hmax : ∀ us ∈ lists, ∀ u ∈ us, u.key ≠ maxKey) (matchRoles : Bool) :
    ∃ x ts p, PageFile.Reads ds (conjunction cs matchRoles) x ∧ Shows ds x.cursor ts p ∧
      Conjunction.Intersects matchRoles lists ts := by
  obtain ⟨merged, ts, p, hrun, hmerged, hts⟩ :=
    Conjunction.reads_ofHeads h.leveled hmax matchRoles
  exact ⟨⟨maxHeight cs + 1, .conjunction merged⟩, ts, p, hrun.bind (.pure _),
    hmerged.cased Layer.casing_conjunction, hts⟩

/-- The union of cursors shows the union of their lists. -/
theorem reads_disjunction (h : AllShow ds cs lists)
    (hmax : ∀ us ∈ lists, ∀ u ∈ us, u.key ≠ maxKey) :
    ∃ x ts p, PageFile.Reads ds (disjunction cs) x ∧ Shows ds x.cursor ts p ∧
      Disjunction.Unites lists ts := by
  obtain ⟨merged, ts, p, hrun, hmerged, hts⟩ := Disjunction.reads_ofHeads h.leveled hmax
  exact ⟨⟨maxHeight cs + 1, .disjunction merged⟩, ts, p, hrun.bind (.pure _),
    hmerged.cased Layer.casing_disjunction, hts⟩

/-- A cursor of any shape does what its tower does. -/
theorem casing_mk (n : Nat) : Casing (AnyCursor.mk n) := by
  have hrun : ∀ {α : Type} (act : {D : Type} → [Cursor D] → Act (Over D) α),
      Wraps (AnyCursor.mk n) act (AnyCursor.run act) := by
    intro α act c f
    simp only [AnyCursor.run]
    cases act (⟨c, f⟩ : Over (Tower n)) <;> rfl
  exact ⟨hrun _, hrun _, hrun _, hrun _, fun key => hrun (seek key), fun _ => rfl⟩

/-- A cursor of any shape shows what its tower shows. -/
theorem shows_of_cursor (h : Shows ds c.cursor ts p) : Shows ds c ts p :=
  h.cased (casing_mk c.height)

end AnyCursor

end EventIndex
