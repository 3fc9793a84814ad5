import EventIndex.Proofs.Condition.Names
import EventIndex.Proofs.Condition.Reading

/-! # Printing conditions — the text of a condition reads back as the condition

A printed condition puts every node in parentheses. So whatever it stands in, its text is derived as a
term (`derives_text`), and the draft that the grammar derives from it has the printed names, which
mean the condition again (`resolve_toDraft`).

This is so for the well-formed conditions, whose nodes have at least two operands and whose leaves
have names. Reading makes no other conditions (`isWellFormed_of_resolve`).

Main results:

* `derives_text`: the text of a condition is derived, by induction on the condition.
* `isWellFormed_of_resolve`: what was read is well formed, by induction on the derivation.
* `parse_text_inverse`: both together, for the reader as it is.
-/

namespace EventIndex

open Text

namespace Condition

open Grammar Reader

/-! ## Well-formed conditions and their drafts -/

mutual

/-- Whether every node has at least two operands and every leaf has a role that its dimension
knows. -/
def isWellFormed : Condition → Bool
  | leaf l => l.isWellFormed
  | all operands => 2 ≤ operands.length && areWellFormed operands
  | any operands => 2 ≤ operands.length && areWellFormed operands

/-- Whether all of some conditions are well formed. -/
def areWellFormed : List Condition → Bool
  | [] => true
  | c :: cs => isWellFormed c && areWellFormed cs

end

mutual

/-- The draft of a condition, with the names that it is printed with. -/
def toDraft : Condition → Draft
  | leaf l =>
    .leaf l.dimension.name.toList l.value
      (l.role.map fun r => (Leaf.roleName l.dimension r).toList)
  | all operands => .all (toDrafts operands)
  | any operands => .any (toDrafts operands)

/-- The drafts of several conditions. -/
def toDrafts : List Condition → List Draft
  | [] => []
  | c :: cs => toDraft c :: toDrafts cs

end

mutual

/-- The printed names mean the condition. -/
theorem resolve_toDraft {c : Condition} (h : c.isWellFormed = true) : c.toDraft.resolve = .ok c := by
  match c with
  | leaf l =>
    rw [isWellFormed] at h
    rw [toDraft, Draft.resolve, Leaf.resolveLeaf_names h]
    rfl
  | all cs | any cs =>
    rw [isWellFormed, Bool.and_eq_true_iff] at h
    rw [toDraft, Draft.resolve, resolveAll_toDrafts h.2]
    rfl

/-- The printed names of several conditions mean them. -/
theorem resolveAll_toDrafts {cs : List Condition} (h : areWellFormed cs = true) :
    Draft.resolveAll (toDrafts cs) = .ok cs := by
  match cs with
  | [] => rfl
  | c :: cs =>
    rw [areWellFormed, Bool.and_eq_true_iff] at h
    rw [toDrafts, Draft.resolveAll, resolve_toDraft h.1]
    simp only [resolveAll_toDrafts h.2]

end

theorem length_toDrafts (cs : List Condition) : (toDrafts cs).length = cs.length := by
  induction cs with
  | nil => rfl
  | cons c cs ih => rw [toDrafts, List.length_cons, List.length_cons, ih]

/-! ## Printed texts are derived -/

namespace Grammar

variable {text after : List Char} {d : Draft} {ds : List Draft} {k : Connective}

/-- Several operands in parentheses make the node of their keyword. -/
theorem Operands.enclosed (h : Operands k text (')' :: after) ds) (hlength : 2 ≤ ds.length) :
    Derives .term ('(' :: (text ++ [')'])) after (k.node ds) := by
  have hblank : AllBlank [] := fun _ hc => by cases hc
  refine .enclosed hblank hblank ?_
  obtain ⟨d₁, d₂, ds, rfl⟩ : ∃ d₁ d₂ ds', ds = d₁ :: d₂ :: ds' := by
    match ds, hlength with
    | d₁ :: d₂ :: ds, _ => exact ⟨d₁, d₂, ds, rfl⟩
  cases k with
  | and => exact .single (.last (.several h))
  | or => exact .several h

end Grammar

/-- The node of a keyword. -/
def Grammar.Connective.combine : Connective → List Condition → Condition
  | .and => .all
  | .or => .any

/-- The keyword of a node as it is printed, with a blank on both sides. -/
def Grammar.Connective.separator : Connective → String
  | .and => " AND "
  | .or => " OR "

/-- A node is well formed if it has two operands at least, and they are. -/
theorem isWellFormed_combine (k : Connective) (cs : List Condition) :
    (k.combine cs).isWellFormed = true ↔ 2 ≤ cs.length ∧ areWellFormed cs = true := by
  cases k <;> simp [Connective.combine, isWellFormed]

/-- A node is printed as its operands with the keyword between them, in parentheses. -/
theorem text_combine (k : Connective) (cs : List Condition) :
    (k.combine cs).text.toList = '(' :: ((joined k.separator cs).toList ++ [')']) := by
  cases k <;> simp [Connective.combine, Connective.separator, text]

/-- The draft of a node has the drafts of its operands. -/
theorem toDraft_combine (k : Connective) (cs : List Condition) :
    (k.combine cs).toDraft = k.node (toDrafts cs) := by
  cases k <;> rfl

/-- No name goes on in a closing parenthesis. -/
theorem stops_closing (after : List Char) : Stops isNameChar (')' :: after) := by
  intro c hc
  cases hc
  rfl

/-- Between operands stands a keyword, with a blank on both sides. -/
theorem exists_separator (k : Connective) :
    ∃ word, Spells k word ∧ k.separator.toList = [' '] ++ (word ++ [' ']) := by
  cases k with
  | and => exact ⟨"AND".toList, rfl, rfl⟩
  | or => exact ⟨"OR".toList, rfl, rfl⟩

/-- The text of a leaf is derived in front of anything that does not continue its name. -/
theorem derives_leaf {l : Leaf} {after : List Char} (h : l.isWellFormed = true)
    (hafter : Stops isNameChar after) :
    Derives .term l.text.toList after (toDraft (.leaf l)) := by
  obtain ⟨d, value, role⟩ := l
  have hcompares : Compares (d.name ++ " = " ++ value.toNat.repr).toList d.name.toList value := by
    have htext : (d.name ++ " = " ++ value.toNat.repr).toList =
        d.name.toList ++ ([' '] ++ '=' :: ([' '] ++ value.toNat.repr.toList)) := by simp
    rw [htext]
    exact .intro d.isName_name allBlank_space allBlank_space (digits_repr value)
  cases role with
  | none => exact .leaf hcompares
  | some r =>
    have htext : (Leaf.text ⟨d, value, some r⟩).toList =
        (d.name ++ " = " ++ value.toNat.repr).toList ++
          ([' '] ++ ':' :: ([' '] ++ (Leaf.roleName d r).toList)) := by
      simp [Leaf.text]
    rw [htext]
    exact .roleLeaf hcompares allBlank_space allBlank_space (Leaf.resolveRole_roleName h).1 hafter

/-- The text of a node is derived if its operands' are, for it stands in parentheses. -/
theorem derives_combine {k : Connective} {cs : List Condition} {after : List Char}
    (hlength : 2 ≤ cs.length)
    (h : Operands k (joined k.separator cs).toList (')' :: after) (toDrafts cs)) :
    Derives .term (k.combine cs).text.toList after (k.combine cs).toDraft := by
  rw [text_combine, toDraft_combine]
  exact h.enclosed (by rw [length_toDrafts]; exact hlength)

mutual

/-- The text of a well-formed condition is derived as a term, in front of anything that does not
continue a name. -/
theorem derives_text {c : Condition} {after : List Char} (h : c.isWellFormed = true)
    (hafter : Stops isNameChar after) : Derives .term c.text.toList after c.toDraft := by
  match c with
  | leaf l =>
    rw [isWellFormed] at h
    exact derives_leaf h hafter
  | all cs =>
    obtain ⟨hlength, hall⟩ := (isWellFormed_combine .and cs).1 h
    exact derives_combine (k := .and) hlength (operands_joined .and hall
      (List.ne_nil_of_length_pos (by omega)) (stops_closing after))
  | any cs =>
    obtain ⟨hlength, hall⟩ := (isWellFormed_combine .or cs).1 h
    exact derives_combine (k := .or) hlength (operands_joined .or hall
      (List.ne_nil_of_length_pos (by omega)) (stops_closing after))

/-- The texts of well-formed conditions with a keyword between them are derived as operands. -/
theorem operands_joined {cs : List Condition} {after : List Char} (k : Connective)
    (h : areWellFormed cs = true) (hne : cs ≠ []) (hafter : Stops isNameChar after) :
    Operands k (joined k.separator cs).toList after (toDrafts cs) := by
  match cs with
  | [] => exact absurd rfl hne
  | [c] =>
    rw [areWellFormed, Bool.and_eq_true_iff] at h
    exact .last ((derives_text h.1 hafter).operand k)
  | c :: c' :: cs =>
    rw [areWellFormed, Bool.and_eq_true_iff] at h
    -- a first operand, the keyword with its blanks, and the others
    obtain ⟨word, hword, hseparator⟩ := exists_separator k
    have htext : (joined k.separator (c :: c' :: cs)).toList =
        c.text.toList ++ ([' '] ++ (word ++ ([' '] ++ (joined k.separator (c' :: cs)).toList))) := by
      rw [joined, String.toList_append, String.toList_append, hseparator]
      · simp
      · exact List.cons_ne_nil _ _
    rw [htext, toDrafts]
    refine .cons ((derives_text h.1 ?_).operand k) allBlank_space hword allBlank_space
      (operands_joined k h.2 (List.cons_ne_nil _ _) hafter)
    intro c hc
    cases hc
    rfl

end

/-! ## Reading makes well-formed conditions -/

section Resolving

variable {c : Condition} {cs : List Condition} {d : Draft} {ds : List Draft}

/-- The draft of a leaf can mean nothing but a leaf. -/
theorem exists_of_resolve_leaf {dimension : List Char} {value : UInt64} {role : Option (List Char)}
    (h : (Draft.leaf dimension value role).resolve = .ok c) :
    ∃ l, Draft.resolveLeaf dimension value role = .ok l ∧ c = .leaf l := by
  rw [Draft.resolve] at h
  cases hleaf : Draft.resolveLeaf dimension value role with
  | error e => rw [hleaf] at h; cases h
  | ok l =>
    rw [hleaf] at h
    cases h
    exact ⟨l, rfl, rfl⟩

/-- The draft of a node can mean nothing but a node of the same keyword. -/
theorem exists_of_resolve_node {k : Connective} (h : (k.node ds).resolve = .ok c) :
    ∃ cs, Draft.resolveAll ds = .ok cs ∧ c = k.combine cs := by
  have hmap : (Draft.resolveAll ds).map k.combine = .ok c := by
    cases k <;> exact h
  cases hall : Draft.resolveAll ds with
  | error e => rw [hall] at hmap; cases hmap
  | ok cs =>
    rw [hall] at hmap
    cases hmap
    exact ⟨cs, rfl, rfl⟩

/-- Several drafts mean what they mean one by one. -/
theorem exists_of_resolveAll_cons (h : Draft.resolveAll (d :: ds) = .ok cs) :
    ∃ c cs', d.resolve = .ok c ∧ Draft.resolveAll ds = .ok cs' ∧ cs = c :: cs' := by
  rw [Draft.resolveAll] at h
  split at h
  · cases h
  rename_i c hc
  split at h
  · cases h
  rename_i cs' hcs'
  cases h
  exact ⟨c, cs', hc, hcs', rfl⟩

end Resolving

mutual

/-- What a derived tree means is well formed: a node has several operands, and the role of a leaf is
one of its dimension. -/
theorem isWellFormed_of_resolve {r : Rank} {text after : List Char} {d : Draft} {c : Condition}
    (h : Derives r text after d) (hc : d.resolve = .ok c) : c.isWellFormed = true := by
  match h with
  | .leaf _ | .roleLeaf _ _ _ _ _ =>
    obtain ⟨l, hl, rfl⟩ := exists_of_resolve_leaf hc
    exact Leaf.isWellFormed_of_resolveLeaf hl
  | .enclosed _ _ h => exact isWellFormed_of_resolve h hc
  | .single h =>
    have hone : Draft.resolveAll [d] = .ok [c] := by
      rw [Draft.resolveAll, hc]
      rfl
    have hall := (areWellFormed_of_resolveAll h hone).1
    rw [areWellFormed, Bool.and_eq_true_iff] at hall
    exact hall.1
  | .several h =>
    obtain ⟨cs, hcs, rfl⟩ := exists_of_resolve_node hc
    obtain ⟨hall, hlength⟩ := areWellFormed_of_resolveAll h hcs
    rw [isWellFormed_combine, hlength]
    exact ⟨by simp, hall⟩

/-- What derived operands mean is well formed, and there are as many of them. -/
theorem areWellFormed_of_resolveAll {k : Connective} {text after : List Char} {ds : List Draft}
    {cs : List Condition} (h : Operands k text after ds) (hcs : Draft.resolveAll ds = .ok cs) :
    areWellFormed cs = true ∧ cs.length = ds.length := by
  match h with
  | .last h =>
    obtain ⟨c, cs', hc, hnil, rfl⟩ := exists_of_resolveAll_cons hcs
    cases hnil
    exact ⟨by simp [areWellFormed, isWellFormed_of_resolve h hc], rfl⟩
  | .cons h _ _ _ hs =>
    obtain ⟨c, cs', hc, hcs', rfl⟩ := exists_of_resolveAll_cons hcs
    obtain ⟨hall, hlength⟩ := areWellFormed_of_resolveAll hs hcs'
    refine ⟨?_, by rw [List.length_cons, List.length_cons, hlength]⟩
    rw [areWellFormed, isWellFormed_of_resolve h hc, hall]
    rfl

end

/-! ## Printing and reading -/

/-- A well-formed condition has its own names for a draft, however its text is read. -/
theorem draft_text {c : Condition} (h : c.isWellFormed = true) :
    draft c.text.toList = .ok c.toDraft := by
  have hterm : Derives .term c.text.toList [] c.toDraft :=
    derives_text h fun _ hc => by cases hc
  have hwhole : Derives (.chain .or) c.text.toList [] c.toDraft :=
    .single (.last (hterm.operand .or))
  have htrim := hwhole.trim_eq
  exact draft_ok_iff.2 (by rw [htrim]; exact hwhole)

/-- Printing and reading are inverse: every well-formed condition is read back from its text, and
reading makes no other conditions, so that printing what was read and reading it again changes
nothing.

Text that is read need not be printed text, and so the second part does not say that printing gives the
text back. -/
theorem parse_text_inverse :
    (∀ c : Condition, c.isWellFormed = true → parse c.text = .ok c) ∧
    ∀ (text : String) (c : Condition), parse text = .ok c →
      c.isWellFormed = true ∧ parse c.text = .ok c := by
  have hprinted : ∀ c : Condition, c.isWellFormed = true → parse c.text = .ok c := by
    intro c hc
    rw [parse, draft_text hc]
    exact resolve_toDraft hc
  refine ⟨hprinted, ?_⟩
  intro text c hparse
  rw [parse] at hparse
  split at hparse
  · cases hparse
  · rename_i d hdraft
    have hc := isWellFormed_of_resolve (draft_ok_iff.1 hdraft) hparse
    exact ⟨hc, hprinted c hc⟩

/-- A tree of both nodes with a behavior role, an argument position and the word that both name spaces
have. -/
theorem parse_text_inverse_nested :
    parse "((behavior = 18446744073709551615 : any OR object = 0 : any) AND variable = 7 : arg127)" =
      .ok (.all [.any [.leaf ⟨.behavior, 18446744073709551615, some .behaviorAny⟩,
        .leaf ⟨.object, 0, some .any⟩], .leaf ⟨.localVariable, 7, some ⟨127⟩⟩]) :=
  parse_text_inverse.1 (.all [.any [.leaf ⟨.behavior, 18446744073709551615, some .behaviorAny⟩,
    .leaf ⟨.object, 0, some .any⟩], .leaf ⟨.localVariable, 7, some ⟨127⟩⟩]) (by decide +kernel)

end Condition

end EventIndex
