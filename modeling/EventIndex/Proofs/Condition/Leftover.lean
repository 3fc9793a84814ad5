import EventIndex.Proofs.Condition.Reading

/-! # Leftover text — which error a text is refused with, and where

Two errors say that a text is no condition. One names the text that is left over behind a condition,
the other refuses the text from its beginning. Which one it is depends on the first term alone: a term
is read whatever comes after it, as long as no number goes on there (`Derives.read_term`), and a chain is
read up to the keyword whose operand fails.

So what stands before the leftover text is a condition of its own, and a text that begins with one is
never refused, unless it is cut off within a number (`leftover_after_condition`).

Main results:

* `Derives.read_term`: what a part begins with is read before any text.
* `refused_iff`: which texts are refused from the beginning.
* `leftover_behind`: what stands before leftover text is a condition by itself.
* `FailsAt.parse_eq`: a keyword whose operand cannot be read is left over.
-/

namespace EventIndex

open Text

namespace Condition

namespace Grammar

open Reader

variable {depth : Nat} {cs rest b text after name word : List Char} {value : UInt64}
  {k : Connective} {r : Rank} {d : Draft} {ds : List Draft}

/-! ## The same part in front of other texts -/

/-- What is not empty and stops a kind stops it before any text. -/
theorem Stops.append {p : Char → Bool} (h : Stops p cs) (hne : cs ≠ []) (rest : List Char) :
    Stops p (cs ++ rest) := by
  cases cs with
  | nil => exact absurd rfl hne
  | cons c cs => exact h

/-- What stops a kind does so by its first character. -/
theorem Stops.of_append {p : Char → Bool} (h : Stops p (cs ++ rest)) (hne : cs ≠ []) :
    Stops p cs := by
  cases cs with
  | nil => exact absurd rfl hne
  | cons c cs => exact h

/-- The blanks and the parenthesis behind a condition are the same before any text. -/
theorem Stops.closing {p : Char → Bool} (h : Stops p (b ++ ')' :: after)) (rest : List Char) :
    Stops p (b ++ ')' :: rest) := by
  have hne : b ++ [')'] ≠ [] := List.append_ne_nil_of_right_ne_nil b (List.cons_ne_nil _ _)
  have hsplit (cs : List Char) : b ++ ')' :: cs = b ++ [')'] ++ cs := by simp
  rw [hsplit] at h ⊢
  exact (h.of_append hne).append hne rest

mutual

/-- What comes after a part matters only where it could go on with the name at its end. -/
theorem Derives.in_front {r : Rank} {text after after' : List Char} {d : Draft}
    (h : Derives r text after d) (hafter : Stops isNameChar after → Stops isNameChar after') :
    Derives r text after' d := by
  match h with
  | .leaf h => exact .leaf h
  | .roleLeaf h hb hb' hrole hstops => exact .roleLeaf h hb hb' hrole (hafter hstops)
  | .enclosed hb hb' h => exact .enclosed hb hb' (h.in_front fun hstops => hstops.closing after')
  | .single h => exact .single (h.in_front hafter)
  | .several h => exact .several (h.in_front hafter)

/-- What comes after operands matters only where it could go on with the name at their end. -/
theorem Operands.in_front {k : Connective} {text after after' : List Char} {ds : List Draft}
    (h : Operands k text after ds) (hafter : Stops isNameChar after → Stops isNameChar after') :
    Operands k text after' ds := by
  match h with
  | .last h => exact .last (h.in_front hafter)
  | @Operands.cons _ text b word b' texts _ d ds h hb hword hb' hs =>
    refine .cons (h.in_front fun hstops => ?_) hb hword hb' (hs.in_front hafter)
    have hne : b ++ word ≠ [] := List.append_ne_nil_of_right_ne_nil b hword.ne_nil
    rw [← List.append_assoc] at hstops ⊢
    exact (hstops.of_append hne).append hne _

end

/-- A part that is derived anywhere is derived on its own. -/
theorem Derives.alone (h : Derives r text after d) : Derives r text [] d :=
  h.in_front fun _ => stops_nil _

/-! ## The first term -/

/-- No digit begins the text from a keyword on. -/
theorem stops_keyword (hb : AllBlank b) (hword : Spells k word) (rest : List Char) :
    Stops isDecimalDigit (b ++ (word ++ rest)) := by
  apply Grammar.stops_isDecimalDigit
  intro c hc
  rw [hb.sign_append, hword.sign_append] at hc
  cases k <;> cases hc <;> rfl

/-- Whether a text begins with a term that no digit comes after. -/
def BeginsWithTerm (text after : List Char) : Prop :=
  ∃ first more d, text = first ++ more ∧ Derives .term first (more ++ after) d ∧
    Stops isDecimalDigit more

/-- A term begins with itself. -/
theorem Derives.beginsWithTerm (h : Derives .term text after d) : BeginsWithTerm text after :=
  ⟨text, [], d, (List.append_nil text).symm, h, stops_nil _⟩

mutual

/-- A part begins with a term. -/
theorem Derives.exists_term {r : Rank} {text after : List Char} {d : Draft}
    (h : Derives r text after d) : BeginsWithTerm text after := by
  match h with
  | .leaf h => exact (Derives.leaf h).beginsWithTerm
  | .roleLeaf h hb hb' hrole hstops =>
    exact (Derives.roleLeaf h hb hb' hrole hstops).beginsWithTerm
  | .enclosed hb hb' h => exact (Derives.enclosed hb hb' h).beginsWithTerm
  | .single h => exact h.exists_term
  | .several h => exact h.exists_term

/-- Operands begin with a term. -/
theorem Operands.exists_term {k : Connective} {text after : List Char} {ds : List Draft}
    (h : Operands k text after ds) : BeginsWithTerm text after := by
  match h with
  | .last h => exact h.exists_term
  | @Operands.cons _ text b word b' texts _ d ds h hb hword hb' hs =>
    obtain ⟨first, more, d', rfl, hfirst, hstops⟩ := h.exists_term
    refine ⟨first, more ++ (b ++ (word ++ (b' ++ texts))), d', by simp, by simpa using hfirst, ?_⟩
    -- behind the term there is what was behind it, or else the keyword itself
    cases more with
    | nil => exact stops_keyword hb hword _
    | cons c more => exact hstops.append (List.cons_ne_nil c more) _

end

/-- What a leaf compares with is a number, and ends in a digit. -/
theorem Compares.ends_in_digit (h : Compares text name value) :
    ∃ c ∈ text.getLast?, isDecimalDigit c = true := by
  cases h with
  | @intro _ b b' digits _ _ _ _ hdigits =>
    have hsplit : name ++ (b ++ '=' :: (b' ++ digits)) = name ++ (b ++ '=' :: b') ++ digits := by
      simp
    rw [hsplit, List.getLast?_append_of_ne_nil _ hdigits.ne_nil,
      List.getLast?_eq_getLast_of_ne_nil hdigits.ne_nil]
    exact ⟨_, rfl, hdigits.all _ (List.getLast_mem hdigits.ne_nil)⟩

/-- A term is read whatever comes after it, if that does not go on with its number. It may be read
farther than to its end. -/
theorem Derives.read_term (h : Derives .term text after d) {after' : List Char}
    (hwhole : ¬ CutsNumber text after') (hdepth : text.length ≤ depth) :
    ∃ d' rest, Reader.term depth (text ++ after') = .ok (d', rest) := by
  match h with
  | .leaf h =>
    -- the number is not cut, so its digits end where the text does
    have hstops : Stops isDecimalDigit after' := by
      intro c hc
      by_contra hdigit
      exact hwhole ⟨h.ends_in_digit, c, hc, by simpa using hdigit⟩
    rw [term_eq_leaf (h.stops_parenthesis after'), h.leaf_append hstops]
    exact ⟨_, _, rfl⟩
  | @Derives.roleLeaf text _ _ b b' role _ h hb hb' hrole _ =>
    have hsplit : text ++ (b ++ ':' :: (b' ++ role)) ++ after' =
        text ++ (b ++ ':' :: (b' ++ (role ++ after'))) := by simp
    rw [hsplit, term_eq_leaf (h.stops_parenthesis _), h.leaf_append (stops_of_role hb)]
    exact ⟨_, _, rfl⟩
  | @Derives.enclosed text _ b b' _ hb hb' h =>
    cases depth with
    | zero => cases hdepth
    | succ depth =>
      have hinner : Derives (.chain .or) text (b' ++ ')' :: after') d :=
        h.in_front fun hstops => hstops.closing after'
      have hread := hinner.read_append depth ((Follows.closing hb' after').ends depth) (by
        simp only [List.length_cons, List.length_append] at hdepth
        omega)
      exact ⟨d, after', term_enclosed hb hb' hinner hread⟩

/-- Where a term can be read, a condition can. -/
theorem condition_ok {d : Draft} (h : Reader.term depth cs = .ok (d, rest)) :
    ∃ d' rest', conditionOf (Reader.term depth) cs = .ok (d', rest') := by
  have hchain {word : List Char} {node : List Draft → Draft} {item : List Char → Outcome Draft}
      {d : Draft} {rest : List Char} (hitem : item cs = .ok (d, rest)) :
      ∃ d' rest', Reader.chain word node item cs = .ok (d', rest') := by
    rw [Reader.chain, hitem]
    dsimp only
    split <;> exact ⟨_, _, rfl⟩
  obtain ⟨d', rest', hconjunct⟩ := hchain h
  exact hchain hconjunct

end Grammar

/-! ## White space around a text -/

/-- What is trimmed off the end is white space. -/
theorem exists_trimEnd (cs : List Char) :
    ∃ space, (∀ c ∈ space, isWhiteSpace c = true) ∧ cs = trimEnd cs ++ space := by
  refine ⟨(cs.reverse.takeWhile isWhiteSpace).reverse, fun c hc => ?_, ?_⟩
  · exact List.mem_takeWhile_imp (List.mem_reverse.1 hc)
  · rw [trimEnd, ← List.reverse_append, List.takeWhile_append_dropWhile, List.reverse_reverse]

open Grammar

variable {cs front back left : List Char}

/-- A trimmed text does not begin with white space. -/
theorem stops_trim (cs : List Char) : Stops isWhiteSpace (trim cs) := by
  obtain ⟨space, -, hsplit⟩ := exists_trimEnd (trimStart cs)
  have hstart : Stops isWhiteSpace (trimStart cs) := stops_dropWhile isWhiteSpace cs
  by_cases hnil : trim cs = []
  · rw [hnil]
    exact stops_nil _
  · rw [hsplit] at hstart
    exact hstart.of_append hnil

theorem isDecimalDigit_eq_false_of_isWhiteSpace {c : Char} (h : isWhiteSpace c = true) :
    isDecimalDigit c = false := by
  by_contra hdigit
  rw [Bool.not_eq_false] at hdigit
  rw [isWhiteSpace_eq_false_of_isNameChar (isNameChar_of_isDecimalDigit hdigit)] at h
  cases h

/-- White space at the end is trimmed off. -/
theorem trimEnd_append {space : List Char} (h : Stops isWhiteSpace cs.reverse)
    (hspace : ∀ c ∈ space, isWhiteSpace c = true) : trimEnd (cs ++ space) = cs := by
  have hall : ∀ c ∈ space.reverse, isWhiteSpace c = true :=
    fun c hc => hspace c (List.mem_reverse.1 hc)
  rw [trimEnd, List.reverse_append, h.dropWhile_append hall, List.reverse_reverse]

/-- The beginning of a trimmed text has white space at its end only. -/
theorem trim_front (h : trim cs = front ++ back) (hne : front ≠ []) : trim front = trimEnd front := by
  have hstart : Stops isWhiteSpace front := Stops.of_append (h ▸ stops_trim cs) hne
  rw [trim, trimStart, hstart.dropWhile_eq]

/-- The end of a trimmed text has white space at its beginning only. -/
theorem trim_back (h : trim cs = front ++ back) : trim back = trimStart back := by
  have hend : Stops isWhiteSpace (trimStart back).reverse := by
    by_cases hnil : trimStart back = []
    · rw [hnil]
      exact stops_nil _
    · have hsplit : trim cs = front ++ back.takeWhile isWhiteSpace ++ trimStart back := by
        rw [h, List.append_assoc, trimStart, List.takeWhile_append_dropWhile]
      have hwhole := stops_reverse_trim cs
      rw [hsplit, List.reverse_append] at hwhole
      exact hwhole.of_append (List.reverse_ne_nil_iff.2 hnil)
  rw [trim, trimEnd, hend.dropWhile_eq, List.reverse_reverse]

/-! ## Texts that are conditions by themselves -/

/-- A text whose syntax is that of a condition, whatever its names mean. -/
def Complete (cs : List Char) : Prop :=
  ∀ e, parse (String.ofList cs) = .error e → e.isSyntax = false

/-- A text has the syntax of a condition just when the grammar derives it, trimmed. -/
theorem complete_iff : Complete cs ↔ ∃ d, Derives (.chain .or) (trim cs) [] d := by
  have hlist : (String.ofList cs).toList = cs := String.toList_ofList
  rw [Complete, parse, hlist]
  constructor
  · intro h
    cases hdraft : draft cs with
    | ok d => exact ⟨d, draft_ok_iff.1 hdraft⟩
    | error e =>
      rw [hdraft] at h
      have hsyntax := h e rfl
      rw [isSyntax_of_draft hdraft] at hsyntax
      cases hsyntax
  · rintro ⟨d, hd⟩ e he
    rw [draft_ok_iff.2 hd] at he
    exact Draft.isSyntax_of_resolve he

/-- What was read of a text is a condition by itself. -/
theorem Complete.of_derives {d : Draft} (h : Derives (.chain .or) front back d) : Complete front := by
  rw [complete_iff, h.trim_eq]
  exact ⟨d, h.alone⟩

/-- A condition at the beginning of a text begins with a term that is read there. -/
theorem Complete.read_term (h : Complete front) (htext : trim cs = front ++ back) (hne : front ≠ [])
    (hwhole : ¬ CutsNumber front back) :
    ∃ d rest, Reader.term (trim cs).length (trim cs) = .ok (d, rest) := by
  obtain ⟨d, hd⟩ := complete_iff.1 h
  obtain ⟨space, hspace, hfront⟩ := exists_trimEnd front
  rw [trim_front htext hne] at hd
  obtain ⟨first, more, d', hsplit, hfirst, hmore⟩ := hd.exists_term
  have hcs : trim cs = first ++ (more ++ (space ++ back)) := by
    rw [htext, hfront, hsplit]
    simp
  -- behind the term comes more of the condition, or white space, or else the rest of the text
  have hfirstWhole : ¬ CutsNumber first (more ++ (space ++ back)) := by
    cases more with
    | cons c more => exact (hmore.append (List.cons_ne_nil c more) _).not_cutsNumber first
    | nil =>
      cases space with
      | cons c space =>
        have hstops : Stops isDecimalDigit ([] ++ (c :: space ++ back)) := by
          rintro _ ⟨⟩
          exact isDecimalDigit_eq_false_of_isWhiteSpace (hspace c List.mem_cons_self)
        exact hstops.not_cutsNumber first
      | nil =>
        rw [List.append_nil] at hfront hsplit
        rwa [← hsplit, ← hfront]
  have hlength : first.length ≤ (trim cs).length := by
    rw [hcs, List.length_append]
    exact Nat.le_add_right _ _
  have hread := hfirst.read_term hfirstWhole hlength
  rwa [← hcs] at hread

/-! ## Refusals and leftover text -/

/-- Where a condition is read, either nothing is left over or the rest is named. -/
theorem parse_of_condition {text : String} {d : Draft} {rest : List Char}
    (h : Reader.condition (trim text.toList) = .ok (d, rest)) :
    parse text = if trim rest = [] then d.resolve else .error (.leftover (trim rest)) := by
  rw [parse, draft, h]
  dsimp only
  by_cases hrest : trim rest = []
  · rw [if_pos hrest, if_pos hrest]
  · rw [if_neg hrest, if_neg hrest]

/-- Where no condition is read, the text is refused. -/
theorem parse_of_refusal {text : String} {r : Refusal}
    (h : Reader.condition (trim text.toList) = .error r) : parse text = .error (.refused r) := by
  rw [parse, draft, h]

/-- A meaning that fails is no fault of the syntax. -/
theorem resolve_ne {d : Draft} {e : QueryError} (h : e.isSyntax = true) : d.resolve ≠ .error e := by
  intro hresolve
  rw [Draft.isSyntax_of_resolve hresolve] at h
  cases h

/-- A text is refused exactly if no term can be read at its beginning. -/
theorem refused_iff_term (text : String) :
    (∃ r, parse text = .error (.refused r)) ↔
      ∃ r, Reader.term (trim text.toList).length (trim text.toList) = .error r := by
  constructor
  · rintro ⟨r, h⟩
    cases hterm : Reader.term (trim text.toList).length (trim text.toList) with
    | error r => exact ⟨r, rfl⟩
    | ok read =>
      obtain ⟨d, rest, hread⟩ := condition_ok hterm
      rw [parse_of_condition hread] at h
      split at h
      · exact absurd h (resolve_ne rfl)
      · cases h
  · rintro ⟨r, h⟩
    exact ⟨r, parse_of_refusal ((Rank.chain .or).read_error h)⟩

/-- A text is refused exactly if it does not begin with a condition, other than by cutting a number. -/
theorem refused_iff (text : String) : (∃ r, parse text = .error (.refused r)) ↔
    ∀ front back, trim text.toList = front ++ back → front ≠ [] → ¬ CutsNumber front back →
      ¬ Complete front := by
  rw [refused_iff_term]
  constructor
  · rintro ⟨r, h⟩ front back htext hne hwhole hcomplete
    obtain ⟨d, rest, hread⟩ := hcomplete.read_term htext hne hwhole
    rw [h] at hread
    cases hread
  · intro hnone
    cases hterm : Reader.term (trim text.toList).length (trim text.toList) with
    | error r => exact ⟨r, rfl⟩
    | ok read =>
      obtain ⟨d, rest, hread⟩ := condition_ok hterm
      obtain ⟨front, htext, hderived, hwhole⟩ := (Rank.chain .or).read_sound _ hread
      exact absurd (.of_derives hderived) (hnone front rest htext hderived.ne_nil hwhole)

/-- What is left over stands behind a condition, and there is something. -/
theorem leftover_behind {text : String} (h : parse text = .error (.leftover left)) :
    left ≠ [] ∧ ∃ front, trim text.toList = front ++ left ∧ Complete (trimEnd front) := by
  cases hread : Reader.condition (trim text.toList) with
  | error r =>
    rw [parse_of_refusal hread] at h
    cases h
  | ok read =>
    obtain ⟨d, rest⟩ := read
    rw [parse_of_condition hread] at h
    split at h
    · exact absurd h (resolve_ne rfl)
    rename_i hne
    cases h
    obtain ⟨front, htext, hderived, -⟩ := (Rank.chain .or).read_sound _ hread
    refine ⟨hne, front ++ rest.takeWhile isWhiteSpace, ?_, ?_⟩
    · rw [trim_back htext, trimStart, List.append_assoc, List.takeWhile_append_dropWhile]
      exact htext
    · -- the condition itself does not end in white space, only what stands behind it
      have hend : Stops isWhiteSpace front.reverse :=
        hderived.stops_reverse (fun _ => isWhiteSpace_eq_false_of_isNameChar) rfl []
      rw [trimEnd_append hend fun _ hc => List.mem_takeWhile_imp hc]
      exact .of_derives hderived

/-- A text in which a condition is followed by a keyword, and that by nothing that can be an operand;
and the part of it from the keyword on. -/
inductive FailsAt : (text left : List Char) → Prop
  | intro {k : Connective} {front b word b' rest : List Char} {d : Draft}
      (h : Derives (.chain .or) front (b ++ (word ++ (b' ++ rest))) d) (hb : AllBlank b)
      (hword : Spells k word) (hb' : AllBlank b') (hrest : Stops isBlank rest)
      (hfails : ∀ operand after d', rest = operand ++ after → ¬ CutsNumber operand after →
        ¬ Derives k.operand operand after d') :
      FailsAt (front ++ (b ++ (word ++ (b' ++ rest)))) (word ++ (b' ++ rest))

/-- Where no operand can begin, no term is read. -/
theorem exists_refusal {k : Connective} {rest : List Char} (depth : Nat)
    (hfails : ∀ operand after d, rest = operand ++ after → ¬ CutsNumber operand after →
      ¬ Derives k.operand operand after d) : ∃ r, Reader.term depth rest = .error r := by
  cases hterm : Reader.term depth rest with
  | error r => exact ⟨r, rfl⟩
  | ok read =>
    obtain ⟨operand, hsplit, hderived, hwhole⟩ := term_sound depth hterm
    exact absurd (hderived.operand k) (hfails operand _ _ hsplit hwhole)

/-- Where an operand fails, the text is left over from its keyword on. -/
theorem FailsAt.parse_eq {text : String} (h : FailsAt (trim text.toList) left) :
    parse text = .error (.leftover left) := by
  generalize htext : trim text.toList = cs at h
  cases h with
  | @intro k front b word b' rest d h hb hword hb' hrest hfails =>
    obtain ⟨r, hterm⟩ := exists_refusal (trim text.toList).length hfails
    have hends : Ends (trim text.toList).length (.chain .or) (b ++ (word ++ (b' ++ rest))) := by
      refine ⟨(Follows.keyword hb hword _).term, fun k' _ rest' hkeyword => ?_⟩
      -- at the keyword the reader goes on only for its own connective, and finds no operand there
      by_cases hk : k' = k
      · rw [hk, afterKeyword?_append hb hword hb', Reader.skipBlanks, hrest.dropWhile_eq] at hkeyword
        cases hkeyword
        exact ⟨r, hterm⟩
      · have hother : sign (b ++ (word ++ (b' ++ rest))) ≠ k'.word.head? := by
          rw [hb.sign_append, hword.sign_append]
          revert hk
          cases k <;> cases k' <;> decide
        rw [afterKeyword?_eq_none hother] at hkeyword
        cases hkeyword
    have hlength : front.length ≤ (trim text.toList).length := by
      rw [htext, List.length_append]
      exact Nat.le_add_right _ _
    have hread : Reader.condition (trim text.toList) = .ok (d, b ++ (word ++ (b' ++ rest))) := by
      have hfront := h.read_append _ hends hlength
      rwa [← htext] at hfront
    have hstart : Stops isWhiteSpace (word ++ (b' ++ rest)) :=
      hword.stops (fun _ => toLower_of_isWhiteSpace) rfl rfl _
    have htrim : trim (b ++ (word ++ (b' ++ rest))) = word ++ (b' ++ rest) := by
      rw [trim_back htext, trimStart,
        hstart.dropWhile_append fun c hc => isWhiteSpace_of_isBlank (hb c hc)]
    have hne : word ++ (b' ++ rest) ≠ [] := List.append_ne_nil_of_left_ne_nil hword.ne_nil _
    rw [parse_of_condition hread, htrim, if_neg hne]

/-- The text that an error says is left over is the end of the text, there is something of it, and what
stands before it is a condition by itself. The other error comes exactly if the text does not begin with
a condition, other than by cutting a number in two. So where an operand fails behind a condition, the
text is left over from the keyword on.

Both errors are errors of syntax. That one of them comes is a matter of the grammar; this is about which
of them it is. -/
theorem leftover_after_condition (text : String) :
    (∀ left, parse text = .error (.leftover left) →
      left ≠ [] ∧ ∃ front, trim text.toList = front ++ left ∧ Complete (trimEnd front)) ∧
    ((∃ r, parse text = .error (.refused r)) ↔
      ∀ front back, trim text.toList = front ++ back → front ≠ [] → ¬ CutsNumber front back →
        ¬ Complete front) ∧
    ∀ left, FailsAt (trim text.toList) left → parse text = .error (.leftover left) :=
  ⟨fun _ => leftover_behind, refused_iff text, fun _ => FailsAt.parse_eq⟩

/-- A keyword without an operand is left over, and so is one whose operand opens a parenthesis that
nothing closes. A number that is too large is refused, although each of its digits could be one. -/
theorem leftover_after_condition_small :
    parse "thread = 3 AND" = .error (.leftover "AND".toList) ∧
    (∃ front, trim " type=1 OR(depth=2 AND".toList = front ++ "OR(depth=2 AND".toList ∧
      Complete (trimEnd front)) ∧
    ∀ front back, trim "depth = 99999999999999999999".toList = front ++ back → front ≠ [] →
      ¬ CutsNumber front back → ¬ Complete front := by
  have hthread : Derives (.chain .or) "thread = 3".toList [] (.leaf "thread".toList 3 none) := by
    have hdraft : draft "thread = 3".toList = .ok (.leaf "thread".toList 3 none) := rfl
    exact draft_ok_iff.1 hdraft
  have hfails : FailsAt ("thread = 3".toList ++ ([' '] ++ ("AND".toList ++ ([] ++ []))))
      ("AND".toList ++ ([] ++ [])) := by
    have hand : Spells .and "AND".toList := rfl
    have hnone : AllBlank [] := fun _ hc => by cases hc
    refine .intro (hthread.in_front fun _ => ?_) allBlank_space hand hnone (stops_nil _) ?_
    · rintro _ ⟨⟩
      rfl
    · intro operand after d hsplit _ hderived
      exact hderived.ne_nil (List.append_eq_nil_iff.1 hsplit.symm).1
  refine ⟨(leftover_after_condition "thread = 3 AND").2.2 _ hfails,
    ((leftover_after_condition _).1 _ rfl).2, (leftover_after_condition _).2.1.1 ⟨_, rfl⟩⟩

end Condition

end EventIndex
