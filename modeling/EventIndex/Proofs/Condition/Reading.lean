import EventIndex.Proofs.Condition.Words

/-! # Reading conditions — the reader finds exactly what the grammar derives

The reader tries the rules of the grammar in a fixed order and takes as much as it can. Two facts make
this agree with the grammar, which knows no order:

- what the reader has read is derived, in front of what it left (`Rank.read_sound`);
- a derived part is read to its end, provided that it ends in front of what comes after it
  (`Derives.read_append`). The sign of the text behind it decides that (`Follows`), or a keyword there
  whose operand cannot be read (`Ends`), and every rule that puts one part in front of another keeps it.

So a text has a draft exactly if the grammar derives it, and no other draft than that
(`draft_ok_iff`).

* `Rank.read_sound`: what is read is derived.
* `Derives.read_append`, `Operands.read_append`: what is derived is read, by induction on the
  derivation.
* `draft_ok_iff`: the drafts of a text are those that the grammar derives from it, so there is one at
  most.
* `isSyntax_of_draft`, `isSyntax_of_resolve`: errors of syntax come from the reader, and from nothing
  behind it.
-/

namespace EventIndex

open Text

namespace Condition

namespace Grammar

open Reader

variable {depth : Nat} {cs rest b text after name word : List Char} {value : UInt64}
  {k : Connective} {r : Rank} {d : Draft} {ds : List Draft}

/-- How a part is read, with at most `depth` parentheses open at a time. -/
def Rank.read (depth : Nat) : Rank → List Char → Outcome Draft
  | .term => Reader.term depth
  | .chain .and => Reader.chain Connective.and.word Connective.and.node (Reader.term depth)
  | .chain .or => conditionOf (Reader.term depth)

/-- The rank of a connective is read as a chain of the rank below it. -/
theorem Rank.read_chain (depth : Nat) (k : Connective) :
    (Rank.chain k).read depth = Reader.chain k.word k.node (k.operand.read depth) := by
  cases k <;> rfl

/-! ## How a part begins and ends -/

/-- A leaf begins with a name, which stops each kind that has no characters of names. -/
theorem Compares.stops {p : Char → Bool} (h : Compares text name value)
    (hp : ∀ c, isNameChar c = true → p c = false) (rest : List Char) : Stops p (text ++ rest) := by
  cases h with
  | intro hname =>
    rw [List.append_assoc]
    exact stops_append hname.ne_nil hname.all hp _

mutual

/-- A part begins with the name of a dimension or a parenthesis. -/
theorem Derives.stops {p : Char → Bool} {r : Rank} {text after : List Char} {d : Draft}
    (hp : ∀ c, isNameChar c = true → p c = false) (hopen : p '(' = false)
    (h : Derives r text after d) (rest : List Char) : Stops p (text ++ rest) := by
  match h with
  | .leaf h => exact h.stops hp rest
  | .roleLeaf h _ _ _ _ =>
    rw [List.append_assoc]
    exact h.stops hp _
  | .enclosed _ _ _ =>
    intro c hc
    cases hc
    exact hopen
  | .single h => exact h.stops hp hopen rest
  | .several h => exact h.stops hp hopen rest

/-- Operands begin with a name or an opening parenthesis. -/
theorem Operands.stops {p : Char → Bool} {k : Connective} {text after : List Char}
    {ds : List Draft} (hp : ∀ c, isNameChar c = true → p c = false) (hopen : p '(' = false)
    (h : Operands k text after ds) (rest : List Char) : Stops p (text ++ rest) := by
  match h with
  | .last h => exact h.stops hp hopen rest
  | .cons h _ _ _ _ =>
    rw [List.append_assoc]
    exact h.stops hp hopen _

end

mutual

/-- A part ends with a number, the name of a role or a parenthesis. -/
theorem Derives.stops_reverse {p : Char → Bool} {r : Rank} {text after : List Char} {d : Draft}
    (hp : ∀ c, isNameChar c = true → p c = false) (hclose : p ')' = false)
    (h : Derives r text after d) (start : List Char) : Stops p (start ++ text).reverse := by
  -- the last character is a digit, one of a role's name or a closing parenthesis
  match h with
  | .leaf (@Compares.intro name b b' digits _ _ _ _ hdigits) =>
    have hsplit : (start ++ (name ++ (b ++ '=' :: (b' ++ digits)))).reverse =
        digits.reverse ++ (start ++ (name ++ (b ++ '=' :: b'))).reverse := by simp
    rw [hsplit]
    exact hdigits.isName.reverse.stops hp _
  | @Derives.roleLeaf text _ _ b b' role _ _ _ _ hrole _ =>
    have hsplit : (start ++ (text ++ (b ++ ':' :: (b' ++ role)))).reverse =
        role.reverse ++ (start ++ (text ++ (b ++ ':' :: b'))).reverse := by simp
    rw [hsplit]
    exact hrole.reverse.stops hp _
  | @Derives.enclosed text _ b b' _ _ _ _ =>
    have hsplit : (start ++ '(' :: (b ++ (text ++ (b' ++ [')'])))).reverse =
        ')' :: (start ++ '(' :: (b ++ (text ++ b'))).reverse := by simp
    rw [hsplit]
    intro c hc
    cases hc
    exact hclose
  | .single h => exact h.stops_reverse hp hclose start
  | .several h => exact h.stops_reverse hp hclose start

/-- Operands end in a digit or a name, or in a closing parenthesis. -/
theorem Operands.stops_reverse {p : Char → Bool} {k : Connective} {text after : List Char}
    {ds : List Draft} (hp : ∀ c, isNameChar c = true → p c = false) (hclose : p ')' = false)
    (h : Operands k text after ds) (start : List Char) : Stops p (start ++ text).reverse := by
  match h with
  | .last h => exact h.stops_reverse hp hclose start
  | @Operands.cons _ text b word b' texts _ _ _ _ _ _ _ hs =>
    have hsplit : start ++ (text ++ (b ++ (word ++ (b' ++ texts)))) =
        start ++ (text ++ (b ++ (word ++ b'))) ++ texts := by simp
    rw [hsplit]
    exact hs.stops_reverse hp hclose _

end

/-- What is derived does not begin with a blank. -/
theorem Derives.skipBlanks_append (h : Derives r text after d) (rest : List Char) :
    skipBlanks (text ++ rest) = text ++ rest :=
  (h.stops (fun _ => isBlank_eq_false_of_isNameChar) rfl rest).dropWhile_eq

/-- Operands do not begin with a blank. -/
theorem Operands.skipBlanks_append (h : Operands k text after ds) (rest : List Char) :
    skipBlanks (text ++ rest) = text ++ rest :=
  (h.stops (fun _ => isBlank_eq_false_of_isNameChar) rfl rest).dropWhile_eq

/-- What is derived has nothing at either end that is trimmed. -/
theorem Derives.trim_eq (h : Derives r text after d) : trim text = text := by
  apply trim_eq_self
  · have hstart := h.stops (fun _ => isWhiteSpace_eq_false_of_isNameChar) rfl []
    rwa [List.append_nil] at hstart
  · exact h.stops_reverse (fun _ => isWhiteSpace_eq_false_of_isNameChar) rfl []

/-- Nothing is derived as the empty text. -/
theorem Derives.ne_nil (h : Derives r text after d) : text ≠ [] := by
  rintro rfl
  have hblank := h.stops (fun _ => isBlank_eq_false_of_isNameChar) rfl [' ']
  cases hblank ' ' rfl

/-- A term is a chain of one, and an operand of either keyword. -/
theorem Derives.operand (h : Derives .term text after d) (k : Connective) :
    Derives k.operand text after d := by
  cases k with
  | and => exact h
  | or => exact .single (.last h)

/-! ## What is read is derived -/

/-- A reader that takes nothing but parts of a rank, and never a part of a number. -/
def Sound (r : Rank) (item : List Char → Outcome Draft) : Prop :=
  ∀ ⦃cs d rest⦄, item cs = .ok (d, rest) →
    ∃ text, cs = text ++ rest ∧ Derives r text rest d ∧ ¬ CutsNumber text rest

/-- The operands that are read behind a first one make a chain with it. -/
theorem Sound.operands {item : List Char → Outcome Draft} (hitem : Sound k.operand item)
    (fuel : Nat) {cs text rest : List Char} {d : Draft} {ds : List Draft}
    (hfirst : Derives k.operand text cs d) (hwhole : ¬ CutsNumber text cs)
    (h : Reader.operands k.word item fuel cs = (ds, rest)) :
    ∃ texts, cs = texts ++ rest ∧ Operands k (text ++ texts) rest (d :: ds) ∧
      ¬ CutsNumber (text ++ texts) rest := by
  have hlast {cs text : List Char} {d : Draft} (hfirst : Derives k.operand text cs d)
      (hwhole : ¬ CutsNumber text cs) : ∃ texts, cs = texts ++ cs ∧
        Operands k (text ++ texts) cs [d] ∧ ¬ CutsNumber (text ++ texts) cs := by
    refine ⟨[], rfl, ?_⟩
    rw [List.append_nil]
    exact ⟨.last hfirst, hwhole⟩
  induction fuel generalizing cs text d ds with
  | zero =>
    cases h
    exact hlast hfirst hwhole
  | succ fuel ih =>
    rw [Reader.operands] at h
    split at h
    · cases h
      exact hlast hfirst hwhole
    rename_i afterWord hkeyword
    split at h
    · -- a keyword whose operand cannot be read is left where it is
      cases h
      exact hlast hfirst hwhole
    rename_i d' afterItem hnext
    obtain ⟨ds', rest', hrest⟩ : ∃ ds' rest',
        Reader.operands k.word item fuel afterItem = (ds', rest') := ⟨_, _, rfl⟩
    rw [hrest] at h
    cases h
    obtain ⟨b, word, b', hb, hword, hb', rfl⟩ := exists_keyword hkeyword
    obtain ⟨text', rfl, hderived, hwhole'⟩ := hitem hnext
    obtain ⟨texts, rfl, hothers, hend⟩ := ih hderived hwhole' hrest
    refine ⟨b ++ (word ++ (b' ++ (text' ++ texts))), by simp, ?_, ?_⟩
    · exact .cons (by simpa using hfirst) hb hword hb' hothers
    · have hne : text' ++ texts ≠ [] := List.append_ne_nil_of_left_ne_nil hderived.ne_nil texts
      have hsplit : text ++ (b ++ (word ++ (b' ++ (text' ++ texts)))) =
          text ++ (b ++ (word ++ b')) ++ (text' ++ texts) := by simp
      rwa [hsplit, cutsNumber_append _ hne]

/-- A chain is sound if its operands are: it is derived from those that were read. -/
theorem Sound.chain {item : List Char → Outcome Draft} (hitem : Sound k.operand item) :
    Sound (.chain k) (Reader.chain k.word k.node item) := by
  intro cs d rest h
  rw [Reader.chain] at h
  split at h
  · cases h
  rename_i first afterFirst hfirst
  obtain ⟨text, rfl, hderived, hwhole⟩ := hitem hfirst
  split at h
  · rename_i rest' hothers
    cases h
    obtain ⟨texts, rfl, hone, hend⟩ := hitem.operands _ hderived hwhole hothers
    exact ⟨text ++ texts, by simp, .single hone, hend⟩
  · rename_i others rest' hne hothers
    cases h
    obtain ⟨texts, rfl, hseveral, hend⟩ := hitem.operands _ hderived hwhole hothers
    cases others with
    | nil => exact absurd rfl hne
    | cons d ds => exact ⟨text ++ texts, by simp, .several hseveral, hend⟩

/-- A condition is a chain of chains of terms. -/
theorem Sound.condition {item : List Char → Outcome Draft} (hitem : Sound .term item) :
    Sound (.chain .or) (conditionOf item) :=
  Sound.chain (k := .or) (Sound.chain (k := .and) hitem)

/-- What stands in parentheses is a condition, and with them a term. -/
theorem Sound.enclosed {item : List Char → Outcome Draft} (hitem : Sound (.chain .or) item)
    (h : enclosed? item cs = some (d, rest)) :
    ∃ text, cs = text ++ rest ∧ Derives .term text rest d ∧ ¬ CutsNumber text rest := by
  rw [enclosed?] at h
  split at h
  · cases h
  rename_i inner hopen
  split at h
  · cases h
  rename_i d' afterInner hread
  obtain ⟨rest', hclose, hpair⟩ := Option.map_eq_some_iff.1 h
  cases hpair
  obtain ⟨b, hb, hinner⟩ := exists_blanks inner
  obtain ⟨b', hb', hafter⟩ := exists_blanks afterInner
  obtain ⟨text, hsplit, hderived, -⟩ := hitem hread
  rw [after?_eq_some_iff.1 hclose] at hafter
  rw [hafter] at hderived hsplit
  rw [after?_eq_some_iff.1 hopen, hinner, hsplit]
  refine ⟨_, by simp, .enclosed hb hb' hderived, ?_⟩
  -- the parenthesis at the end is no digit
  have hsplit : '(' :: (b ++ (text ++ (b' ++ [')']))) = '(' :: (b ++ (text ++ b')) ++ [')'] := by
    simp
  rw [hsplit]
  rintro ⟨⟨c, hc, hdigit⟩, -⟩
  rw [List.getLast?_concat] at hc
  cases hc
  cases hdigit

/-- A term of any depth is sound, by induction on the depth: what stands in parentheses is less deep. -/
theorem term_sound (depth : Nat) : Sound .term (Reader.term depth) := by
  induction depth with
  | zero => exact fun _ _ _ h => leaf_sound h
  | succ depth ih =>
    intro cs d rest h
    rw [Reader.term] at h
    split at h
    · rename_i found hfound
      cases h
      exact ih.condition.enclosed hfound
    · exact leaf_sound h

/-- Whatever rank is read, the reader gives only what the grammar derives in front of the rest. -/
theorem Rank.read_sound (depth : Nat) (r : Rank) : Sound r (r.read depth) := by
  match r with
  | .term => exact term_sound depth
  | .chain .and => exact Sound.chain (k := .and) (term_sound depth)
  | .chain .or => exact (term_sound depth).condition

/-- What is left is no longer than the text: the reader only takes characters off its front. -/
theorem Rank.read_length (h : r.read depth cs = .ok (d, rest)) : rest.length ≤ cs.length := by
  obtain ⟨text, rfl, -, -⟩ := r.read_sound depth h
  simp

/-! ## What may follow a part -/

/-- The signs of a text that may follow a part of a rank: nothing or a closing parenthesis ends a
condition, `OR` also ends a chain with `AND`, and `AND` also ends a term. -/
def Rank.signs : Rank → List (Option Char)
  | .chain .or => [none, some ')']
  | .chain .and => [some 'o', none, some ')']
  | .term => [some 'a', some 'o', none, some ')']

/-- Whether a text may follow a part of a rank. -/
def Follows (r : Rank) (after : List Char) : Prop := sign after ∈ r.signs

/-- What may follow a chain may follow each of its operands. -/
theorem Follows.operand (h : Follows (.chain k) after) : Follows k.operand after := by
  cases k <;> exact List.mem_cons_of_mem _ h

/-- A keyword may follow any of its operands. -/
theorem Follows.keyword (hb : AllBlank b) (hword : Spells k word) (rest : List Char) :
    Follows k.operand (b ++ (word ++ rest)) := by
  rw [Follows, hb.sign_append, hword.sign_append]
  cases k <;> exact List.mem_cons_self

/-- The keyword of a chain does not follow it. -/
theorem Follows.afterKeyword? (h : Follows (.chain k) after) :
    Reader.afterKeyword? k.word after = none := by
  apply afterKeyword?_eq_none
  intro hsign
  rw [Follows, hsign] at h
  cases k <;> revert h <;> decide

/-- A closing parenthesis ends a condition. -/
theorem Follows.closing (hb : AllBlank b) (after : List Char) :
    Follows (.chain .or) (b ++ ')' :: after) := by
  rw [Follows, hb.sign_append]
  exact List.mem_cons_of_mem _ List.mem_cons_self

/-- What may follow some rank may follow a term, since every rank ends in one. -/
theorem Follows.term (h : Follows r after) : Follows .term after := by
  match r with
  | .term => exact h
  | .chain .and => exact h.operand
  | .chain .or => exact h.operand.operand

/-- No role is read from what follows a term. -/
theorem Follows.role (h : Follows .term after) : Reader.role after = (none, after) := by
  apply role_eq_none
  intro hsign
  rw [Follows, hsign] at h
  revert h
  decide

/-- No digit follows a term, so its last number is read to its end. -/
theorem Follows.stops_isDecimalDigit (h : Follows .term after) : Stops isDecimalDigit after := by
  apply Grammar.stops_isDecimalDigit
  intro c hc
  rw [Follows, Option.mem_def.1 hc] at h
  simp only [Rank.signs, List.mem_cons, Option.some.injEq, reduceCtorEq, false_or,
    List.not_mem_nil, or_false] at h
  obtain rfl | rfl | rfl := h <;> rfl

/-! ## Where a part ends -/

/-- The keywords behind which a part of a rank goes on. -/
def Rank.keywords : Rank → List Connective
  | .term => []
  | .chain .and => [.and]
  | .chain .or => [.or, .and]

/-- Whether a part of a rank ends in front of a text: no number and no role goes on there, and behind a
keyword with which the part might go on, no operand can be read. -/
structure Ends (depth : Nat) (r : Rank) (after : List Char) : Prop where
  follows : Follows .term after
  fails : ∀ k ∈ r.keywords, ∀ rest, afterKeyword? k.word after = some rest →
    ∃ e, Reader.term depth rest = .error e

/-- Where a part may be followed by a text, it ends. -/
theorem Follows.ends (h : Follows r after) (depth : Nat) : Ends depth r after := by
  refine ⟨h.term, fun k hk rest hrest => ?_⟩
  have hnone : Reader.afterKeyword? k.word after = none := by
    match r with
    | .chain .and =>
      obtain rfl := List.mem_singleton.1 hk
      exact h.afterKeyword?
    | .chain .or =>
      obtain rfl | hk := List.mem_cons.1 hk
      · exact h.afterKeyword?
      · obtain rfl := List.mem_singleton.1 hk
        exact h.operand.afterKeyword?
  rw [hnone] at hrest
  cases hrest

/-- Where a chain ends, its last operand ends. -/
theorem Ends.operand (h : Ends depth (.chain k) after) : Ends depth k.operand after :=
  ⟨h.follows, fun k' hk' => h.fails k' (by cases k <;> exact List.mem_cons_of_mem _ hk')⟩

/-- A chain fails with its first operand. -/
theorem chain_error {node : List Draft → Draft} {item : List Char → Outcome Draft} {e : Refusal}
    (h : item cs = .error e) : Reader.chain word node item cs = .error e := by
  rw [Reader.chain, h]

/-- A part fails with its first term. -/
theorem Rank.read_error {e : Refusal} (h : Reader.term depth cs = .error e) (r : Rank) :
    r.read depth cs = .error e := by
  match r with
  | .term => exact h
  | .chain .and => exact chain_error h
  | .chain .or => exact chain_error (chain_error h)

/-- A chain that ends takes no keyword. -/
theorem Ends.operands_eq (h : Ends depth (.chain k) after) (fuel : Nat) :
    operands k.word (k.operand.read depth) fuel after = ([], after) := by
  cases fuel with
  | zero => rfl
  | succ fuel =>
    rw [operands]
    cases hkeyword : afterKeyword? k.word after with
    | none => rfl
    | some rest =>
      have hk : k ∈ (Rank.chain k).keywords := by cases k <;> exact List.mem_cons_self
      obtain ⟨e, he⟩ := h.fails k hk rest hkeyword
      simp only [Rank.read_error he]

/-! ## Every derived part is read -/

/-- Where no parenthesis opens, a term is a leaf. -/
theorem term_eq_leaf (h : Stops (· = '(') cs) (depth : Nat) : Reader.term depth cs = Reader.leaf cs := by
  cases depth with
  | zero => rfl
  | succ depth =>
    have hnone : enclosed? (conditionOf (Reader.term depth)) cs = none := by
      cases cs with
      | nil => rfl
      | cons c cs =>
        have hc : c ≠ '(' := by simpa using h c rfl
        simp [enclosed?, after?, hc]
    rw [Reader.term, hnone]

/-- A leaf is not taken for an enclosed condition. -/
theorem Compares.stops_parenthesis (h : Compares text name value) (rest : List Char) :
    Stops (· = '(') (text ++ rest) := by
  apply h.stops
  intro c hc
  by_contra hopen
  have heq : c = '(' := by simpa using hopen
  subst heq
  cases hc

/-- A chain whose first operand is read goes on with the others. -/
theorem chain_eq {item : List Char → Outcome Draft} {first : Draft}
    (hfirst : item cs = .ok (first, rest))
    (hothers : operands k.word item rest.length rest = (ds, after)) :
    Reader.chain k.word k.node item cs =
      .ok (if ds = [] then first else k.node (first :: ds), after) := by
  rw [Reader.chain, hfirst]
  simp only [hothers]
  cases ds <;> rfl

/-- A condition in parentheses is read as a term. -/
theorem term_enclosed {b' : List Char} (hb : AllBlank b) (hb' : AllBlank b')
    (h : Derives (.chain .or) text (b' ++ ')' :: after) d)
    (hinner : (Rank.chain .or).read depth (text ++ (b' ++ ')' :: after)) =
      .ok (d, b' ++ ')' :: after)) :
    Reader.term (depth + 1) ('(' :: (b ++ (text ++ (b' ++ [')']))) ++ after) = .ok (d, after) := by
  have hclose : after? ')' (skipBlanks (b' ++ ')' :: after)) = some after := by
    rw [hb'.skipBlanks_append]
    rfl
  have hread : enclosed? (conditionOf (Reader.term depth))
      ('(' :: (b ++ (text ++ (b' ++ [')']))) ++ after) = some (d, after) := by
    have hopen : after? '(' ('(' :: (b ++ (text ++ (b' ++ [')']))) ++ after) =
        some (b ++ (text ++ (b' ++ ')' :: after))) := by simp [after?]
    rw [enclosed?, hopen]
    simp only [hb.skipBlanks_append, h.skipBlanks_append]
    rw [Rank.read] at hinner
    simp only [hinner, hclose, Option.map_some]
  rw [Reader.term, hread]

/-- No digit stands where a role begins. -/
theorem stops_of_role {rest : List Char} (hb : AllBlank b) :
    Stops isDecimalDigit (b ++ ':' :: rest) := by
  -- the colon's sign is its own
  apply Grammar.stops_isDecimalDigit
  intro c hc
  rw [hb.sign_append, sign_cons rfl, Option.mem_some_iff] at hc
  subst hc
  rfl

mutual

/-- A derived part is read to its end, if it ends in front of what comes after. -/
theorem Derives.read_append (depth : Nat) {r : Rank} {text after : List Char} {d : Draft}
    (h : Derives r text after d) (hends : Ends depth r after) (hdepth : text.length ≤ depth) :
    r.read depth (text ++ after) = .ok (d, after) := by
  -- the part is read whole, because nothing in what follows continues it
  match h with
  | .leaf h =>
    rw [Rank.read, term_eq_leaf (h.stops_parenthesis after),
      h.leaf_append hends.follows.stops_isDecimalDigit, hends.follows.role]
  | @Derives.roleLeaf text _ _ b b' role _ h hb hb' hrole hafter =>
    have hsplit : text ++ (b ++ ':' :: (b' ++ role)) ++ after =
        text ++ (b ++ ':' :: (b' ++ (role ++ after))) := by simp
    rw [hsplit, Rank.read, term_eq_leaf (h.stops_parenthesis _), h.leaf_append (stops_of_role hb),
      role_append hb hb' hrole hafter]
  | @Derives.enclosed text _ b b' _ hb hb' h =>
    cases depth with
    | zero => cases hdepth
    | succ depth =>
      have hinner := h.read_append depth ((Follows.closing hb' after).ends depth) (by
        simp only [List.length_cons, List.length_append] at hdepth
        omega)
      exact term_enclosed hb hb' h hinner
  | .single h =>
    obtain ⟨d, others, rest, heq, hfirst, hothers⟩ := h.read_append depth hends hdepth
    cases heq
    rw [Rank.read_chain, chain_eq hfirst (hothers _ le_rfl)]
    rfl
  | .several h =>
    obtain ⟨d, others, rest, heq, hfirst, hothers⟩ := h.read_append depth hends hdepth
    cases heq
    rw [Rank.read_chain, chain_eq hfirst (hothers _ le_rfl)]
    rfl

/-- The operands of a chain are read to the end of the last, if the chain ends in front of what comes
after. -/
theorem Operands.read_append (depth : Nat) {k : Connective} {text after : List Char}
    {ds : List Draft} (h : Operands k text after ds) (hends : Ends depth (.chain k) after)
    (hdepth : text.length ≤ depth) :
    ∃ d others rest, ds = d :: others ∧ k.operand.read depth (text ++ after) = .ok (d, rest) ∧
      ∀ fuel, rest.length ≤ fuel →
        operands k.word (k.operand.read depth) fuel rest = (others, after) := by
  match h with
  | @Operands.last _ _ _ d h =>
    exact ⟨d, [], after, rfl, h.read_append depth hends.operand hdepth,
      fun fuel _ => hends.operands_eq fuel⟩
  | @Operands.cons _ text b word b' texts _ d ds h hb hword hb' hs =>
    simp only [List.length_append] at hdepth
    have hfirst := h.read_append depth ((Follows.keyword hb hword _).ends depth) (by omega)
    -- the keyword makes the reader go on, so each round has less to read
    obtain ⟨d', others, rest, rfl, hnext, hothers⟩ :=
      hs.read_append depth hends (by omega)
    refine ⟨d, d' :: others, _, rfl, by simpa using hfirst, ?_⟩
    intro fuel hfuel
    have hshorter := Rank.read_length hnext
    have hword_pos : 0 < word.length := List.length_pos_iff.2 hword.ne_nil
    simp only [List.length_append] at hfuel hshorter
    cases fuel with
    | zero => omega
    | succ fuel =>
      rw [operands, afterKeyword?_append hb hword hb', hs.skipBlanks_append]
      simp only [hnext, hothers fuel (by omega)]

end

end Grammar

/-! ## Whole texts -/

open Grammar

/-- The draft of a text is the tree that the grammar derives from it, white space around it apart. -/
theorem draft_ok_iff {text : List Char} {d : Draft} :
    draft text = .ok d ↔ Derives (.chain .or) (trim text) [] d := by
  rw [draft]
  constructor
  · intro h
    split at h
    · cases h
    rename_i d' rest hread
    split at h
    · rename_i hrest
      cases h
      -- what is left behind the condition is blank, and the text was trimmed
      obtain ⟨part, hsplit, hderived, -⟩ := (Rank.chain .or).read_sound _ hread
      have hnil := eq_nil_of_trim_eq_append hsplit hrest
      rw [hnil, List.append_nil] at hsplit
      rw [hsplit, ← hnil]
      exact hderived
    · cases h
  · intro h
    have hread : Reader.condition (trim text) = .ok (d, []) := by
      have hends : Ends (trim text).length (.chain .or) [] :=
        Follows.ends (r := .chain .or) List.mem_cons_self _
      have hwhole := h.read_append _ hends (le_refl (trim text).length)
      rw [List.append_nil] at hwhole
      exact hwhole
    rw [hread]
    rfl

end Condition

/-! ## Errors -/

/-- Whether a query failed because its text is no condition. -/
def QueryError.isSyntax : QueryError → Bool
  | .refused _ | .leftover _ => true
  | .unknownDimension _ | .invalidRole _ | .storage _ => false

namespace Condition

/-- A text without a draft is no condition. -/
theorem isSyntax_of_draft {text : List Char} {e : QueryError} (h : draft text = .error e) :
    e.isSyntax = true := by
  rw [draft] at h
  split at h
  · cases h
    rfl
  · split at h
    · cases h
    · cases h
      rfl

end Condition

namespace Draft

/-- A role that is not known is no error of syntax. -/
theorem isSyntax_of_resolveRole {d : Dimension} {name : String} {e : QueryError}
    (h : resolveRole d name = .error e) : e.isSyntax = false := by
  simp only [resolveRole] at h
  repeat' split at h
  all_goals cases h
  all_goals rfl

/-- A leaf whose words are not known is no error of syntax. -/
theorem isSyntax_of_resolveLeaf {dimension : List Char} {value : UInt64}
    {role : Option (List Char)} {e : QueryError}
    (h : resolveLeaf dimension value role = .error e) : e.isSyntax = false := by
  rw [resolveLeaf] at h
  split at h
  · cases h
    rfl
  split at h
  · cases h
  split at h
  · rename_i hrole
    cases h
    exact isSyntax_of_resolveRole hrole
  · cases h

mutual

/-- A name without a meaning is no fault of the syntax. -/
theorem isSyntax_of_resolve {d : Draft} {e : QueryError} (h : d.resolve = .error e) :
    e.isSyntax = false := by
  match d with
  | .leaf _ _ _ =>
    rw [resolve] at h
    cases hleaf : resolveLeaf _ _ _ with
    | ok l => rw [hleaf] at h; cases h
    | error e' =>
      rw [hleaf] at h
      cases h
      exact isSyntax_of_resolveLeaf hleaf
  | .all ds | .any ds =>
    rw [resolve] at h
    cases hall : resolveAll ds with
    | ok cs => rw [hall] at h; cases h
    | error e' =>
      rw [hall] at h
      cases h
      exact isSyntax_of_resolveAll hall

/-- Operands whose words are not known are no error of syntax. -/
theorem isSyntax_of_resolveAll {ds : List Draft} {e : QueryError} (h : resolveAll ds = .error e) :
    e.isSyntax = false := by
  match ds with
  | [] => cases h
  | d :: ds =>
    rw [resolveAll] at h
    split at h
    · rename_i hd
      cases h
      exact isSyntax_of_resolve hd
    split at h
    · rename_i hds
      cases h
      exact isSyntax_of_resolveAll hds
    · cases h

end

end Draft

namespace Condition

open Grammar

/-- Reading fails with a syntax error exactly on the texts that the grammar does not derive. On the
others, the tree that the reader finds is the derived one, which is therefore the only one, and
nothing but the meaning of its names is left to settle.

The grammar is an inductive relation and knows no order in which its rules are tried. That the reader
needs no second try is what `Follows` and `Ends` are for. -/
theorem parse_accepts_grammar (text : String) :
    ((∃ d, Derives (.chain .or) (trim text.toList) [] d) ↔
      ∀ e, parse text = .error e → e.isSyntax = false) ∧
    ∀ d, Derives (.chain .or) (trim text.toList) [] d →
      draft text.toList = .ok d ∧ parse text = d.resolve := by
  have hparse : ∀ d, Derives (.chain .or) (trim text.toList) [] d →
      draft text.toList = .ok d ∧ parse text = d.resolve := by
    intro d hd
    have hdraft := draft_ok_iff.2 hd
    exact ⟨hdraft, by rw [parse, hdraft]⟩
  refine ⟨⟨?_, ?_⟩, hparse⟩
  · rintro ⟨d, hd⟩ e he
    rw [(hparse d hd).2] at he
    exact Draft.isSyntax_of_resolve he
  · intro hnone
    cases hdraft : draft text.toList with
    | ok d => exact ⟨d, draft_ok_iff.1 hdraft⟩
    | error e =>
      have hsyntax := hnone e (by rw [parse, hdraft])
      rw [isSyntax_of_draft hdraft] at hsyntax
      cases hsyntax

/-- A text with words glued together, capitals, parentheses that make no node, and a role on a
dimension that carries none. -/
theorem parse_accepts_grammar_nested :
    ∃ d, Derives (.chain .or) (trim " type=1or((Thread =2AND depth= 3:Value))\n".toList) [] d ∧
      parse " type=1or((Thread =2AND depth= 3:Value))\n" =
        .error (.invalidRole (.dimensionWithoutRoles .depth)) := by
  have hdraft : draft " type=1or((Thread =2AND depth= 3:Value))\n".toList =
      .ok (.any [.leaf "type".toList 1 none,
        .all [.leaf "Thread".toList 2 none, .leaf "depth".toList 3 (some "Value".toList)]]) := by
    rfl
  have hderived := draft_ok_iff.1 hdraft
  refine ⟨_, hderived, ?_⟩
  rw [((parse_accepts_grammar _).2 _ hderived).2]
  rfl

end Condition

end EventIndex
