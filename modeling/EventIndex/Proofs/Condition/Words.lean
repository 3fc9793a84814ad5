import EventIndex.Proofs.Condition.Grammar
import Mathlib.Data.List.Basic
import Mathlib.Data.List.TakeWhile
import Mathlib.Tactic.Common

/-! # Words — names, numbers, keywords and leaves as the reader takes them

The reader takes as many characters of a kind as there are. So a name is read from exactly the texts
that begin with one where no further character of a name follows (`name_ok_iff`), and a number likewise
(`number_ok_iff`). A keyword needs no such end (`afterKeyword?_append`).

Which rule goes on behind a part is told by the first character that is no blank, in small letters: its
`sign`. The two keywords, the colon of a role and the closing parenthesis all have signs of their own.

* `Stops`, `AllBlank`, `IsName`, `Digits`: the kinds of texts that the grammar is put together from.
* `name_ok_iff`, `number_ok_iff`: which texts the reader takes a name or a number from, and how much of
  them.
* `afterKeyword?_append`, `exists_keyword`, `afterKeyword?_eq_none`: when a keyword follows.
* `Compares.leaf_append`, `leaf_sound`: the reader takes a leaf from a text exactly if the grammar has
  it there.
-/

namespace EventIndex

open Text

namespace Condition

namespace Grammar

open Reader

variable {p : Char → Bool} {c : Char} {cs rest b b' text after name word : List Char}
  {value : UInt64} {k : Connective} {d : Draft}

/-! ## Characters -/

/-- No blank can stand in a name. -/
theorem isNameChar_eq_false_of_isBlank (h : isBlank c = true) : isNameChar c = false := by
  simp only [isBlank, Bool.or_eq_true, decide_eq_true_eq, or_assoc] at h
  obtain rfl | rfl | rfl | rfl := h <;> rfl

theorem isBlank_eq_false_of_isNameChar (h : isNameChar c = true) : isBlank c = false := by
  by_contra hblank
  rw [isNameChar_eq_false_of_isBlank (by simpa using hblank)] at h
  cases h

/-- No script has white space among its letters and numbers. -/
theorem isWhiteSpace_eq_false_of_isNameChar (h : isNameChar c = true) : isWhiteSpace c = false := by
  have htable : ∀ range ∈ whiteSpaceTable, ∀ i < range.2 + 1 - range.1,
      isNameChar (Char.ofNat (range.1 + i)) = false := by decide +kernel
  by_contra hwhite
  rw [Bool.not_eq_false, isWhiteSpace, inRanges, List.any_eq_true] at hwhite
  obtain ⟨range, hrange, hbounds⟩ := hwhite
  simp only [Bool.and_eq_true, decide_eq_true_eq] at hbounds
  have hfalse := htable range hrange (c.toNat - range.1) (by omega)
  rw [Nat.add_sub_cancel' hbounds.1, Char.ofNat_toNat, h] at hfalse
  cases hfalse

/-- A blank is no letter. -/
theorem toLower_of_isBlank (h : isBlank c = true) : c.toLower = c := by
  simp only [isBlank, Bool.or_eq_true, decide_eq_true_eq, or_assoc] at h
  obtain rfl | rfl | rfl | rfl := h <;> rfl

/-- Blanks are among the characters that are trimmed. -/
theorem isWhiteSpace_of_isBlank (h : isBlank c = true) : isWhiteSpace c = true := by
  simp only [isBlank, Bool.or_eq_true, decide_eq_true_eq, or_assoc] at h
  obtain rfl | rfl | rfl | rfl := h <;> rfl

/-- No white space is a capital letter. -/
theorem toLower_of_isWhiteSpace (h : isWhiteSpace c = true) : c.toLower = c := by
  have htable : ∀ range ∈ whiteSpaceTable, range.2 < 65 ∨ 90 < range.1 := by decide
  rw [isWhiteSpace, inRanges, List.any_eq_true] at h
  obtain ⟨range, hrange, hbounds⟩ := h
  simp only [Bool.and_eq_true, decide_eq_true_eq] at hbounds
  have hoff := htable range hrange
  unfold Char.toLower
  rw [dif_neg]
  rintro ⟨hfrom, hto⟩
  have hcapitalA : 65 ≤ c.toNat := UInt32.le_iff_toNat_le.1 hfrom
  have hcapitalZ : c.toNat ≤ 90 := UInt32.le_iff_toNat_le.1 hto
  omega

/-- The reader's digits are those that Lean's numerals are printed with. -/
theorem isDecimalDigit_eq_isDigit (c : Char) : isDecimalDigit c = c.isDigit := by
  rw [Bool.eq_iff_iff, Char.isDigit_iff_toNat]
  simp only [isDecimalDigit, Bool.and_eq_true, decide_eq_true_eq, Char.le_def,
    UInt32.le_iff_toNat_le]
  rfl

/-- A digit can stand in a name. -/
theorem isNameChar_of_isDecimalDigit (h : isDecimalDigit c = true) : isNameChar c = true := by
  rw [isDecimalDigit_eq_isDigit] at h
  have hascii : c.toNat < 0x80 := by
    have hle := (Char.isDigit_iff_toNat.1 h).2
    have hnine : '9'.toNat = 57 := rfl
    omega
  simp [isNameChar, isAlphanumeric, hascii, Char.isAlphanum, h]

/-- A digit is no letter. -/
theorem toLower_of_isDecimalDigit (h : isDecimalDigit c = true) : c.toLower = c := by
  simp only [isDecimalDigit, Bool.and_eq_true, decide_eq_true_eq, Char.le_def,
    UInt32.le_iff_toNat_le] at h
  unfold Char.toLower
  rw [dif_neg]
  rintro ⟨hcapital, -⟩
  have hle := UInt32.le_iff_toNat_le.1 hcapital
  have hnine : ('9' : Char).val.toNat = 57 := rfl
  have hcapitalA : ('A' : Char).val.toNat = 65 := rfl
  omega

/-! ## Runs of characters -/

theorem stops_nil (p : Char → Bool) : Stops p [] := fun _ hc => by cases hc

/-- Where a text stops a kind, nothing of that kind is dropped. -/
theorem Stops.dropWhile_eq (hstops : Stops p rest) : rest.dropWhile p = rest := by
  cases rest with
  | nil => rfl
  | cons c rest => simp [hstops c rfl]

/-- What is dropped is just the part in front of a text that stops the kind. -/
theorem Stops.dropWhile_append (hstops : Stops p rest) (h : ∀ c ∈ cs, p c = true) :
    (cs ++ rest).dropWhile p = rest := by
  rw [List.dropWhile_append_of_pos h, hstops.dropWhile_eq]

/-- What is taken is just the part in front of a text that stops the kind. -/
theorem Stops.takeWhile_append (hstops : Stops p rest) (h : ∀ c ∈ cs, p c = true) :
    (cs ++ rest).takeWhile p = cs := by
  have hsplit := List.takeWhile_append_dropWhile (p := p) (l := cs ++ rest)
  rw [hstops.dropWhile_append h] at hsplit
  exact List.append_cancel_right hsplit

/-- What is left when a kind has been dropped stops it. -/
theorem stops_dropWhile (p : Char → Bool) (cs : List Char) : Stops p (cs.dropWhile p) := by
  intro c hc
  have hnot := List.head?_dropWhile_not p cs
  rw [Option.mem_def.1 hc] at hnot
  exact hnot

theorem allBlank_space : AllBlank [' '] := by simp [AllBlank, isBlank]

/-- Blanks in front are skipped together with those behind them. -/
theorem AllBlank.skipBlanks_append (hb : AllBlank b) (cs : List Char) :
    skipBlanks (b ++ cs) = skipBlanks cs :=
  List.dropWhile_append_of_pos hb

/-- What is skipped is blank. -/
theorem exists_blanks (cs : List Char) : ∃ b, AllBlank b ∧ cs = b ++ skipBlanks cs :=
  ⟨cs.takeWhile isBlank, fun _ h => List.mem_takeWhile_imp h,
    List.takeWhile_append_dropWhile.symm⟩

/-- A nonempty text of characters of a kind begins with none of another kind. -/
theorem stops_append {q : Char → Bool} (hne : cs ≠ []) (h : ∀ c ∈ cs, q c = true)
    (hpq : ∀ c, q c = true → p c = false) (rest : List Char) : Stops p (cs ++ rest) := by
  intro c hc
  cases cs with
  | nil => exact absurd rfl hne
  | cons c' cs =>
    have heq : c' = c := by simpa using hc
    exact hpq c (h c (by simp [heq]))

/-- A name in front stops each kind that has no characters of names. -/
theorem IsName.stops (h : IsName name) (hp : ∀ c, isNameChar c = true → p c = false)
    (rest : List Char) : Stops p (name ++ rest) :=
  stops_append h.ne_nil h.all hp rest

theorem IsName.stops_isBlank (h : IsName name) (rest : List Char) :
    Stops isBlank (name ++ rest) :=
  h.stops (fun _ => isBlank_eq_false_of_isNameChar) rest

/-- A name read backwards is one, as its characters are looked at one by one. -/
theorem IsName.reverse (h : IsName name) : IsName name.reverse :=
  ⟨by simpa using h.ne_nil, fun c hc => h.all c (List.mem_reverse.1 hc)⟩

/-- The digits of a number can stand in a name. -/
theorem Digits.isName (h : Digits cs value) : IsName cs :=
  ⟨h.ne_nil, fun c hc => isNameChar_of_isDecimalDigit (h.all c hc)⟩

/-! ## Trimming -/

/-- A text that white space neither begins nor ends is left as it is. -/
theorem trim_eq_self (hstart : Stops isWhiteSpace cs) (hend : Stops isWhiteSpace cs.reverse) :
    trim cs = cs := by
  rw [trim, trimStart, hstart.dropWhile_eq, trimEnd, hend.dropWhile_eq, List.reverse_reverse]

/-- A trimmed text does not end in white space. -/
theorem stops_reverse_trim (cs : List Char) : Stops isWhiteSpace (trim cs).reverse := by
  rw [trim, trimEnd, List.reverse_reverse]
  exact stops_dropWhile _ _

/-- Nothing is left of white space alone. -/
theorem all_isWhiteSpace_of_trim (h : trim cs = []) : ∀ c ∈ cs, isWhiteSpace c = true := by
  have hall : ∀ c ∈ trimStart cs, isWhiteSpace c = true := by
    intro c hc
    exact List.dropWhile_eq_nil_iff.1 (List.reverse_eq_nil_iff.1 h) c (List.mem_reverse.2 hc)
  have hnil : trimStart cs = [] := by
    cases hstart : trimStart cs with
    | nil => rfl
    | cons c rest =>
      have hwhite := hall c (by simp [hstart])
      have hnot := stops_dropWhile isWhiteSpace cs c (by rw [← trimStart, hstart]; rfl)
      rw [hwhite] at hnot
      cases hnot
  exact List.dropWhile_eq_nil_iff.1 hnil

/-- If nothing but white space ends a trimmed text, nothing does. -/
theorem eq_nil_of_trim_eq_append (h : trim cs = text ++ rest) (hrest : trim rest = []) :
    rest = [] := by
  rw [← List.reverse_eq_nil_iff]
  cases hreverse : rest.reverse with
  | nil => rfl
  | cons c cs' =>
    have hwhite := all_isWhiteSpace_of_trim hrest c
      (List.mem_reverse.1 (hreverse ▸ List.mem_cons_self))
    have hnot := stops_reverse_trim cs c (by rw [h, List.reverse_append, hreverse]; rfl)
    rw [hwhite] at hnot
    cases hnot

/-! ## Names, numbers and single characters -/

/-- The reader takes a name from exactly the texts that begin with one, and takes all of it: no character of
a name is left in front of the rest. -/
theorem name_ok_iff :
    Reader.name cs = .ok (name, rest) ↔ cs = name ++ rest ∧ IsName name ∧ Stops isNameChar rest := by
  unfold Reader.name
  constructor
  · intro h
    split at h
    · cases h
    · rename_i hne
      cases h
      exact ⟨List.takeWhile_append_dropWhile.symm, ⟨hne, fun _ h => List.mem_takeWhile_imp h⟩,
        stops_dropWhile _ _⟩
  · rintro ⟨rfl, hname, hstops⟩
    rw [hstops.takeWhile_append hname.all, hstops.dropWhile_append hname.all,
      if_neg hname.ne_nil]

/-- Digits spell a number up to the bound if there is one at least and their value is small enough. -/
theorem digits?_eq_some_iff {bound n : Nat} : digits? bound cs = some n ↔
    cs ≠ [] ∧ (∀ c ∈ cs, isDecimalDigit c = true) ∧ Nat.ofDigitChars 10 cs 0 = n ∧ n ≤ bound := by
  simp only [digits?, Option.ite_none_right_eq_some, List.all_eq_true, Option.some_inj]
  constructor
  · rintro ⟨⟨hne, hall⟩, hle, rfl⟩
    exact ⟨hne, hall, rfl, hle⟩
  · rintro ⟨hne, hall, rfl, hle⟩
    exact ⟨⟨hne, hall⟩, hle, rfl⟩

/-- The reader takes a number from exactly the texts that begin with one, and takes all its digits. -/
theorem number_ok_iff : number cs = .ok (value, rest) ↔
    ∃ digits, cs = digits ++ rest ∧ Digits digits value ∧ Stops isDecimalDigit rest := by
  simp only [number]
  constructor
  · intro h
    split at h
    · cases h
    split at h
    · rename_i n hn
      cases h
      obtain ⟨hne, hall, hvalue, hle⟩ := digits?_eq_some_iff.1 hn
      have hlt : n < UInt64.size := lt_of_le_of_lt hle (by decide)
      refine ⟨_, List.takeWhile_append_dropWhile.symm, ⟨hne, hall, ?_⟩, stops_dropWhile _ _⟩
      rw [UInt64.toNat_ofNat_of_lt' hlt, hvalue]
    · cases h
  · rintro ⟨digits, rfl, hdigits, hstops⟩
    have hread : digits? (UInt64.size - 1) digits = some value.toNat :=
      digits?_eq_some_iff.2 ⟨hdigits.ne_nil, hdigits.all, hdigits.number_eq,
        Nat.le_sub_one_of_lt value.toNat_lt_size⟩
    rw [hstops.takeWhile_append hdigits.all, hstops.dropWhile_append hdigits.all,
      if_neg hdigits.ne_nil, hread]
    simp only [UInt64.ofNat_toNat]

theorem after?_eq_some_iff : after? c cs = some rest ↔ cs = c :: rest := by
  cases cs with
  | nil => simp [after?]
  | cons d ds => simp [after?]

/-! ## Cutting texts in two -/

/-- Two parts of a text with a digit on both sides between them. -/
def CutsNumber (front back : List Char) : Prop :=
  (∃ c ∈ front.getLast?, isDecimalDigit c = true) ∧ ∃ c ∈ back.head?, isDecimalDigit c = true

/-- No number is cut in front of a text that does not begin with a digit. -/
theorem Stops.not_cutsNumber (h : Stops isDecimalDigit rest) (text : List Char) :
    ¬ CutsNumber text rest := by
  rintro ⟨-, c, hc, hdigit⟩
  rw [h c hc] at hdigit
  cases hdigit

theorem Stops.isDecimalDigit (h : Stops isNameChar rest) : Stops isDecimalDigit rest := by
  intro c hc
  by_contra hdigit
  rw [Bool.not_eq_false] at hdigit
  have hname := h c hc
  rw [isNameChar_of_isDecimalDigit hdigit] at hname
  cases hname

/-- Only the end of the first part counts. -/
theorem cutsNumber_append (front : List Char) (hne : text ≠ []) :
    CutsNumber (front ++ text) rest ↔ CutsNumber text rest := by
  rw [CutsNumber, CutsNumber, List.getLast?_append_of_ne_nil front hne]

/-! ## Signs -/

/-- The first character that is no blank, in small letters. -/
def sign (cs : List Char) : Option Char := (skipBlanks cs).head?.map Char.toLower

/-- Blanks in front do not change the sign. -/
theorem AllBlank.sign_append (hb : AllBlank b) (cs : List Char) : sign (b ++ cs) = sign cs := by
  rw [sign, hb.skipBlanks_append, ← sign]

/-- A character that is no blank is itself the sign, in small letters. -/
theorem sign_cons (hc : isBlank c = false) (cs : List Char) : sign (c :: cs) = some c.toLower := by
  simp [sign, skipBlanks, hc]

/-- Without its sign, a character is not behind the blanks. -/
theorem after?_skipBlanks_eq_none (h : sign cs ≠ some c.toLower) :
    after? c (skipBlanks cs) = none := by
  rw [Option.eq_none_iff_forall_ne_some]
  intro rest hrest
  apply h
  rw [sign, after?_eq_some_iff.1 hrest]
  rfl

/-- A digit is its own sign. -/
theorem stops_isDecimalDigit (h : ∀ c ∈ sign cs, isDecimalDigit c = false) :
    Stops isDecimalDigit cs := by
  intro c hc
  by_contra hdigit
  rw [Bool.not_eq_false] at hdigit
  obtain ⟨rest, rfl⟩ : ∃ rest, cs = c :: rest := by
    cases cs with
    | nil => cases hc
    | cons c' rest => exact ⟨rest, by simpa using hc⟩
  have hblank := isBlank_eq_false_of_isNameChar (isNameChar_of_isDecimalDigit hdigit)
  have hsign := h c (by rw [sign_cons hblank, toLower_of_isDecimalDigit hdigit]; rfl)
  rw [hdigit] at hsign
  cases hsign

/-! ## Keywords -/

/-- A keyword is spelled with its own number of letters, large or small. -/
theorem Spells.length_eq (h : Spells k word) : word.length = k.word.length := by
  rw [← h, lowerAscii, List.length_map]

theorem Spells.ne_nil (h : Spells k word) : word ≠ [] := by
  rintro rfl
  cases k <;> cases h

/-- A keyword begins with one of two letters. -/
theorem Spells.stops (h : Spells k word) (hp : ∀ c, p c = true → c.toLower = c)
    (ha : p 'a' = false) (ho : p 'o' = false) (rest : List Char) : Stops p (word ++ rest) := by
  intro c hc
  cases word with
  | nil => exact absurd rfl h.ne_nil
  | cons c' word =>
    have heq : c' = c := by simpa using hc
    subst heq
    by_contra hkind
    rw [Bool.not_eq_false] at hkind
    have hlower : c' = 'a' ∨ c' = 'o' := by
      rw [← hp c' hkind]
      cases k <;> simp_all [Spells, lowerAscii, Connective.word]
    obtain rfl | rfl := hlower
    · rw [ha] at hkind
      cases hkind
    · rw [ho] at hkind
      cases hkind

theorem Spells.stops_isBlank (h : Spells k word) (rest : List Char) :
    Stops isBlank (word ++ rest) :=
  h.stops (fun _ => toLower_of_isBlank) rfl rfl rest

/-- The sign of a text that begins with a keyword is the keyword's first letter. -/
theorem Spells.sign_append (h : Spells k word) (rest : List Char) :
    sign (word ++ rest) = k.word.head? := by
  rw [sign, skipBlanks, (h.stops_isBlank rest).dropWhile_eq, ← h, lowerAscii, List.head?_map]
  cases word with
  | nil => exact absurd rfl h.ne_nil
  | cons c word => rfl

/-- A keyword between blanks is taken with them. -/
theorem afterKeyword?_append (hb : AllBlank b) (hword : Spells k word) (hb' : AllBlank b')
    (rest : List Char) :
    afterKeyword? k.word (b ++ (word ++ (b' ++ rest))) = some (skipBlanks rest) := by
  have hskip : skipBlanks (word ++ (b' ++ rest)) = word ++ (b' ++ rest) :=
    (hword.stops_isBlank _).dropWhile_eq
  rw [afterKeyword?, hb.skipBlanks_append, hskip, afterWord?, ← hword.length_eq,
    List.take_left, List.drop_left, if_pos (show lowerAscii word = k.word from hword),
    Option.map_some, hb'.skipBlanks_append]

/-- What is taken for a keyword is one, with the blanks around it. -/
theorem exists_keyword (h : afterKeyword? k.word cs = some rest) :
    ∃ b word b', AllBlank b ∧ Spells k word ∧ AllBlank b' ∧
      cs = b ++ (word ++ (b' ++ rest)) := by
  obtain ⟨rest', hafter, rfl⟩ := Option.map_eq_some_iff.1 h
  obtain ⟨b, hb, hcs⟩ := exists_blanks cs
  obtain ⟨b', hb', hrest'⟩ := exists_blanks rest'
  rw [afterWord?, Option.ite_none_right_eq_some] at hafter
  obtain ⟨hword, hdrop⟩ := hafter
  refine ⟨b, _, b', hb, hword, hb', ?_⟩
  rw [← hrest', ← Option.some.inj hdrop, List.take_append_drop]
  exact hcs

/-- Another sign says that the keyword does not follow. -/
theorem afterKeyword?_eq_none (h : sign cs ≠ k.word.head?) : afterKeyword? k.word cs = none := by
  rw [Option.eq_none_iff_forall_ne_some]
  intro rest hrest
  obtain ⟨b, word, b', hb, hword, -, rfl⟩ := exists_keyword hrest
  exact h (by rw [hb.sign_append, hword.sign_append])

/-! ## Leaves -/

/-- Another sign than the colon says that no role follows, and nothing is taken. -/
theorem role_eq_none (h : sign cs ≠ some ':') : Reader.role cs = (none, cs) := by
  rw [Reader.role, after?_skipBlanks_eq_none (c := ':') h]

/-- Behind a colon, with blanks on both sides of it, the role is read as far as its name goes. -/
theorem role_append {role : List Char} (hb : AllBlank b) (hb' : AllBlank b') (hrole : IsName role)
    (hafter : Stops isNameChar after) :
    Reader.role (b ++ ':' :: (b' ++ (role ++ after))) = (some role, after) := by
  have hskip : skipBlanks (b' ++ (role ++ after)) = role ++ after := by
    rw [hb'.skipBlanks_append]
    exact (hrole.stops_isBlank after).dropWhile_eq
  have hcolon : after? ':' (skipBlanks (b ++ ':' :: (b' ++ (role ++ after)))) =
      some (b' ++ (role ++ after)) := by
    rw [hb.skipBlanks_append]
    rfl
  rw [Reader.role, hcolon]
  simp only [hskip, name_ok_iff.2 ⟨rfl, hrole, hafter⟩]

/-- What a leaf begins with is a name. -/
theorem Compares.isName (h : Compares text name value) : IsName name := by
  cases h with
  | intro hname => exact hname

/-- A leaf is read with what the text behind the number says of its role. -/
theorem Compares.leaf_append (h : Compares text name value) (hafter : Stops isDecimalDigit after) :
    Reader.leaf (text ++ after) =
      .ok (.leaf name value (Reader.role after).1, (Reader.role after).2) := by
  cases h with
  | @intro _ b b' digits _ hname hb hb' hdigits =>
    have hread : Reader.name (name ++ (b ++ '=' :: (b' ++ digits)) ++ after) =
        .ok (name, b ++ '=' :: (b' ++ (digits ++ after))) := by
      refine name_ok_iff.2 ⟨by simp, hname, ?_⟩
      -- a blank or the sign of equality ends the name
      cases b with
      | nil => intro c hc; cases hc; rfl
      | cons c b =>
        intro c' hc
        cases hc
        exact isNameChar_eq_false_of_isBlank (hb c (by simp))
    have hequals : after? '=' (skipBlanks (b ++ '=' :: (b' ++ (digits ++ after)))) =
        some (b' ++ (digits ++ after)) := by
      rw [hb.skipBlanks_append]
      rfl
    have hskip : skipBlanks (b' ++ (digits ++ after)) = digits ++ after := by
      rw [hb'.skipBlanks_append]
      exact (hdigits.isName.stops_isBlank after).dropWhile_eq
    rw [Reader.leaf, hread]
    simp only [hequals, hskip, number_ok_iff.2 ⟨digits, rfl, hdigits, hafter⟩]

/-- What is read for a role is nothing, or a colon and a name. -/
theorem role_cases (cs : List Char) : Reader.role cs = (none, cs) ∨
    ∃ b b' role rest, Reader.role cs = (some role, rest) ∧
      cs = b ++ ':' :: (b' ++ role) ++ rest ∧ AllBlank b ∧ AllBlank b' ∧ IsName role ∧
      Stops isNameChar rest := by
  rw [Reader.role]
  split
  · left; rfl
  · rename_i rest hcolon
    split
    · rename_i role rest' hname
      right
      obtain ⟨b, hb, hcs⟩ := exists_blanks cs
      obtain ⟨b', hb', hrest⟩ := exists_blanks rest
      obtain ⟨hsplit, hrole, hstops⟩ := name_ok_iff.1 hname
      refine ⟨b, b', role, rest', rfl, ?_, hb, hb', hrole, hstops⟩
      rw [after?_eq_some_iff.1 hcolon, hrest, hsplit] at hcs
      simpa using hcs
    · left; rfl

/-- What is read for a leaf is derived as one, and no digit is left of its number. -/
theorem leaf_sound (h : Reader.leaf cs = .ok (d, rest)) :
    ∃ text, cs = text ++ rest ∧ Derives .term text rest d ∧ ¬ CutsNumber text rest := by
  rw [Reader.leaf] at h
  split at h
  · cases h
  rename_i name afterName hname
  split at h
  · cases h
  rename_i afterEquals hequals
  split at h
  · cases h
  rename_i value afterValue hnumber
  -- the text is a name, an equals sign and a number, with blanks between them
  obtain ⟨rfl, hname, -⟩ := name_ok_iff.1 hname
  obtain ⟨digits, hdigitsEq, hdigits, hend⟩ := number_ok_iff.1 hnumber
  obtain ⟨b, hb, hafterName⟩ := exists_blanks afterName
  obtain ⟨b', hb', hafterEquals⟩ := exists_blanks afterEquals
  rw [after?_eq_some_iff.1 hequals] at hafterName
  rw [hdigitsEq] at hafterEquals
  have hcompares : Compares (name ++ (b ++ '=' :: (b' ++ digits))) name value :=
    .intro hname hb hb' hdigits
  have hcs : name ++ afterName = name ++ (b ++ '=' :: (b' ++ digits)) ++ afterValue := by
    rw [hafterName, hafterEquals]
    simp
  rw [hcs]
  -- and a role may follow
  obtain hrole | ⟨c, c', role, rest', hrole, hsplit, hc, hc', hname', hstops⟩ :=
    role_cases afterValue
  · rw [hrole] at h
    cases h
    exact ⟨_, rfl, .leaf hcompares, hend.not_cutsNumber _⟩
  · rw [hrole] at h
    cases h
    have hend' : Stops isDecimalDigit rest := hstops.isDecimalDigit
    exact ⟨_, by rw [hsplit]; simp, .roleLeaf hcompares hc hc' hname' hstops,
      hend'.not_cutsNumber _⟩

end Grammar

end Condition

end EventIndex
