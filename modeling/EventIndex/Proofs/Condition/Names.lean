import EventIndex.Condition.Printer
import EventIndex.Proofs.Condition.Words
import Mathlib.Tactic.IntervalCases

/-! # Names — what the names in a condition mean, and how they are printed

A leaf is well formed if its role is one that conditions can name on its dimension: a behavior role on
the dimension of behaviors, an object role or an argument position on the others that carry roles.
The printed names of such a leaf are read back (`Leaf.resolveLeaf_names`), and reading makes no other
leaves (`Leaf.isWellFormed_of_resolveLeaf`). The two name spaces share the word `any`; the dimension tells
which of them it belongs to.

The tables of names are finite and are gone through entry by entry (`behaviorNames_read`,
`objectNames_read`). Argument positions are read from their digits, and for them the way goes over the
digits of a number.
-/

namespace EventIndex

open Text Condition.Grammar Condition.Reader

/-- Whether the role of a leaf is one of those that its dimension knows. -/
def Leaf.isWellFormed (l : Leaf) : Bool :=
  match l.role with
  | none => true
  | some r =>
    l.dimension.isRoleTagged &&
      if l.dimension = .behavior then 0 ≤ r.code.toInt && r.code.toInt ≤ 5
      else (-6 ≤ r.code.toInt && r.code.toInt ≤ -1) || (1 ≤ r.code.toInt && r.code.toInt ≤ 127)

/-! ## Numbers -/

/-- Numbers are printed with digits. -/
theorem isDecimalDigit_of_mem_repr {c : Char} {n : Nat} (h : c ∈ n.repr.toList) :
    isDecimalDigit c = true := by
  rw [Nat.repr_eq_ofList_toDigits, String.toList_ofList] at h
  rw [isDecimalDigit_eq_isDigit]
  exact Nat.isDigit_of_mem_toDigits (by decide) (by decide) h

/-- Every number is printed with one digit at least. -/
theorem repr_ne_nil (n : Nat) : n.repr.toList ≠ [] := by
  rw [Nat.repr_eq_ofList_toDigits, String.toList_ofList]
  exact Nat.toDigits_ne_nil

/-- The digits that a number is printed with have it as their value. -/
theorem ofDigitChars_repr (n : Nat) : Nat.ofDigitChars 10 n.repr.toList 0 = n := by
  rw [Nat.repr_eq_ofList_toDigits, String.toList_ofList]
  exact Nat.ofDigitChars_ten_toDigits

/-- A number of 64 bits is printed as digits that write it. -/
theorem digits_repr (value : UInt64) : Digits value.toNat.repr.toList value :=
  ⟨repr_ne_nil _, fun _ h => isDecimalDigit_of_mem_repr h, ofDigitChars_repr _⟩

/-- A number within the bound is read from its digits. -/
theorem unsigned?_repr {n bound : Nat} (h : n ≤ bound) :
    unsigned? bound n.repr.toList = some n := by
  have hdigits : digits? bound n.repr.toList = some n :=
    digits?_eq_some_iff.2 ⟨repr_ne_nil n, fun _ h => isDecimalDigit_of_mem_repr h,
      ofDigitChars_repr n, h⟩
  rw [unsigned?]
  · exact hdigits
  · -- no digit is a plus sign
    intro cs hplus
    have hdigit : isDecimalDigit '+' = true :=
      isDecimalDigit_of_mem_repr (hplus ▸ List.mem_cons_self)
    cases hdigit

/-! ## Dimensions -/

namespace Dimension

/-- The name of a dimension can stand in a condition. -/
theorem isName_name (d : Dimension) : IsName d.name.toList := by
  have hall : d.name.toList ≠ [] ∧ d.name.toList.all isNameChar = true := by
    cases d <;> decide +kernel
  exact ⟨hall.1, List.all_eq_true.1 hall.2⟩

/-- A dimension is known by its name. -/
theorem ofName?_name (d : Dimension) : ofName? d.name = some d := by
  cases d <;> decide +kernel

end Dimension

/-! ## Roles -/

namespace Role

/-- A role is known by its code. -/
theorem eq_ofInt (r : Role) : r = ⟨Int8.ofInt r.code.toInt⟩ := by
  rw [Int8.ofInt_toInt]

/-- Each code from 0 to 5 has the name of a behavior. -/
theorem exists_behaviorName (r : Role) (h : 0 ≤ r.code.toInt) (h' : r.code.toInt ≤ 5) :
    ∃ text, (text, r) ∈ behaviorNames := by
  rw [eq_ofInt r]
  generalize r.code.toInt = code at h h' ⊢
  interval_cases code
  all_goals simp [behaviorNames, behaviorAny, behaviorEnter, called, executed, exit, operation]

/-- Each code from -6 to -1 has a name for objects. -/
theorem exists_objectName (r : Role) (h : -6 ≤ r.code.toInt) (h' : r.code.toInt ≤ -1) :
    ∃ text, (text, r) ∈ objectNames := by
  rw [eq_ofInt r]
  generalize r.code.toInt = code at h h' ⊢
  interval_cases code
  all_goals simp [objectNames, target, value, result, exception, anyArg, any]

/-- Every entry of the two tables is a name, its role is printed with it, and it is read back. -/
theorem behaviorNames_read : ∀ entry ∈ behaviorNames,
    Leaf.roleName .behavior entry.2 = entry.1 ∧ (entry.1.toList ≠ [] ∧ entry.1.toList.all isNameChar) ∧
      Draft.resolveRole .behavior entry.1 = .ok entry.2 := by
  decide +kernel

/-- On each dimension of objects the names of the table are printed and read back. -/
theorem objectNames_read : ∀ d ∈ Dimension.all, d.isRoleTagged = true → d ≠ .behavior →
    ∀ entry ∈ objectNames,
      Leaf.roleName d entry.2 = entry.1 ∧ (entry.1.toList ≠ [] ∧ entry.1.toList.all isNameChar) ∧
        Draft.resolveRole d entry.1 = .ok entry.2 := by
  decide +kernel

/-! ### Argument positions -/

section Arguments

variable {n : Nat}

/-- The text of an argument position. -/
def argumentText (n : Nat) : String := "arg" ++ n.repr

/-- An argument's name is `arg` with the digits of its position. -/
theorem toList_argumentText (n : Nat) :
    (argumentText n).toList = 'a' :: 'r' :: 'g' :: n.repr.toList := by
  rw [argumentText, String.toList_append]
  rfl

/-- An argument's name is in small letters. -/
theorem lowerAscii_argumentText (n : Nat) :
    lowerAscii (argumentText n).toList = (argumentText n).toList := by
  rw [toList_argumentText, lowerAscii]
  have hdigits : n.repr.toList.map Char.toLower = n.repr.toList := by
    rw [List.map_congr_left (g := id), List.map_id]
    intro c hc
    exact toLower_of_isDecimalDigit (isDecimalDigit_of_mem_repr hc)
  simp only [List.map_cons, hdigits]
  rfl

/-- An argument's name can stand in a condition. -/
theorem isName_argumentText (n : Nat) : IsName (argumentText n).toList := by
  rw [toList_argumentText]
  refine ⟨List.cons_ne_nil _ _, ?_⟩
  simp only [List.forall_mem_cons]
  refine ⟨rfl, rfl, rfl, ?_⟩
  intro c hc
  exact isNameChar_of_isDecimalDigit (isDecimalDigit_of_mem_repr hc)

/-- No role of the tables has the name of an argument position. -/
theorem find?_argumentText (n : Nat) :
    (objectNames ++ behaviorNames).find?
      (fun entry => entry.1.toList = (argumentText n).toList) = none := by
  have hothers : ∀ entry ∈ objectNames ++ behaviorNames,
      entry.1.toList.take 3 ≠ ['a', 'r', 'g'] := by decide +kernel
  rw [List.find?_eq_none]
  intro entry hentry heq
  apply hothers entry hentry
  rw [of_decide_eq_true heq, toList_argumentText]
  rfl

/-- The positions from 1 to 127 are read from their names. -/
theorem ofName?_argumentText (h : 1 ≤ n) (h' : n ≤ 127) :
    ofName? (argumentText n) = some ⟨Int8.ofNat n⟩ := by
  rw [ofName?, lowerAscii_argumentText]
  simp only [find?_argumentText]
  rw [toList_argumentText, ofArgumentName?, unsigned?_repr (by omega), Option.bind_some, argument?,
    if_pos ⟨h, h'⟩]

/-- No behavior is named like an argument. -/
theorem ofBehaviorName?_argumentText (n : Nat) : ofBehaviorName? (argumentText n) = none := by
  have hnone := find?_argumentText n
  rw [List.find?_append, Option.or_eq_none_iff] at hnone
  rw [ofBehaviorName?, lowerAscii_argumentText, hnone.2]
  rfl

/-- A positive code is printed as an argument position. -/
theorem name_of_pos {r : Role} (h : 1 ≤ r.code.toInt) :
    r.name = argumentText r.code.toInt.toNat := by
  have hnone : (objectNames.find? fun entry => entry.2 = r) = none := by
    have hneg : ∀ entry ∈ objectNames, entry.2.code.toInt < 1 := by decide
    rw [List.find?_eq_none]
    intro entry hentry heq
    have hlt := hneg entry hentry
    rw [of_decide_eq_true heq] at hlt
    omega
  rw [name, hnone]
  simp only
  obtain ⟨n, hn⟩ := Int.eq_ofNat_of_zero_le (show 0 ≤ r.code.toInt by omega)
  rw [hn]
  rfl

/-- On a dimension of objects an argument's name means its position. -/
theorem resolveRole_argumentText {d : Dimension} (hd : d.isRoleTagged = true) (hb : d ≠ .behavior)
    (h : 1 ≤ n) (h' : n ≤ 127) :
    Draft.resolveRole d (argumentText n) = .ok ⟨Int8.ofNat n⟩ := by
  rw [Draft.resolveRole, lowerAscii_argumentText, String.ofList_toList]
  simp [hb, hd, ofBehaviorName?_argumentText, ofName?_argumentText h h']

end Arguments

/-! ### What names mean -/

variable {text : String} {r : Role}

/-- The names of behaviors mean codes from 0 to 5. -/
theorem code_of_ofBehaviorName? (h : ofBehaviorName? text = some r) :
    0 ≤ r.code.toInt ∧ r.code.toInt ≤ 5 := by
  obtain ⟨entry, hentry, rfl⟩ := Option.map_eq_some_iff.1 h
  have hcodes : ∀ entry ∈ behaviorNames, 0 ≤ entry.2.code.toInt ∧ entry.2.code.toInt ≤ 5 := by
    decide
  exact hcodes entry (List.mem_of_find?_eq_some hentry)

/-- The names of arguments mean codes from 1 to 127. -/
theorem code_of_ofArgumentName? {cs : List Char} (h : ofArgumentName? cs = some r) :
    1 ≤ r.code.toInt ∧ r.code.toInt ≤ 127 := by
  rw [ofArgumentName?.eq_def] at h
  split at h
  · obtain ⟨n, -, hn⟩ := Option.bind_eq_some_iff.1 h
    obtain ⟨hbounds, hr⟩ := Option.ite_none_right_eq_some.1 hn
    cases hr
    rw [← Int8.ofInt_eq_ofNat, Int8.toInt_ofInt_of_le (by omega) (by omega)]
    omega
  · cases h

/-- A name that is no behavior role means an object role or an argument position. The word `any` is
found among the object roles first. -/
theorem code_of_ofName? (h : ofName? text = some r)
    (hbehavior : text = "any" ∨ ofBehaviorName? text = none) :
    (-6 ≤ r.code.toInt ∧ r.code.toInt ≤ -1) ∨ (1 ≤ r.code.toInt ∧ r.code.toInt ≤ 127) := by
  have hcodes : ∀ entry ∈ objectNames, -6 ≤ entry.2.code.toInt ∧ entry.2.code.toInt ≤ -1 := by
    decide
  rw [ofName?] at h
  simp only [List.find?_append] at h
  cases hobject : objectNames.find? fun entry => entry.1.toList = lowerAscii text.toList with
  | some entry =>
    rw [hobject] at h
    cases h
    left
    exact hcodes entry (List.mem_of_find?_eq_some hobject)
  | none =>
    right
    obtain rfl | hnone := hbehavior
    · have hany : (objectNames.find? fun entry =>
          entry.1.toList = lowerAscii "any".toList).isSome = true := by decide +kernel
      rw [hobject] at hany
      cases hany
    · rw [hobject, Option.none_or, Option.map_eq_none_iff.1 hnone] at h
      exact code_of_ofArgumentName? h

end Role

/-! ## Leaves -/

namespace Leaf

/-- The role of a well-formed leaf is printed with a name that is read back. -/
theorem resolveRole_roleName {d : Dimension} {value : UInt64} {r : Role}
    (h : isWellFormed ⟨d, value, some r⟩ = true) :
    IsName (roleName d r).toList ∧ Draft.resolveRole d (roleName d r) = .ok r := by
  obtain ⟨htagged, hcode⟩ := Bool.and_eq_true_iff.1 h
  simp only at htagged hcode
  split at hcode
  · rename_i hd
    subst hd
    simp only [Bool.and_eq_true, decide_eq_true_eq] at hcode
    -- a behavior is found in its table
    obtain ⟨text, htext⟩ := r.exists_behaviorName hcode.1 hcode.2
    obtain ⟨hprint, ⟨hne, hall⟩, hread⟩ := Role.behaviorNames_read _ htext
    rw [hprint]
    exact ⟨⟨hne, List.all_eq_true.1 hall⟩, hread⟩
  · rename_i hd
    simp only [Bool.or_eq_true, Bool.and_eq_true, decide_eq_true_eq] at hcode
    obtain hobject | hargument := hcode
    · -- so is a role of objects
      obtain ⟨text, htext⟩ := r.exists_objectName hobject.1 hobject.2
      have hmem : d ∈ Dimension.all := by cases d <;> decide
      obtain ⟨hprint, ⟨hne, hall⟩, hread⟩ := Role.objectNames_read d hmem htagged hd _ htext
      rw [hprint]
      exact ⟨⟨hne, List.all_eq_true.1 hall⟩, hread⟩
    · -- an argument is printed as its position
      have hprint : roleName d r = Role.argumentText r.code.toInt.toNat := by
        rw [roleName, if_neg hd, Role.name_of_pos hargument.1]
      have hcast : (⟨Int8.ofNat r.code.toInt.toNat⟩ : Role) = r := by
        rw [← Int8.ofInt_eq_ofNat, Int.toNat_of_nonneg (by omega), ← r.eq_ofInt]
      rw [hprint, Role.resolveRole_argumentText htagged hd (by omega) (by omega), hcast]
      exact ⟨Role.isName_argumentText _, rfl⟩

/-- The role that a name means on a dimension is one that the dimension knows. -/
theorem isWellFormed_of_resolveRole {d : Dimension} {value : UInt64} {r : Role} {name : String}
    (h : Draft.resolveRole d name = .ok r) : isWellFormed ⟨d, value, some r⟩ = true := by
  simp only [Draft.resolveRole] at h
  apply Bool.and_eq_true_iff.2
  split at h
  · rename_i hd
    subst hd
    split at h
    · rename_i hname
      cases h
      -- on behaviors only the names of behaviors are read
      simpa [Dimension.isRoleTagged] using Role.code_of_ofBehaviorName? hname
    · cases h
  rename_i hd
  split at h
  · cases h
  rename_i htagged
  split at h
  · cases h
  rename_i hbehavior
  split at h
  · rename_i hname
    cases h
    -- on other dimensions a name of a behavior is refused, with the exception of the word both share
    have hother : String.ofList (lowerAscii name.toList) = "any" ∨
        Role.ofBehaviorName? (String.ofList (lowerAscii name.toList)) = none := by
      by_contra hneither
      obtain ⟨hany, hsome⟩ := not_or.1 hneither
      exact hbehavior ⟨hany, Option.isSome_iff_ne_none.2 hsome⟩
    simpa [hd] using ⟨by simpa using htagged, Role.code_of_ofName? hname hother⟩
  · cases h

/-- The names that a leaf is printed with mean the leaf. -/
theorem resolveLeaf_names {l : Leaf} (h : l.isWellFormed = true) :
    Draft.resolveLeaf l.dimension.name.toList l.value
      (l.role.map fun r => (roleName l.dimension r).toList) = .ok l := by
  obtain ⟨d, value, role⟩ := l
  rw [Draft.resolveLeaf, String.ofList_toList, d.ofName?_name]
  cases role with
  | none => rfl
  | some r =>
    simp only [Option.map_some, String.ofList_toList, (resolveRole_roleName h).2]

/-- A leaf that was read is well formed: its role is one that its dimension has names for. -/
theorem isWellFormed_of_resolveLeaf {dimension : List Char} {value : UInt64}
    {role : Option (List Char)} {l : Leaf}
    (h : Draft.resolveLeaf dimension value role = .ok l) : l.isWellFormed = true := by
  rw [Draft.resolveLeaf] at h
  split at h
  · cases h
  split at h
  · cases h
    rfl
  split at h
  · cases h
  · rename_i hrole
    cases h
    exact isWellFormed_of_resolveRole hrole

end Leaf

end EventIndex
