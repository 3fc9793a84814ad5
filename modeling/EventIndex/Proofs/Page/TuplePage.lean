import Mathlib.Algebra.GroupWithZero.Nat
import Mathlib.Data.List.Basic
import EventIndex.Page.TuplePage
import EventIndex.Proofs.Binary.LittleEndian
import EventIndex.Proofs.Binary.Lz4

/-! # Reading back a page of tuples

The bytes of a page give back the tuples they were made of, in whichever form its body was written, if
unpacking undoes packing for this body (`decodes_either_form`). For the packing of the index it does
(`decode_encode`).

How much room a page takes does not depend on what the packing makes of its body, which is packed only
if that makes it shorter (`length_encodeWith_le`).
-/

namespace EventIndex.TuplePage

open Binary

variable {k : Kind}

/-! ## Keys as differences -/

theorem length_stepsFrom (last : UInt64) (ts : List Tuple) :
    (stepsFrom last ts).length = ts.length := by
  induction ts generalizing last with
  | nil => rfl
  | cons t ts ih => simp [stepsFrom, ih]

/-- A tuple of a role list is made of its key and its role, one of another list of its key alone. -/
theorem tuple_of_holds {t : Tuple} (h : k.Holds t) (r : Option Role)
    (hr : k.carriesRole = true → r = some (t.role.getD Role.any)) : k.tuple t.key r = t := by
  rcases t with ⟨key, role⟩
  cases hk : k.carriesRole with
  | true =>
    have hsome : role.isSome = true := by simpa [Kind.Holds, hk] using h
    obtain ⟨r', rfl⟩ := Option.isSome_iff_exists.mp hsome
    simp [Kind.tuple, hk, hr hk]
  | false =>
    have hnone : role = none := by simpa [Kind.Holds, hk] using h
    simp [Kind.tuple, hk, hnone]

/-- The role bytes of a page. -/
theorem tuplesFrom_stepsFrom {ts : List Tuple} (h : ∀ t ∈ ts, k.Holds t) (last : UInt64)
    {roles : List Int8}
    (hroles : k.carriesRole = true → roles = ts.map fun t => (t.role.getD Role.any).code) :
    tuplesFrom k last (stepsFrom last ts) roles = ts := by
  induction ts generalizing last roles with
  | nil => rfl
  | cons t ts ih =>
    have hkey : last + (t.key - last) = t.key := by
      rw [UInt64.add_comm, UInt64.sub_add_cancel]
    have ht : k.tuple t.key (roles.head?.map Role.mk) = t := by
      refine tuple_of_holds (h t List.mem_cons_self) _ fun hk => ?_
      rw [hroles hk]
      rfl
    have hts : tuplesFrom k t.key (stepsFrom t.key ts) roles.tail = ts := by
      refine ih (fun u hu => h u (List.mem_cons_of_mem t hu)) t.key fun hk => ?_
      rw [hroles hk]
      rfl
    simp only [stepsFrom, tuplesFrom, hkey, ht, hts]

/-- A page has the tuples that it was made of. -/
theorem tuples?_ofTuples {ts : List Tuple} (h : ∀ t ∈ ts, k.Holds t) :
    (ofTuples k ts).tuples? k = .ok ts := by
  have hroles : k.carriesRole = true →
      (ofTuples k ts).roles = ts.map fun t => (t.role.getD Role.any).code :=
    fun hk => by simp [ofTuples, hk]
  have hts := tuplesFrom_stepsFrom h ((ts.head?.map Tuple.key).getD 0) hroles
  have hlen : (k.carriesRole &&
      (ofTuples k ts).roles.length != (ofTuples k ts).steps.length) = false := by
    cases hk : k.carriesRole with
    | true => simp [ofTuples, hk, length_stepsFrom]
    | false => rfl
  simp only [tuples?, hlen, Bool.false_eq_true, if_false]
  exact congrArg Except.ok hts

/-! ## Bytes -/

theorem takeWord_append (n : UInt64) (rest : List UInt8) :
    takeWord (littleEndian 8 n.toNat ++ rest) = some (n, rest) := by
  have hn : n.toNat < 256 ^ 8 := n.toNat_lt
  simp [takeWord, takeNumber_append hn]

/-- The body of a page gives the page back, if eight bytes can count what is on it. -/
theorem ofBody?_body {page : TuplePage} (hsteps : page.steps.length < 2 ^ 64)
    (hroles : page.roles.length < 2 ^ 64) : ofBody? page.body = some page := by
  have htake : takeCounted takeWord
      (counted (fun s : UInt64 => littleEndian 8 s.toNat) page.steps ++
        counted (fun r : Int8 => [r.toUInt8]) page.roles) =
      some (page.steps, counted (fun r : Int8 => [r.toUInt8]) page.roles) :=
    takeCounted_counted hsteps (fun s _ rest => takeWord_append s rest) _
  have hcodes : takeCounted takeSigned (counted (fun r : Int8 => [r.toUInt8]) page.roles) =
      some (page.roles, []) := by
    have hall : takeCounted takeSigned
        (counted (fun r : Int8 => [r.toUInt8]) page.roles ++ []) = some (page.roles, []) :=
      takeCounted_counted hroles (fun r _ rest => by simp [takeSigned]) []
    rwa [List.append_nil] at hall
  simp only [ofBody?, body, List.append_assoc, takeWord_append, htake, hcodes]

variable {pack : List UInt8 → List UInt8} {unpack? : List UInt8 → Option (List UInt8)}
  {body packed bytes : List UInt8} {ts : List Tuple} {payload : Nat}

theorem unwrap_plain (unpack? : List UInt8 → Option (List UInt8)) (body : List UInt8) :
    unwrap unpack? (plainFlag :: body) = .ok body := by
  simp [unwrap]

theorem unwrap_packed (h : unpack? packed = some body) :
    unwrap unpack? (packedFlag :: packed) = .ok body := by
  have hflag : packedFlag ≠ plainFlag := by decide
  simp only [unwrap, hflag, if_false, if_true, h]

/-- A body is wrapped in one of two forms. -/
theorem wrap_cases (pack : List UInt8 → List UInt8) (body : List UInt8) :
    wrap pack body = packedFlag :: pack body ∧ (pack body).length < body.length ∨
      wrap pack body = plainFlag :: body := by
  unfold wrap
  dsimp only
  split
  · rename_i hshorter
    exact .inl ⟨rfl, hshorter⟩
  · exact .inr rfl

/-- What was wrapped is unwrapped, packed or not. -/
theorem unwrap_wrap (h : unpack? (pack body) = some body) :
    unwrap unpack? (wrap pack body) = .ok body := by
  rcases wrap_cases pack body with ⟨hform, -⟩ | hform
  · rw [hform]
    exact unwrap_packed h
  · rw [hform]
    exact unwrap_plain unpack? body

/-- A wrapped body has one byte more at most, as it is packed only if that makes it shorter. -/
theorem length_wrap_le (pack : List UInt8 → List UInt8) (body : List UInt8) :
    (wrap pack body).length ≤ body.length + 1 := by
  rcases wrap_cases pack body with ⟨hform, hshorter⟩ | hform
  · rw [hform, List.length_cons]
    omega
  · rw [hform]
    exact Nat.le_refl _

/-- How many bytes tuples take depends on their number and their kind. -/
theorem length_body_ofTuples (k : Kind) (ts : List Tuple) :
    (ofTuples k ts).body.length + 1 = pageOverhead + k.tupleSize * ts.length := by
  have hsteps (l : List UInt64) :
      (l.flatMap fun s => littleEndian 8 s.toNat).length = 8 * l.length :=
    length_flatMap_of_length_eq fun s : UInt64 => length_littleEndian 8 s.toNat
  have hroles (l : List Int8) : (l.flatMap fun r => [r.toUInt8]).length = 1 * l.length :=
    length_flatMap_of_length_eq fun r : Int8 => List.length_singleton
  simp only [body, counted, ofTuples, List.length_append, length_littleEndian, hsteps, hroles,
    length_stepsFrom, pageOverhead, Kind.tupleSize]
  cases k.carriesRole with
  | true => simp; omega
  | false => simp; omega

/-! ## Pages -/

/-- The body of a page gives back its tuples. -/
theorem decodeWith_of_unwrap (hbody : unwrap unpack? bytes = .ok (ofTuples k ts).body)
    (h : ∀ t ∈ ts, k.Holds t) (hlen : ts.length < 2 ^ 64) : decodeWith unpack? k bytes = .ok ts := by
  have hsteps : (ofTuples k ts).steps.length < 2 ^ 64 := by
    simpa [ofTuples, length_stepsFrom] using hlen
  have hroles : (ofTuples k ts).roles.length < 2 ^ 64 := by
    cases hk : k.carriesRole <;> simp [ofTuples, hk]
    omega
  simp only [decodeWith, hbody, ofBody?_body hsteps hroles, tuples?_ofTuples h]

/-- The bytes of a page give back its tuples, as long as four bytes can count those of the body. -/
theorem decode_encode (h : ∀ t ∈ ts, k.Holds t) (hlen : (ofTuples k ts).body.length < 2 ^ 32) :
    decode k (encode k ts) = .ok ts := by
  have hcount : ts.length < 2 ^ 64 := by
    have hbody := length_body_ofTuples k ts
    have hle : ts.length ≤ k.tupleSize * ts.length :=
      Nat.le_mul_of_pos_left _ (by unfold Kind.tupleSize; split <;> decide)
    omega
  exact decodeWith_of_unwrap (unwrap_wrap (Lz4.unpack?_pack hlen)) h hcount

/-- Tuples are read back in whichever form their page was written: with their keys in any order, as many
of them as eight bytes can count, and if only this one body is found again when it is unpacked. For the
packing of the index it is, as long as four bytes can count the bytes of the body. -/
theorem decodes_either_form
    (hpack : unpack? (pack (ofTuples k ts).body) = some (ofTuples k ts).body)
    (h : ∀ t ∈ ts, k.Holds t) (hlen : ts.length < 2 ^ 64) :
    decodeWith unpack? k (encodeWith pack k ts) = .ok ts ∧
      decodeWith unpack? k (packedFlag :: pack (ofTuples k ts).body) = .ok ts ∧
      decodeWith unpack? k (plainFlag :: (ofTuples k ts).body) = .ok ts ∧
      ((ofTuples k ts).body.length < 2 ^ 32 → decode k (encode k ts) = .ok ts) :=
  ⟨decodeWith_of_unwrap (unwrap_wrap hpack) h hlen, decodeWith_of_unwrap (unwrap_packed hpack) h hlen,
    decodeWith_of_unwrap (unwrap_plain unpack? _) h hlen, decode_encode h⟩

/-- Three tuples of one event and one that goes back to an earlier one. -/
def backwards : List Tuple := List.replicate 3 (.tagged 7 .target) ++ [.tagged 3 ⟨-128⟩]

/-- They are packed when they are written, and read back. -/
theorem decodes_either_form_packed :
    (encode .role backwards)[0]? = some packedFlag ∧
      decode .role (encode .role backwards) = .ok backwards := by
  have hbody : (ofTuples .role backwards).body.length < 2 ^ 32 := by decide +kernel
  obtain ⟨-, -, -, hread⟩ := decodes_either_form (Lz4.unpack?_pack hbody)
    (by decide : ∀ t ∈ backwards, Kind.role.Holds t) (by decide)
  exact ⟨by cbv, hread hbody⟩

/-- However bodies are packed, a page takes no more room than its plain form. -/
theorem length_encodeWith_le (pack : List UInt8 → List UInt8) (k : Kind) (ts : List Tuple) :
    (encodeWith pack k ts).length ≤ pageOverhead + k.tupleSize * ts.length := by
  rw [← length_body_ofTuples]
  exact length_wrap_le pack _

/-- As many tuples as the capacity of a payload allows fit it in their plain form, whatever they are. -/
theorem plain_le_payload (hpay : pageOverhead ≤ payload) (h : ts.length ≤ k.pageCapacity payload) :
    pageOverhead + k.tupleSize * ts.length ≤ payload := by
  have hcap : k.tupleSize * ts.length ≤ payload - pageOverhead :=
    calc k.tupleSize * ts.length
        ≤ k.tupleSize * k.pageCapacity payload := Nat.mul_le_mul_left _ h
      _ ≤ payload - pageOverhead := Nat.mul_div_le _ _
  omega

end EventIndex.TuplePage
