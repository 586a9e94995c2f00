import AttestedKey.Der.Encode
import AttestedKey.Der.Header
import AttestedKey.Proofs.Octets
import AttestedKey.Proofs.Outcome
import Mathlib.Data.Nat.Digits.Lemmas

/-!
# The one form of identifiers and lengths

Reading at a cursor takes some octets and leaves the cursor behind them; `Cursor.Advances` says
which octets were taken.  Both header readers accept exactly what the header writers produce:
`Tag.read_eq_ok_iff` for identifiers whose number is below `2 ^ 28`, and `Length.read_eq_ok_iff`
for lengths below `2 ^ 32`.  The digits are those of `Nat.digits`, most significant first.
-/

namespace AttestedKey.Der

open Outcome

namespace Cursor

/-- One cursor stands behind some octets that the other one sees first. -/
structure Advances (c : Cursor) (taken : Octets) (after : Cursor) : Prop where
  /-- The octets stand at the first cursor, and what follows them at the second. -/
  bytes : c.bytes = taken ++ after.bytes
  /-- The second cursor is as much further as there are octets. -/
  offset : after.offset = c.offset + taken.length
  /-- Both regions have the same end. -/
  missing : after.missing = c.missing

namespace Advances

variable {c c' c'' : Cursor} {a b : Octets}

/-- One stretch of octets and then another one are both passed. -/
lemma trans (h : Advances c a c') (h' : Advances c' b c'') : Advances c (a ++ b) c'' where
  bytes := by rw [h.bytes, h'.bytes, List.append_assoc]
  offset := by rw [h'.offset, h.offset, List.length_append, Nat.add_assoc]
  missing := by rw [h'.missing, h.missing]

/-- What was taken in two parts was taken part by part. -/
lemma split (h : Advances c (a ++ b) c'') :
    Advances c a ⟨c.offset + a.length, b ++ c''.bytes, c.missing⟩ ∧
      Advances ⟨c.offset + a.length, b ++ c''.bytes, c.missing⟩ b c'' := by
  refine ⟨⟨?_, rfl, rfl⟩, ⟨rfl, ?_, h.missing⟩⟩
  · rw [h.bytes, List.append_assoc]
  · rw [h.offset, List.length_append, Nat.add_assoc]

/-- The octets taken determine where the cursor stands behind them. -/
lemma unique (h : Advances c a c') (h' : Advances c a c'') : c' = c'' := by
  have hbytes : c'.bytes = c''.bytes := List.append_cancel_left (h.bytes.symm.trans h'.bytes)
  have hoffset := h.offset.trans h'.offset.symm
  have hmissing := h.missing.trans h'.missing.symm
  cases c'
  cases c''
  simp_all

/-- Some octets in front of others are what is taken at their first place. -/
lemma ofAppend (o : ℕ) (a rest : Octets) (m : ℕ) :
    Advances ⟨o, a ++ rest, m⟩ a ⟨o + a.length, rest, m⟩ :=
  ⟨rfl, rfl, rfl⟩

end Advances

/-- Taking a byte takes just that byte. -/
lemma byte_eq_ok_iff {c c' : Cursor} {offset : ℕ} {cause : Malformation} {x : UInt8} :
    c.byte offset cause = .ok (x, c') ↔ Advances c [x] c' := by
  rcases c with ⟨o, _ | ⟨y, rest⟩, m⟩
  · have hno : ¬ Advances ⟨o, [], m⟩ [x] c' := fun h => by simpa using h.bytes
    simp only [Cursor.byte, byte?, hno, iff_false]
    split <;> simp [malformedAt]
  · simp only [Cursor.byte, byte?, ok_bind, pure_eq_ok, Except.ok.injEq, Prod.mk.injEq]
    constructor
    · rintro ⟨rfl, rfl⟩
      exact ⟨rfl, rfl, rfl⟩
    · intro h
      obtain ⟨hy, -⟩ := List.cons.inj h.bytes
      subst hy
      exact ⟨rfl, Advances.unique (Advances.ofAppend o [y] rest m) h⟩

/-- A byte is taken from a region that begins with it. -/
lemma byte_of_advances {c c' : Cursor} {x : UInt8} (offset : ℕ) (cause : Malformation)
    (h : Advances c [x] c') : c.byte offset cause = .ok (x, c') :=
  byte_eq_ok_iff.mpr h

/-- In a region whose bytes are all there, a run has as many bytes as were asked for. -/
lemma split?_eq_some_iff {c c' : Cursor} (hc : c.missing = 0) {count : ℕ} {a : Octets} :
    c.split? count = some (a, c') ↔ a.length = count ∧ Advances c a c' := by
  unfold split? room
  rw [hc, Nat.add_zero]
  constructor
  · split
    next hle =>
      intro h
      obtain ⟨rfl, rfl⟩ := Prod.mk.inj (Option.some.inj h)
      have hlen : (c.bytes.take count).length = count := by simpa using hle
      refine ⟨hlen, ⟨(List.take_append_drop count c.bytes).symm, ?_, ?_⟩⟩
      · rw [hlen]
      · simp [hc]
    next => intro h; cases h
  · rintro ⟨rfl, h⟩
    have hle : a.length ≤ c.bytes.length := by simp [h.bytes]
    rw [if_pos hle, h.bytes, List.take_left, List.drop_left]
    have hafter : (⟨c.offset + a.length, c'.bytes, 0 - (a.length - (a ++ c'.bytes).length)⟩ :
        Cursor) = c' := by
      have hoffset := h.offset
      have hmissing := h.missing
      rw [hc] at hmissing
      cases c'
      simp_all
    rw [hafter]

end Cursor

/-! ### Identifiers -/

namespace Tag

/-- The base-128 digits of a number are those that the library counts from the other end. -/
lemma digits_eq_reverse (n : ℕ) : digits n = (Nat.digits 128 n).reverse := by
  induction n using Nat.strongRecOn with
  | ind n ih =>
    rw [digits]
    by_cases h : n = 0
    · simp [h]
    · rw [if_neg h, ih (n / 128) (Nat.div_lt_self (Nat.pos_of_ne_zero h) (by decide)),
        Nat.digits_def' (by decide) (Nat.pos_of_ne_zero h), List.reverse_cons]

/-- The number that some base-128 digits make when they follow a number read before. -/
def digitsValue (n : ℕ) (ds : List ℕ) : ℕ := ds.foldl (fun n d => n * 128 + d) n

/-- Digits to the base 128, as they are read, have the value of the library. -/
lemma digitsValue_zero (ds : List ℕ) : digitsValue 0 ds = Nat.ofDigits 128 ds.reverse := by
  induction ds using List.reverseRecOn with
  | nil => rfl
  | append_singleton ds d ih =>
    rw [digitsValue, List.foldl_append, List.reverse_append, List.reverse_singleton,
      List.singleton_append, Nat.ofDigits_cons, ← ih]
    simp only [List.foldl_cons, List.foldl_nil, digitsValue]
    ring

/-- A digit is below the base. -/
lemma digits_lt {n d : ℕ} (h : d ∈ digits n) : d < 128 := by
  rw [digits_eq_reverse, List.mem_reverse] at h
  exact Nat.digits_lt_base (by decide) h

/-- The digits of a number have its value. -/
lemma digitsValue_digits (n : ℕ) : digitsValue 0 (digits n) = n := by
  rw [digitsValue_zero, digits_eq_reverse, List.reverse_reverse, Nat.ofDigits_digits]

/-- Four base-128 digits hold the numbers below `2 ^ 28`. -/
lemma length_digits_le_four {n : ℕ} : (digits n).length ≤ 4 ↔ n < 2 ^ 28 := by
  rw [digits_eq_reverse, List.length_reverse, Nat.digits_length_le_iff (by decide)]
  norm_num

/-- A number other than zero has a digit. -/
lemma digits_ne_nil {n : ℕ} (h : n ≠ 0) : digits n ≠ [] := by
  rw [digits_eq_reverse, Ne, List.reverse_eq_nil_iff]
  exact Nat.digits_ne_nil_iff_ne_zero.mpr h

/-- The first digit of a number is not zero. -/
lemma head?_digits (n : ℕ) : (digits n).head? ≠ some 0 := by
  rw [digits_eq_reverse, List.head?_reverse]
  intro h
  by_cases hne : Nat.digits 128 n = []
  · simp [hne] at h
  · rw [List.getLast?_eq_some_getLast hne] at h
    exact Nat.getLast_digit_ne_zero 128 (Nat.digits_ne_nil_iff_ne_zero.mp hne) (Option.some.inj h)

/-- The digits of a number are the only ones without a leading zero. -/
lemma digits_digitsValue {ds : List ℕ} (hlt : ∀ d ∈ ds, d < 128) (hhead : ds.head? ≠ some 0) :
    digits (digitsValue 0 ds) = ds := by
  rw [digitsValue_zero, digits_eq_reverse, Nat.digits_ofDigits 128 (by decide),
    List.reverse_reverse]
  · intro d hd
    exact hlt d (List.mem_reverse.mp hd)
  · intro hne hlast
    apply hhead
    rw [← List.getLast?_reverse, List.getLast?_eq_some_getLast hne, hlast]

/-- Marking digits keeps their count. -/
@[simp] lemma length_marked (ds : List ℕ) : (marked ds).length = ds.length := by
  fun_induction marked ds <;> simp_all

/-- A small number survives as an octet. -/
lemma toNat_ofNat_of_lt {n : ℕ} (h : n < 256) : (UInt8.ofNat n).toNat = n := by
  rw [UInt8.toNat_ofNat']
  exact Nat.mod_eq_of_lt h

/-- The mark is the highest bit of an octet. -/
lemma toNat_mark : (128 : UInt8).toNat = 128 := by decide

/-- Reading some marked digits gives the number that they make. -/
lemma readDigits_of_advances {start limit n : ℕ} {c c' : Cursor} {ds : List ℕ} (hne : ds ≠ [])
    (hlt : ∀ d ∈ ds, d < 128) (hlen : ds.length ≤ limit) (h : c.Advances (marked ds) c') :
    readDigits start limit n c = .ok (digitsValue n ds, c') := by
  -- On the digits.  The limit goes down with each of them, and only the last one has no mark.
  induction ds generalizing limit n c with
  | nil => exact absurd rfl hne
  | cons d ds ih =>
    have hd : d < 128 := hlt d (List.mem_cons_self ..)
    obtain ⟨limit, rfl⟩ : ∃ k, limit = k + 1 := ⟨limit - 1, by simp at hlen; omega⟩
    cases ds with
    | nil =>
      have hbyte := Cursor.byte_of_advances start .truncatedTagNumber h
      have hval : (UInt8.ofNat d).toNat = d := toNat_ofNat_of_lt (by omega)
      have hlow : UInt8.ofNat d < 128 := by
        rw [UInt8.lt_iff_toNat_lt, hval]
        exact hd
      rw [readDigits, hbyte]
      simp only [ok_bind, hval, hlow, if_true, pure_eq_ok, digitsValue, List.foldl_cons,
        List.foldl_nil, Nat.mod_eq_of_lt hd]
    | cons d' ds =>
      have hmark : marked (d :: d' :: ds) = [UInt8.ofNat (128 + d)] ++ marked (d' :: ds) := rfl
      rw [hmark] at h
      obtain ⟨hfirst, hrest⟩ := h.split
      have hbyte := Cursor.byte_of_advances start .truncatedTagNumber hfirst
      have hval : (UInt8.ofNat (128 + d)).toNat = 128 + d := toNat_ofNat_of_lt (by omega)
      have hhigh : ¬ UInt8.ofNat (128 + d) < 128 := by
        rw [UInt8.lt_iff_toNat_lt, hval, toNat_mark]
        omega
      rw [readDigits, hbyte]
      simp only [ok_bind, hval, hhigh, if_false]
      rw [ih (by simp) (fun x hx => hlt x (List.mem_cons_of_mem _ hx))
        (by simpa using hlen) hrest, show (128 + d) % 128 = d by omega]
      rfl

/-- What is read as digits are marked digits, no more than the limit, and the number is the one
that they make. -/
lemma advances_of_readDigits {start limit n v : ℕ} {c c' : Cursor}
    (h : readDigits start limit n c = .ok (v, c')) :
    ∃ ds, ds ≠ [] ∧ (∀ d ∈ ds, d < 128) ∧ ds.length ≤ limit ∧ c.Advances (marked ds) c' ∧
      v = digitsValue n ds := by
  -- On the limit, since the reader stops there also if every octet has a mark.
  induction limit generalizing n c with
  | zero => cases h
  | succ limit ih =>
    rw [readDigits, bind_eq_ok_iff] at h
    obtain ⟨⟨x, rest⟩, hbyte, h⟩ := h
    rw [Cursor.byte_eq_ok_iff] at hbyte
    have hx : x.toNat < 256 := x.toNat_lt
    have hx128 : x < 128 ↔ x.toNat < 128 := UInt8.lt_iff_toNat_lt
    simp only at h
    split at h
    next hlow =>
      obtain ⟨rfl, rfl⟩ := Prod.mk.inj (Except.ok.inj h)
      have hd : x.toNat < 128 := hx128.mp hlow
      refine ⟨[x.toNat], by simp, by simpa using hd, by simp, ?_, ?_⟩
      · simpa [marked, UInt8.ofNat_toNat] using hbyte
      · simp [digitsValue, Nat.mod_eq_of_lt hd]
    next hhigh =>
      have hd : 128 ≤ x.toNat := by
        rw [hx128] at hhigh
        omega
      obtain ⟨ds, hne, hlt, hlen, hadv, rfl⟩ := ih h
      refine ⟨(x.toNat - 128) :: ds, by simp, ?_, by simpa using hlen, ?_, ?_⟩
      · intro d hmem
        rcases List.mem_cons.mp hmem with hfirst | hmem
        · omega
        · exact hlt d hmem
      · obtain ⟨d', ds', rfl⟩ := List.exists_cons_of_ne_nil hne
        have hmark : marked ((x.toNat - 128) :: d' :: ds') = [x] ++ marked (d' :: ds') := by
          change UInt8.ofNat (128 + (x.toNat - 128)) :: _ = _
          rw [show 128 + (x.toNat - 128) = x.toNat by omega, UInt8.ofNat_toNat]
          rfl
        rw [hmark]
        exact hbyte.trans hadv
      · rw [show x.toNat % 128 = x.toNat - 128 by omega]
        simp only [digitsValue, List.foldl_cons]

/-- The first octet of marked digits is a mark alone only if the first of several digits is a
zero. -/
lemma head?_marked {ds : List ℕ} (hlt : ∀ d ∈ ds, d < 128) :
    (marked ds).head? = some 128 ↔ ∃ d rest, ds = 0 :: d :: rest := by
  match ds with
  | [] => simp [marked]
  | [d] =>
    have hd : d < 128 := hlt d (by simp)
    simp only [marked, List.head?_cons, Option.some.injEq, List.cons.injEq, reduceCtorEq,
      and_false, exists_false, iff_false]
    intro h
    have hval := congrArg UInt8.toNat h
    rw [toNat_ofNat_of_lt (by omega), toNat_mark] at hval
    omega
  | d :: d' :: rest =>
    have hd : d < 128 := hlt d (by simp)
    simp only [marked, List.head?_cons, Option.some.injEq, List.cons.injEq]
    constructor
    · intro h
      have hval := congrArg UInt8.toNat h
      rw [toNat_ofNat_of_lt (by omega), toNat_mark] at hval
      exact ⟨d', rest, by omega, rfl, rfl⟩
    · rintro ⟨_, _, rfl, -, -⟩
      rfl

/-- The long form is read for the numbers from 31 on that four digits hold, each in its one
form. -/
lemma readNumber_eq_ok_iff {c c' : Cursor} {n : ℕ} :
    readNumber c = .ok (n, c') ↔
      31 ≤ n ∧ n < 2 ^ 28 ∧ c.Advances (marked (digits n)) c' := by
  constructor
  · intro h
    unfold readNumber at h
    split at h
    · cases h
    next hpad =>
      obtain ⟨⟨v, rest⟩, hread, h⟩ := bind_eq_ok_iff.mp h
      simp only at h
      split at h
      · cases h
      next hlong =>
        obtain ⟨rfl, rfl⟩ := Prod.mk.inj (Except.ok.inj h)
        obtain ⟨ds, hne, hlt, hlen, hadv, rfl⟩ := advances_of_readDigits hread
        -- The digits are those of the number unless the first one is zero.  A zero in front is the
        -- whole of a number below 31, or it is the padding that was refused.
        have hds : digits (digitsValue 0 ds) = ds := by
          refine digits_digitsValue hlt fun hzero => ?_
          obtain ⟨d, ds', rfl⟩ := List.exists_cons_of_ne_nil hne
          rw [List.head?_cons, Option.some.injEq] at hzero
          subst hzero
          cases ds' with
          | nil => exact hlong (by decide)
          | cons d' ds' =>
            apply hpad
            rw [hadv.bytes, List.head?_append_of_ne_nil _ (by simp [marked]),
              (head?_marked hlt).mpr ⟨d', ds', rfl⟩]
        refine ⟨by omega, ?_, ?_⟩
        · rw [← length_digits_le_four, hds]
          exact hlen
        · rw [hds]
          exact hadv
  · rintro ⟨hge, hlt, hadv⟩
    have hne : digits n ≠ [] := digits_ne_nil (by omega)
    have hpad : ¬ c.bytes.head? = some 128 := by
      have hmne : marked (digits n) ≠ [] := by
        rw [Ne, ← List.length_eq_zero_iff, length_marked, List.length_eq_zero_iff]
        exact hne
      rw [hadv.bytes, List.head?_append_of_ne_nil _ hmne, head?_marked fun d => digits_lt]
      rintro ⟨d, ds, hds⟩
      exact head?_digits n (by rw [hds]; rfl)
    have hread : readDigits c.offset 4 0 c = .ok (n, c') := by
      rw [readDigits_of_advances hne (fun d => digits_lt) (length_digits_le_four.mpr hlt) hadv,
        digitsValue_digits]
    unfold readNumber
    rw [if_neg hpad, hread, ok_bind]
    simp only [show ¬ n < 31 by omega, if_false, pure_eq_ok]

/-- The class, the form and the low bits of a first octet can be told apart. -/
lemma first_parts (t : Tag) (low : ℕ) (h : low < 32) :
    let first := UInt8.ofNat (t.tagClass.code * 64 + (if t.constructed then 32 else 0) + low)
    first.toNat % 32 = low ∧ TagClass.ofCode (first.toNat / 64) = t.tagClass ∧
      (first.toNat / 32 % 2 == 1) = t.constructed := by
  have hc := t.tagClass.code_lt
  intro first
  have hval : first.toNat =
      t.tagClass.code * 64 + (if t.constructed then 32 else 0) + low := by
    apply toNat_ofNat_of_lt
    split <;> omega
  rw [hval]
  refine ⟨?_, ?_, ?_⟩
  · split <;> omega
  · rw [show (t.tagClass.code * 64 + (if t.constructed then 32 else 0) + low) / 64 =
      t.tagClass.code by split <;> omega, TagClass.ofCode_code]
  · cases ht : t.constructed
    · simp only [Bool.false_eq_true, if_false, beq_eq_false_iff_ne]
      omega
    · simp only [if_true, beq_iff_eq]
      omega

/-- A first octet is made of its class, its form and its low bits. -/
lemma first_eq (x : UInt8) :
    UInt8.ofNat ((TagClass.ofCode (x.toNat / 64)).code * 64 +
      (if (x.toNat / 32 % 2 == 1) = true then 32 else 0) + x.toNat % 32) = x := by
  have hx : x.toNat < 256 := x.toNat_lt
  have hcode : (TagClass.ofCode (x.toNat / 64)).code = x.toNat / 64 := by
    have hlt : x.toNat / 64 < 4 := by omega
    generalize x.toNat / 64 = k at hlt
    interval_cases k <;> rfl
  rw [hcode]
  apply UInt8.toNat_inj.mp
  rw [toNat_ofNat_of_lt]
  · simp only [beq_iff_eq]
    split <;> omega
  · simp only [beq_iff_eq]
    split <;> omega

/-- An identifier has a first octet. -/
lemma length_encode_pos (t : Tag) : 0 < t.encode.length := by
  simp only [Tag.encode]
  split <;> simp

/-- An identifier is read exactly from its one form, if its number is below `2 ^ 28`. -/
theorem read_eq_ok_iff {c c' : Cursor} {t : Tag} :
    Tag.read c = .ok (t, c') ↔ t.number < 2 ^ 28 ∧ c.Advances t.encode c' := by
  constructor
  · intro h
    obtain ⟨⟨x, rest⟩, hbyte, h⟩ := bind_eq_ok_iff.mp h
    rw [Cursor.byte_eq_ok_iff] at hbyte
    have hfirst := first_eq x
    simp only at h
    split at h
    next hlow =>
      obtain ⟨⟨n, rest'⟩, hnumber, h⟩ := bind_eq_ok_iff.mp h
      obtain ⟨rfl, rfl⟩ := Prod.mk.inj (Except.ok.inj h)
      obtain ⟨hge, hlt, hadv⟩ := readNumber_eq_ok_iff.mp hnumber
      refine ⟨hlt, ?_⟩
      rw [hlow] at hfirst
      simp only [Tag.encode, show ¬ n < 31 by omega, if_false, hfirst]
      exact hbyte.trans hadv
    next hlow =>
      obtain ⟨rfl, rfl⟩ := Prod.mk.inj (Except.ok.inj h)
      have hlt : x.toNat % 32 < 31 := by
        have := Nat.mod_lt x.toNat (show 32 > 0 by decide)
        omega
      refine ⟨by simp only; omega, ?_⟩
      simp only [Tag.encode, hlt, if_true, hfirst]
      exact hbyte
  · rintro ⟨hlt, hadv⟩
    by_cases hshort : t.number < 31
    · obtain ⟨hlow, hclass, hform⟩ := first_parts t t.number (by omega)
      simp only [Tag.encode, hshort, if_true] at hadv
      unfold Tag.read
      rw [Cursor.byte_eq_ok_iff.mpr hadv, ok_bind]
      simp only [hlow, show ¬ t.number = 31 by omega, if_false, pure_eq_ok, ok_bind, hclass, hform]
    · obtain ⟨hlow, hclass, hform⟩ := first_parts t 31 (by omega)
      simp only [Tag.encode, hshort, if_false] at hadv
      obtain ⟨hfirst, hrest⟩ := Cursor.Advances.split (a := [_]) hadv
      have hnumber := readNumber_eq_ok_iff.mpr ⟨by omega, hlt, hrest⟩
      unfold Tag.read
      rw [Cursor.byte_eq_ok_iff.mpr hfirst, ok_bind]
      simp only [hlow, if_true, hclass, hform]
      rw [hnumber]
      rfl

end Tag

/-! ### Lengths -/

namespace Length

/-- A length in the long form has from one to four digits. -/
lemma length_ofNat_bounds {n : ℕ} (hge : 128 ≤ n) (hlt : n < 2 ^ 32) :
    0 < (Octets.ofNat n).length ∧ (Octets.ofNat n).length ≤ 4 := by
  constructor
  · by_contra h0
    have hzero : (Octets.ofNat n).length ≤ 0 := by omega
    have hone := Octets.length_ofNat_le_iff.mp hzero
    omega
  · apply Octets.length_ofNat_le_iff.mpr
    norm_num
    omega

/-- Four octets hold numbers below two to the power of 32. -/
lemma toNat_lt_of_length_le_four {digits : Octets} (h : digits.length ≤ 4) :
    Octets.toNat digits < 2 ^ 32 := by
  have hpow : 256 ^ digits.length ≤ 256 ^ 4 := Nat.pow_le_pow_right (by norm_num) h
  have hlt := Octets.toNat_lt digits
  norm_num at hpow ⊢
  omega

/-- Whatever is read as a length is its one form. -/
lemma advances_of_read {c c' : Cursor} (hc : c.missing = 0) {n : ℕ}
    (h : Length.read c = .ok (n, c')) : n < 2 ^ 32 ∧ c.Advances (Length.encode n) c' := by
  obtain ⟨⟨x, rest⟩, hbyte, h⟩ := bind_eq_ok_iff.mp h
  rw [Cursor.byte_eq_ok_iff] at hbyte
  have hx : x.toNat < 256 := x.toNat_lt
  have hx128 : x < 128 ↔ x.toNat < 128 := UInt8.lt_iff_toNat_lt
  simp only at h
  split at h
  next hlow =>
    obtain ⟨rfl, rfl⟩ := Prod.mk.inj (Except.ok.inj h)
    have hlow := hx128.mp hlow
    refine ⟨by omega, ?_⟩
    simpa only [encode, hlow, if_true, UInt8.ofNat_toNat] using hbyte
  next hlong =>
    split at h
    · cases h
    split at h
    · cases h
    next hzero hfour =>
      split at h
      · cases h
      · cases h
      next digits after _ hsplit =>
        split at h
        · cases h
        split at h
        · cases h
        -- A zero in front and a number below 128 were refused, so these are the octets that are
        -- written for the number.
        next hhead hge =>
          obtain ⟨rfl, rfl⟩ := Prod.mk.inj (Except.ok.inj h)
          obtain ⟨hlen, hadv⟩ :=
            (Cursor.split?_eq_some_iff (by rw [hbyte.missing, hc])).mp hsplit
          have hdigits := Octets.ofNat_toNat hhead
          have hmark : 128 + (x.toNat - 128) % 128 = x.toNat := by
            rw [hx128] at hlong
            omega
          refine ⟨toNat_lt_of_length_le_four (by omega), ?_⟩
          simp only [encode, hge, if_false, hdigits, hlen]
          rw [hmark, UInt8.ofNat_toNat]
          exact hbyte.trans hadv

/-- The one form of a length below `2 ^ 32` is read. -/
lemma read_of_advances {c c' : Cursor} (hc : c.missing = 0) {n : ℕ} (hlt : n < 2 ^ 32)
    (hadv : c.Advances (Length.encode n) c') : Length.read c = .ok (n, c') := by
  unfold Length.read
  by_cases hshort : n < 128
  · have hval : (UInt8.ofNat n).toNat = n := Tag.toNat_ofNat_of_lt (by omega)
    have hlow : UInt8.ofNat n < 128 := by
      rw [UInt8.lt_iff_toNat_lt, hval]
      exact hshort
    simp only [encode, hshort, if_true] at hadv
    rw [Cursor.byte_eq_ok_iff.mpr hadv, ok_bind]
    simp only [hlow, if_true, hval, pure_eq_ok]
  · obtain ⟨hpos, hfour⟩ := length_ofNat_bounds (by omega) hlt
    simp only [encode, hshort, if_false] at hadv
    rw [Nat.mod_eq_of_lt (show (Octets.ofNat n).length < 128 by omega)] at hadv
    obtain ⟨hfirst, hrest⟩ := Cursor.Advances.split (a := [_]) hadv
    have hval : (UInt8.ofNat (128 + (Octets.ofNat n).length)).toNat =
        128 + (Octets.ofNat n).length := Tag.toNat_ofNat_of_lt (by omega)
    have hhigh : ¬ UInt8.ofNat (128 + (Octets.ofNat n).length) < 128 := by
      rw [UInt8.lt_iff_toNat_lt, hval, Tag.toNat_mark]
      omega
    have hsplit := (Cursor.split?_eq_some_iff (c := ⟨_, Octets.ofNat n ++ c'.bytes, _⟩) hc).mpr
      ⟨rfl, hrest⟩
    have hhead := Octets.head?_ofNat n
    have hback := Octets.toNat_ofNat n
    obtain ⟨d, ds, hds⟩ := List.exists_cons_of_length_pos hpos
    rw [Cursor.byte_eq_ok_iff.mpr hfirst, ok_bind]
    simp only [hhigh, if_false, hval, Nat.add_sub_cancel_left,
      show ¬ (Octets.ofNat n).length = 0 by omega, show ¬ 4 < (Octets.ofNat n).length by omega]
    rw [hsplit]
    simp only [hds] at hhead hback ⊢
    simp only [hhead, if_false, hback, hshort, pure_eq_ok]

/-- A length is read exactly from its one form, if it is below `2 ^ 32`. -/
theorem read_eq_ok_iff {c c' : Cursor} (hc : c.missing = 0) {n : ℕ} :
    Length.read c = .ok (n, c') ↔ n < 2 ^ 32 ∧ c.Advances (Length.encode n) c' := by
  constructor
  · intro h
    exact advances_of_read hc h
  · intro h
    exact read_of_advances hc h.1 h.2

/-- A length has a first octet. -/
lemma length_encode_pos (n : ℕ) : 0 < (encode n).length := by
  unfold encode
  split <;> simp

/-- A larger length does not have a shorter form. -/
lemma length_encode_mono {m n : ℕ} (h : m ≤ n) : (encode m).length ≤ (encode n).length := by
  unfold encode
  have hmono := Octets.length_ofNat_mono h
  split
  · split <;> simp
  · rw [if_neg (by omega)]
    simpa using hmono

end Length

end AttestedKey.Der
