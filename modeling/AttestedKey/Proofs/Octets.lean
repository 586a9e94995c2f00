import AttestedKey.Der.Primitive
import Mathlib.Tactic

/-!
# Numbers and texts as octets, in both directions

`Octets.toNat` and `Octets.ofNat` are inverse to each other on digit strings without a leading
zero, so a number has exactly one such string and its length says between which powers of 256
the number lies (`length_ofNat_le_iff`).  The same holds for two's complement: `Octets.ofInt`
gives the one string that is neither empty nor padded and that `Octets.toInt` reads as the given
number (`toInt_ofInt`, `ofInt_toInt`).  For texts, `Octets.toString?` accepts exactly what
`Octets.ofString` writes (`toString?_eq_some_iff`).
-/

namespace AttestedKey

namespace Octets

/-! ### Digits -/

/-- No octets stand for zero. -/
@[simp] lemma toNat_nil : toNat [] = 0 := rfl

/-- The digits in front count by the number of digits behind them. -/
lemma toNat_append (a b : Octets) : toNat (a ++ b) = toNat a * 256 ^ b.length + toNat b := by
  induction b using List.reverseRecOn with
  | nil => simp
  | append_singleton b x ih =>
    rw [← List.append_assoc, toNat_append_singleton, ih, toNat_append_singleton,
      List.length_append, List.length_singleton, pow_succ]
    ring

/-- One octet stands for its number. -/
@[simp] lemma toNat_singleton (x : UInt8) : toNat [x] = x.toNat := by
  simp [toNat]

/-- The first octet counts for as many as there are combinations of the others. -/
lemma toNat_cons (x : UInt8) (a : Octets) :
    toNat (x :: a) = x.toNat * 256 ^ a.length + toNat a := by
  rw [← List.singleton_append, toNat_append, toNat_singleton]

/-- A number is smaller than the power of 256 that its digits would reach. -/
lemma toNat_lt (a : Octets) : toNat a < 256 ^ a.length := by
  induction a with
  | nil => simp
  | cons x a ih =>
    have hx : x.toNat < 256 := x.toNat_lt
    rw [toNat_cons, List.length_cons, pow_succ]
    calc x.toNat * 256 ^ a.length + toNat a
        < x.toNat * 256 ^ a.length + 256 ^ a.length := by omega
      _ = (x.toNat + 1) * 256 ^ a.length := by ring
      _ ≤ 256 * 256 ^ a.length := Nat.mul_le_mul_right _ hx
      _ = 256 ^ a.length * 256 := by ring

/-- Without a leading zero, a number reaches the power of 256 below its digits. -/
lemma pow_le_toNat {x : UInt8} (a : Octets) (hx : x ≠ 0) : 256 ^ a.length ≤ toNat (x :: a) := by
  have hpos : 0 < x.toNat := by
    rcases Nat.eq_zero_or_pos x.toNat with h | h
    · exact absurd (UInt8.toNat_inj.mp h) hx
    · exact h
  rw [toNat_cons]
  calc 256 ^ a.length = 1 * 256 ^ a.length := by ring
    _ ≤ x.toNat * 256 ^ a.length := Nat.mul_le_mul_right _ hpos
    _ ≤ _ := Nat.le_add_right _ _

/-- The digits of a number do not begin with a zero. -/
lemma head?_ofNat (n : ℕ) : (ofNat n).head? ≠ some 0 := by
  induction n using Nat.strongRecOn with
  | ind n ih =>
    rcases Nat.eq_zero_or_pos n with rfl | hn
    · simp [ofNat_zero]
    · rw [ofNat_of_pos hn]
      by_cases hq : n / 256 = 0
      · rw [hq, ofNat_zero, List.nil_append, List.head?_cons]
        intro h
        have h0 := congrArg UInt8.toNat (Option.some.inj h)
        simp only [UInt8.toNat_ofNat', UInt8.toNat_zero] at h0
        omega
      · have hne : ofNat (n / 256) ≠ [] := by
          rw [ofNat_of_pos (Nat.pos_of_ne_zero hq)]
          simp
        rw [List.head?_append_of_ne_nil _ hne]
        exact ih _ (Nat.div_lt_self hn (by decide))

/-- Writing the number that some digits are gives the digits back, unless they begin with a
zero. -/
lemma ofNat_toNat {a : Octets} (h : a.head? ≠ some 0) : ofNat (toNat a) = a := by
  induction a using List.reverseRecOn with
  | nil => simp [ofNat_zero]
  | append_singleton a x ih =>
    have hx : x.toNat < 256 := x.toNat_lt
    rw [toNat_append_singleton]
    have hpos : 0 < toNat a * 256 + x.toNat := by
      cases a with
      | nil =>
        have hx0 : x ≠ 0 := by simpa using h
        have hle := pow_le_toNat [] hx0
        rw [toNat_singleton, List.length_nil, pow_zero] at hle
        omega
      | cons y a =>
        have hy0 : y ≠ 0 := by simpa using h
        have := pow_le_toNat a hy0
        have : 0 < 256 ^ a.length := by positivity
        omega
    have hhead : a.head? ≠ some 0 := by
      cases a with
      | nil => simp
      | cons y a => simpa using h
    rw [ofNat_of_pos hpos, show (toNat a * 256 + x.toNat) / 256 = toNat a by omega,
      show (toNat a * 256 + x.toNat) % 256 = x.toNat by omega, ih hhead, UInt8.ofNat_toNat]

/-- A number has at most so many digits as the power of 256 that it stays below. -/
lemma length_ofNat_le_iff {n k : ℕ} : (ofNat n).length ≤ k ↔ n < 256 ^ k := by
  constructor
  · intro h
    calc n = toNat (ofNat n) := (toNat_ofNat n).symm
      _ < 256 ^ (ofNat n).length := toNat_lt _
      _ ≤ 256 ^ k := Nat.pow_le_pow_right (by decide) h
  · intro h
    by_contra hlen
    cases hd : ofNat n with
    | nil => simp [hd] at hlen
    | cons x a =>
      have hx : x ≠ 0 := by
        have := head?_ofNat n
        rw [hd] at this
        simpa using this
      have hle := pow_le_toNat a hx
      rw [← hd, toNat_ofNat] at hle
      have hk : k ≤ a.length := by
        rw [hd, List.length_cons] at hlen
        omega
      have : 256 ^ k ≤ 256 ^ a.length := Nat.pow_le_pow_right (by decide) hk
      omega

/-- Larger numbers do not have fewer digits. -/
lemma length_ofNat_mono {m n : ℕ} (h : m ≤ n) : (ofNat m).length ≤ (ofNat n).length :=
  length_ofNat_le_iff.mpr (lt_of_le_of_lt h (length_ofNat_le_iff.mp le_rfl))

/-! ### Two's complement -/

/-- The complement of an octet counts down from 255. -/
lemma toNat_complement (x : UInt8) : (255 - x).toNat = 255 - x.toNat := by
  rw [UInt8.toNat_sub_of_le]
  · rfl
  · rw [UInt8.le_iff_toNat_le]
    have hx : x.toNat < 256 := x.toNat_lt
    exact Nat.le_of_lt_succ hx

/-- Complementing an octet twice gives the octet again. -/
@[simp] lemma complement_complement (x : UInt8) : 255 - (255 - x) = x := by
  apply UInt8.toNat_inj.mp
  have hx : x.toNat < 256 := x.toNat_lt
  rw [toNat_complement, toNat_complement]
  omega

/-- Complementing octets twice gives the octets again. -/
lemma map_complement_complement (a : Octets) : (a.map (255 - ·)).map (255 - ·) = a := by
  rw [List.map_map]
  exact (List.map_congr_left fun x _ => complement_complement x).trans (List.map_id a)

/-- Some digits and their complement add up to a number that has only the largest digit. -/
lemma toNat_map_complement (a : Octets) :
    toNat (a.map (255 - ·)) + toNat a + 1 = 256 ^ a.length := by
  induction a with
  | nil => simp
  | cons x a ih =>
    have hx : x.toNat < 256 := x.toNat_lt
    rw [List.map_cons, toNat_cons, toNat_cons, toNat_complement, List.length_map,
      List.length_cons, pow_succ]
    calc (255 - x.toNat) * 256 ^ a.length + toNat (a.map (255 - ·))
          + (x.toNat * 256 ^ a.length + toNat a) + 1
        = (255 - x.toNat + x.toNat) * 256 ^ a.length
          + (toNat (a.map (255 - ·)) + toNat a + 1) := by ring
      _ = 255 * 256 ^ a.length + 256 ^ a.length := by
        rw [ih, show 255 - x.toNat + x.toNat = 255 by omega]
      _ = 256 ^ a.length * 256 := by ring

/-- The complement changes the leading bit. -/
lemma complement_lt (x : UInt8) : 255 - x < 128 ↔ ¬ x < 128 := by
  have hx : x.toNat < 256 := x.toNat_lt
  rw [UInt8.lt_iff_toNat_lt, UInt8.lt_iff_toNat_lt, toNat_complement]
  change 255 - x.toNat < 128 ↔ ¬ x.toNat < 128
  omega

/-- Digits and their complement are padded alike. -/
lemma isPadded_map_complement (a : Octets) :
    Der.Element.isPadded (a.map (255 - ·)) = Der.Element.isPadded a := by
  match a with
  | [] => rfl
  | [x] => rfl
  -- The complement exchanges the two ways to be padded: a zero octet in front of a clear bit, and
  -- one of ones in front of a set bit.
  | x :: y :: a =>
    have h0 : (255 - x == 0) = (x == 255) := by
      rw [Bool.eq_iff_iff, beq_iff_eq, beq_iff_eq]
      constructor
      · intro h
        rw [← complement_complement x, h]
        rfl
      · rintro rfl
        rfl
    have h255 : (255 - x == 255) = (x == 0) := by
      rw [Bool.eq_iff_iff, beq_iff_eq, beq_iff_eq]
      constructor
      · intro h
        rw [← complement_complement x, h]
        rfl
      · rintro rfl
        rfl
    have hlow : decide (255 - y < 128) = decide (128 ≤ y) := by
      rw [Bool.eq_iff_iff, decide_eq_true_iff, decide_eq_true_iff, complement_lt, UInt8.not_lt]
    have hhigh : decide (128 ≤ 255 - y) = decide (y < 128) := by
      rw [Bool.eq_iff_iff, decide_eq_true_iff, decide_eq_true_iff, ← UInt8.not_lt, complement_lt,
        not_not]
    simp only [List.map_cons, Der.Element.isPadded, h0, h255, hlow, hhigh]
    rw [Bool.or_comm]

/-- A number with room for a sign is neither empty nor padded, and its leading bit is clear. -/
lemma ofNatSigned_shape (n : ℕ) :
    ∃ x a, ofNatSigned n = x :: a ∧ x < 128 ∧ Der.Element.isPadded (x :: a) = false ∧
      toNat (x :: a) = n := by
  have hn := toNat_ofNat n
  have hhead := head?_ofNat n
  unfold ofNatSigned
  cases hd : ofNat n with
  | nil =>
    refine ⟨0, [], rfl, by decide, rfl, ?_⟩
    rw [hd] at hn
    simpa using hn
  | cons x a =>
    rw [hd] at hn hhead
    have hx0 : (x == 0) = false := by simpa using hhead
    -- With a leading bit that is set, a zero is written in front, and it is needed there.
    by_cases hx : x < 128
    · refine ⟨x, a, by simp [hx], hx, ?_, hn⟩
      have hx255 : (x == 255) = false := by
        rw [beq_eq_false_iff_ne]
        rintro rfl
        exact absurd hx (by decide)
      cases a with
      | nil => rfl
      | cons y a => simp [Der.Element.isPadded, hx0, hx255]
    · refine ⟨0, x :: a, by simp [hx], by decide, ?_, ?_⟩
      · simp [Der.Element.isPadded, hx]
      · rw [toNat_cons, hn]
        simp

/-- Digits with a clear leading bit that are not padded are what writing their number gives. -/
lemma ofNatSigned_toNat {x : UInt8} {a : Octets} (hx : x < 128)
    (hpad : Der.Element.isPadded (x :: a) = false) : ofNatSigned (toNat (x :: a)) = x :: a := by
  by_cases h0 : x = 0
  · subst h0
    cases a with
    | nil => simp [ofNatSigned, toNat, ofNat_zero]
    | cons y a =>
      have hy : ¬ y < 128 := by
        intro hy
        simp [Der.Element.isPadded, hy] at hpad
      have hy0 : y ≠ 0 := by
        rintro rfl
        exact hy (by decide)
      have hdigits : ofNat (toNat (0 :: y :: a)) = y :: a := by
        rw [toNat_cons, UInt8.toNat_zero, zero_mul, zero_add]
        exact ofNat_toNat (by simpa using hy0)
      unfold ofNatSigned
      rw [hdigits]
      simp [hy]
  · have hdigits : ofNat (toNat (x :: a)) = x :: a := ofNat_toNat (by simpa using h0)
    unfold ofNatSigned
    rw [hdigits]
    simp [hx]

/-- Octets whose leading bit is clear are read as they are without a sign. -/
lemma toInt_of_low {x : UInt8} {a : Octets} (hx : x < 128) : toInt (x :: a) = toNat (x :: a) := by
  simp only [toInt, hx, if_true]

/-- Octets whose leading bit is set are read as what is left after they wrapped around once. -/
lemma toInt_of_high {x : UInt8} {a : Octets} (hx : ¬ x < 128) :
    toInt (x :: a) = (toNat (x :: a) : ℤ) - ((256 ^ (x :: a).length : ℕ) : ℤ) := by
  simp only [toInt, hx, if_false]
  rfl

/-- Reading the two's complement form of a number gives the number back. -/
theorem toInt_ofInt (v : ℤ) : toInt (ofInt v) = v := by
  cases v with
  | ofNat n =>
    obtain ⟨x, a, hform, hx, -, hval⟩ := ofNatSigned_shape n
    rw [ofInt, hform, toInt_of_low hx, hval]
    rfl
  | negSucc n =>
    obtain ⟨x, a, hform, hx, -, hval⟩ := ofNatSigned_shape n
    have hsum := toNat_map_complement (x :: a)
    have hhigh : ¬ (255 - x < 128) := by
      rw [complement_lt, not_not]
      exact hx
    rw [hval] at hsum
    have hlength : ((255 - x) :: a.map (255 - ·)).length = (x :: a).length := by simp
    rw [ofInt, hform, List.map_cons, toInt_of_high hhigh, hlength, ← hsum, List.map_cons,
      Int.negSucc_eq]
    push_cast
    ring

/-- Different integers are written in different octets. -/
lemma ofInt_injective : Function.Injective ofInt :=
  Function.LeftInverse.injective toInt_ofInt

/-- The two's complement form of a number is never empty. -/
lemma ofInt_ne_nil (v : ℤ) : ofInt v ≠ [] := by
  cases v with
  | ofNat n =>
    obtain ⟨x, a, hform, -⟩ := ofNatSigned_shape n
    simp [ofInt, hform]
  | negSucc n =>
    obtain ⟨x, a, hform, -⟩ := ofNatSigned_shape n
    simp [ofInt, hform]

/-- The two's complement form of a number is never padded. -/
lemma isPadded_ofInt (v : ℤ) : Der.Element.isPadded (ofInt v) = false := by
  cases v with
  | ofNat n =>
    obtain ⟨x, a, hform, -, hpad, -⟩ := ofNatSigned_shape n
    rw [ofInt, hform, hpad]
  | negSucc n =>
    obtain ⟨x, a, hform, -, hpad, -⟩ := ofNatSigned_shape n
    rw [ofInt, hform, isPadded_map_complement, hpad]

/-- A string that is neither empty nor padded is the two's complement form of its number. -/
theorem ofInt_toInt {a : Octets} (hne : a ≠ []) (hpad : Der.Element.isPadded a = false) :
    ofInt (toInt a) = a := by
  cases a with
  | nil => exact absurd rfl hne
  | cons x a =>
    by_cases hx : x < 128
    · rw [toInt_of_low hx]
      exact ofNatSigned_toNat hx hpad
    · -- The number of the complement is one less than the distance to zero.
      have hsum := toNat_map_complement (x :: a)
      have hcomp : 255 - x < 128 := (complement_lt x).mpr hx
      have hval : toInt (x :: a) = Int.negSucc (toNat ((x :: a).map (255 - ·))) := by
        rw [toInt_of_high hx, ← hsum, Int.negSucc_eq]
        push_cast
        ring
      have hpad' : Der.Element.isPadded ((255 - x) :: a.map (255 - ·)) = false := by
        rw [← List.map_cons (f := (255 - ·)), isPadded_map_complement, hpad]
      rw [hval, ofInt, List.map_cons, ofNatSigned_toNat hcomp hpad',
        ← List.map_cons (f := (255 - ·)), map_complement_complement]

/-! ### Texts -/

/-- Octets that read as a text are the octets of that text. -/
lemma ofString_of_toString? {a : Octets} {text : String} (h : toString? a = some text) :
    ofString text = a := by
  unfold toString? String.fromUTF8? at h
  split at h
  · rw [Option.some.injEq] at h
    subst h
    rfl
  · cases h

/-- Exactly the octets of a text read as that text. -/
theorem toString?_eq_some_iff {a : Octets} {text : String} :
    toString? a = some text ↔ a = ofString text := by
  constructor
  · intro h
    exact (ofString_of_toString? h).symm
  · rintro rfl
    exact toString?_ofString text

end Octets

end AttestedKey
