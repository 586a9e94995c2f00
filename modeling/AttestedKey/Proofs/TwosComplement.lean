import AttestedKey.Proofs.Der.Collection
import AttestedKey.Proofs.OneForm

/-!
# Two's complement

Some octets represent a number in two's complement if the number lies in the range of as many octets
and differs from what the octets are without a sign by a multiple of the power of 256 that they
reach (`Octets.Represents`).  That range is as long as this power, so there is only one such number,
and it is the one that `Octets.toInt` gives (`Octets.represents_iff`).

Of all octets that represent a number, `Octets.ofInt` gives the fewest: if the first two octets are
such that the first one can be left out, then the others represent the same number
(`Octets.toInt_of_padded`), and octets of which none can be left out are those of `Octets.ofInt`.
The element of such octets is the one form of a number, both as an INTEGER and as an ENUMERATED.
-/

namespace AttestedKey

namespace Octets

/-- Some octets, at least one, are a number in two's complement. -/
structure Represents (a : Octets) (v : ℤ) : Prop where
  /-- There is a leading bit. -/
  ne_nil : a ≠ []
  /-- Without a sign the octets are the number up to multiples of the power that they reach. -/
  modEq : v ≡ toNat a [ZMOD 256 ^ a.length]
  /-- The number is not too small for so many octets. -/
  lower : -256 ^ a.length ≤ 2 * v
  /-- The number is not too large for so many octets. -/
  upper : 2 * v < 256 ^ a.length

/-- Octets represent only one number. -/
lemma Represents.unique {a : Octets} {v w : ℤ} (hv : a.Represents v) (hw : a.Represents w) :
    v = w := by
  have hdvd : (256 ^ a.length : ℤ) ∣ v - w := (hw.modEq.trans hv.modEq.symm).dvd
  have hlt : |v - w| < 256 ^ a.length := by
    have hv₁ := hv.lower
    have hv₂ := hv.upper
    have hw₁ := hw.lower
    have hw₂ := hw.upper
    rw [abs_lt]
    constructor <;> omega
  exact sub_eq_zero.mp (Int.eq_zero_of_abs_lt_dvd hdvd hlt)

/-- Octets represent the number that they are read as. -/
lemma represents_toInt {a : Octets} (hne : a ≠ []) : a.Represents (toInt a) := by
  obtain ⟨x, b, rfl⟩ := List.exists_cons_of_ne_nil hne
  have hx : x.toNat < 256 := x.toNat_lt
  have hsum := toNat_cons x b
  have hrest := toNat_lt b
  have hpow : 256 ^ (x :: b).length = 256 * 256 ^ b.length := by
    rw [List.length_cons, pow_succ, mul_comm]
  have hcast : (256 ^ (x :: b).length : ℤ) = ((256 * 256 ^ b.length : ℕ) : ℤ) := by
    rw [← hpow]
    push_cast
    rfl
  by_cases hlow : x < 128
  · -- The leading bit is clear, so the number is less than half of the power.
    have hx : x.toNat ≤ 127 := Nat.le_of_lt_succ (UInt8.lt_iff_toNat_lt.mp hlow)
    have hle := Nat.mul_le_mul_right (256 ^ b.length) hx
    rw [toInt_of_low hlow]
    refine ⟨hne, Int.ModEq.refl _, ?_, ?_⟩
    · rw [hcast]
      omega
    · rw [hcast]
      omega
  · -- The leading bit is set, so at least half of the power is there, and all of it is taken away.
    have hge : 128 ≤ x.toNat := by
      rw [UInt8.lt_iff_toNat_lt, not_lt] at hlow
      exact hlow
    have hle := Nat.mul_le_mul_right (256 ^ b.length) hge
    have hlt := toNat_lt (x :: b)
    rw [hpow] at hlt
    rw [toInt_of_high hlow]
    refine ⟨hne, ?_, ?_, ?_⟩
    · push_cast
      exact Int.sub_modulus_modEq_iff.mpr rfl
    · rw [hcast, hpow]
      omega
    · rw [hcast, hpow]
      omega

/-- Octets represent a number exactly if they are read as this number. -/
theorem represents_iff {a : Octets} {v : ℤ} : a.Represents v ↔ a ≠ [] ∧ toInt a = v := by
  constructor
  · intro h
    exact ⟨h.ne_nil, (represents_toInt h.ne_nil).unique h⟩
  · rintro ⟨hne, rfl⟩
    exact represents_toInt hne

/-- A number is written in octets that represent it. -/
lemma represents_ofInt (v : ℤ) : (ofInt v).Represents v :=
  represents_iff.mpr ⟨ofInt_ne_nil v, toInt_ofInt v⟩

/-- Without an octet that could be left out the number is the same. -/
lemma toInt_of_padded {x y : UInt8} {b : Octets}
    (h : Der.Element.isPadded (x :: y :: b) = true) : toInt (x :: y :: b) = toInt (y :: b) := by
  simp only [Der.Element.isPadded, Bool.or_eq_true, Bool.and_eq_true, beq_iff_eq,
    decide_eq_true_iff] at h
  rcases h with ⟨rfl, hy⟩ | ⟨rfl, hy⟩
  · rw [toInt_of_low (by decide), toInt_of_low hy, toNat_cons, UInt8.toNat_zero, zero_mul,
      zero_add]
  · have hy : ¬ y < 128 := UInt8.not_lt.mpr hy
    have hlength : (255 :: y :: b : Octets).length = (y :: b).length + 1 := rfl
    have hlead : (255 : UInt8).toNat = 255 := rfl
    rw [toInt_of_high (by decide), toInt_of_high hy, toNat_cons, hlength, hlead, pow_succ]
    push_cast
    ring

/-- All other octets that represent a number are more than those that it is written with. -/
theorem length_ofInt_lt {a : Octets} {v : ℤ} (h : a.Represents v) (hne : a ≠ ofInt v) :
    (ofInt v).length < a.length := by
  induction a with
  | nil => exact absurd rfl h.ne_nil
  | cons x b ih =>
    obtain ⟨-, hv⟩ := represents_iff.mp h
    -- Octets that cannot be shortened are those that are written, so these can.
    have hpad : Der.Element.isPadded (x :: b) = true := by
      by_contra hpad
      apply hne
      rw [← hv, ofInt_toInt h.ne_nil (Bool.eq_false_of_not_eq_true hpad)]
    cases b with
    | nil => cases hpad
    | cons y b =>
      have hrest : Represents (y :: b) v :=
        represents_iff.mpr ⟨by simp, (toInt_of_padded hpad).symm.trans hv⟩
      by_cases heq : y :: b = ofInt v
      · rw [← heq]
        exact Nat.lt_succ_self _
      · exact (ih hrest heq).trans (Nat.lt_succ_self _)

end Octets

open Der Outcome

/-- A writer of numbers and an interpreter of elements agree on the shortest two's complement form
of each number. -/
structure CanonicalNumbers (type : Universal) (write : ℤ → Octets)
    (interpret : Element → Except Fault ℤ) : Prop where
  /-- A number is written as an element of the type. -/
  written : ∀ v, write v = encode type.tag (Octets.ofInt v)
  /-- The content of this element represents the number. -/
  represents : ∀ v, (Octets.ofInt v).Represents v
  /-- Every other content that represents the number is longer. -/
  shortest : ∀ {v : ℤ} {content : Octets}, content.Represents v → content ≠ Octets.ofInt v →
    (Octets.ofInt v).length < content.length
  /-- A number whose content is short enough has one form. -/
  oneForm : OneForm write (fun v => (Octets.ofInt v).length < 2 ^ 32) (Cursor.read interpret)
  /-- Different numbers are written differently. -/
  injective : Function.Injective write

/-- The numbers of either type are canonical. -/
lemma Der.Universal.canonicalNumbers (type : Universal) :
    CanonicalNumbers type (fun v => encode type.tag (Octets.ofInt v))
      (Element.toNumber type) := by
  refine ⟨fun _ => rfl, Octets.represents_ofInt, Octets.length_ofInt_lt, ?_, ?_⟩
  · refine OneForm.of ?_ ?_ ?_
    · intro v
      exact List.length_pos_of_ne_nil (Item.number type v).octets_ne_nil
    · intro c c' v hc
      rw [Cursor.read_eq_ok_iff hc]
      constructor
      · rintro ⟨i, hi, hadv, hv⟩
        obtain rfl := Element.toNumber_eq_ok_iff.mp hv
        exact ⟨hi.length_lt, hadv⟩
      · rintro ⟨hlength, hadv⟩
        refine ⟨Item.number type v, ⟨?_, hlength⟩, hadv, Element.toNumber_eq_ok_iff.mpr rfl⟩
        exact Item.number_lt_of_ofType type _
    · intro c hc
      refine (Cursor.parts_ends (Cursor.partOf_self hc)).bind fun read hread => ?_
      exact (Element.toNumber_ends hread.1 type).bind fun _ _ => trivial
  · intro v w h
    exact Octets.ofInt_injective (Item.content_eq_of_octets_eq h)

/-- INTEGER and ENUMERATED are canonical two's complement, in writing as in reading. -/
theorem numbers_canonical :
    CanonicalNumbers .integer encodeInteger Element.toInteger ∧
      CanonicalNumbers .enumerated encodeEnumerated Element.toEnumerated :=
  ⟨Universal.canonicalNumbers .integer, Universal.canonicalNumbers .enumerated⟩

/-- A number that needs a second octet for its sign is read in the middle of an input, and its two
octets are the fewest. -/
theorem numbers_canonical_between :
    (Cursor.between [7, 2, 2, 0, 128, 7] 1 6).read Element.toInteger =
        .ok (128, Cursor.between [7, 2, 2, 0, 128, 7] 5 6) ∧
      (Octets.ofInt 128).length < ([0, 0, 128] : Octets).length := by
  obtain ⟨hinteger, -⟩ := numbers_canonical
  constructor
  · apply (hinteger.oneForm.reads (by decide) (by decide)).mpr
    exact ⟨by decide, by decide +kernel, by decide +kernel⟩
  · apply hinteger.shortest
    · exact Octets.represents_iff.mpr ⟨by decide, by decide⟩
    · decide +kernel

end AttestedKey
