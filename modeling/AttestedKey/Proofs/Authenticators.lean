import AttestedKey.Authenticators
import AttestedKey.Proofs.OrderedSet
import AttestedKey.RangeError
import Mathlib.Data.Int.Bitwise
import Mathlib.Tactic

/-!
# Masks and sets of authenticators

An integer is determined by its bits in two's complement, and `bitOr` joins bits, as the
disjunction of the library does (`bitOr_eq_lor`).  So the mask of a collection of numbers depends on
its members only (`mask_eq_of_mem`), and the set that a mask stands for has that mask again
(`mask_codes_ofMask`): `Authenticators.ofMask` loses nothing, whatever the size and the sign of the
mask.  The last part says which masks stand for sets in which every member has a name.
-/

namespace AttestedKey

/-! ### Bits of integers -/

/-- The lowest bit is the remainder by two. -/
lemma testBit_zero (m : ℤ) : m.testBit 0 = decide (m % 2 = 1) := by
  have hbit := Int.testBit_bit_zero m.bodd m.div2
  have hval := Int.bodd_add_div2 m
  rw [Int.bit_decomp] at hbit
  rw [hbit, eq_comm]
  cases hodd : m.bodd with
  | false =>
    rw [hodd, cond_false] at hval
    exact decide_eq_false (by omega)
  | true =>
    rw [hodd, cond_true] at hval
    exact decide_eq_true (by omega)

/-- The bits above the lowest are those of the half. -/
lemma testBit_succ (m : ℤ) (k : ℕ) : m.testBit (k + 1) = (m / 2).testBit k := by
  have hbit := Int.testBit_bit_succ k m.bodd m.div2
  rwa [Int.bit_decomp, Int.div2_val] at hbit

/-- From some bit on, all bits of an integer say its sign. -/
lemma exists_testBit_eq_sign (m : ℤ) : ∃ k, ∀ l, k ≤ l → m.testBit l = decide (m < 0) := by
  cases m with
  | ofNat n =>
    refine ⟨n, fun l hl => ?_⟩
    have hlt : n < 2 ^ l := lt_of_lt_of_le Nat.lt_two_pow_self (Nat.pow_le_pow_right two_pos hl)
    change n.testBit l = _
    rw [Nat.testBit_lt_two_pow hlt, eq_comm, decide_eq_false_iff_not, Int.ofNat_eq_natCast]
    omega
  | negSucc n =>
    refine ⟨n, fun l hl => ?_⟩
    have hlt : n < 2 ^ l := lt_of_lt_of_le Nat.lt_two_pow_self (Nat.pow_le_pow_right two_pos hl)
    change (!n.testBit l) = _
    rw [Nat.testBit_lt_two_pow hlt, Bool.not_false, eq_comm, decide_eq_true_iff]
    omega

/-- Integers with the same bits are the same. -/
theorem eq_of_testBit_eq {a b : ℤ} (h : ∀ k, a.testBit k = b.testBit k) : a = b := by
  -- The signs agree, since far enough up all bits are that of the sign.
  obtain ⟨k, hk⟩ := exists_testBit_eq_sign a
  obtain ⟨l, hl⟩ := exists_testBit_eq_sign b
  have hsign : decide (a < 0) = decide (b < 0) := by
    rw [← hk _ (le_max_left k l), ← hl _ (le_max_right k l), h]
  cases a with
  | ofNat m =>
    cases b with
    | ofNat n => exact congrArg Int.ofNat (Nat.eq_of_testBit_eq h)
    | negSucc n =>
      rw [decide_eq_decide, Int.ofNat_eq_natCast] at hsign
      omega
  | negSucc m =>
    cases b with
    | ofNat n =>
      rw [decide_eq_decide, Int.ofNat_eq_natCast] at hsign
      omega
    | negSucc n =>
      refine congrArg Int.negSucc (Nat.eq_of_testBit_eq fun k => ?_)
      have hbit : (!m.testBit k) = !n.testBit k := h k
      simpa using hbit

/-- The bits that another number does not have and those that it has make up a number. -/
lemma ldiff_add_land (n m : ℕ) : Nat.ldiff n m + (n &&& m) = n := by
  -- Bit by bit: of each bit, one of the two parts has it and the other one has not.
  induction n using Nat.binaryRec generalizing m with
  | zero =>
    rw [Nat.zero_and, Nat.add_zero]
    exact Nat.eq_of_testBit_eq fun k => by simp [Nat.testBit_ldiff]
  | bit b n ih =>
    have hland := Nat.land_bit b n m.bodd m.div2
    have hldiff := Nat.ldiff_bit b n m.bodd m.div2
    rw [Nat.bit_bodd_div2] at hland hldiff
    rw [hland, hldiff]
    have hrest := ih m.div2
    cases b <;> cases m.bodd <;> simp only [Nat.bit_val, Bool.and_true, Bool.and_false,
      Bool.not_true, Bool.not_false, Bool.toNat_true, Bool.toNat_false] <;> omega

/-- The disjunction is that of the library. -/
theorem bitOr_eq_lor (m n : ℤ) : bitOr m n = Int.lor m n := by
  have hldiff : ∀ m n : ℕ, n - (m &&& n) = Nat.ldiff n m := by
    intro m n
    have hsum := ldiff_add_land n m
    rw [Nat.and_comm]
    omega
  cases m with
  | ofNat m =>
    cases n with
    | ofNat n => rfl
    | negSucc n => exact congrArg Int.negSucc (hldiff m n)
  | negSucc m =>
    cases n with
    | ofNat n => exact congrArg Int.negSucc (Nat.and_comm m n ▸ hldiff n m)
    | negSucc n => rfl
/-- A number has a bit if one of the numbers that are folded into it has. -/
lemma testBit_foldl_bitOr (codes : List ℤ) (m : ℤ) (k : ℕ) :
    (codes.foldl bitOr m).testBit k = (m.testBit k || codes.any (·.testBit k)) := by
  induction codes generalizing m with
  | nil => simp
  | cons c codes ih =>
    rw [List.foldl_cons, ih, bitOr_eq_lor, Int.testBit_lor, List.any_cons, Bool.or_assoc]

/-- A disjunction stays below a power of two that both sides stay below. -/
lemma bitOr_bounds {m n : ℤ} {w : ℕ} (hm : 0 ≤ m ∧ m < 2 ^ w) (hn : 0 ≤ n ∧ n < 2 ^ w) :
    0 ≤ bitOr m n ∧ bitOr m n < 2 ^ w := by
  obtain ⟨m, rfl⟩ := Int.eq_ofNat_of_zero_le hm.1
  obtain ⟨n, rfl⟩ := Int.eq_ofNat_of_zero_le hn.1
  have hlt : m ||| n < 2 ^ w :=
    Nat.or_lt_two_pow (by exact_mod_cast hm.2) (by exact_mod_cast hn.2)
  change 0 ≤ ((m ||| n : ℕ) : ℤ) ∧ ((m ||| n : ℕ) : ℤ) < 2 ^ w
  exact ⟨Int.natCast_nonneg _, by exact_mod_cast hlt⟩

namespace Authenticators

/-! ### Masks of collections -/

/-- The mask of a collection depends on its members only. -/
theorem mask_eq_of_mem {codes codes' : List ℤ} (h : ∀ c, c ∈ codes ↔ c ∈ codes') :
    mask codes = mask codes' := by
  unfold mask
  by_cases hany : anyMask ∈ codes
  · rw [if_pos hany, if_pos ((h _).mp hany)]
  · rw [if_neg hany, if_neg fun hany' => hany ((h _).mpr hany')]
    refine eq_of_testBit_eq fun k => ?_
    rw [testBit_foldl_bitOr, testBit_foldl_bitOr]
    congr 1
    rw [Bool.eq_iff_iff, List.any_eq_true, List.any_eq_true]
    exact exists_congr fun c => and_congr_left fun _ => h c

/-- The mask of one number is the number. -/
@[simp] lemma mask_singleton (c : ℤ) : mask [c] = c := by
  unfold mask
  split
  next hany => exact List.mem_singleton.mp hany
  · refine eq_of_testBit_eq fun k => ?_
    rw [testBit_foldl_bitOr, List.any_cons, List.any_nil, Bool.or_false]
    simp [Int.testBit]

/-- The mask of numbers of 32 bits has 32 bits. -/
lemma mask_bounds {codes : List ℤ} (h : ∀ c ∈ codes, 0 ≤ c ∧ c ≤ uint32Max) :
    0 ≤ mask codes ∧ mask codes ≤ uint32Max := by
  have hfold : ∀ m : ℤ, (0 ≤ m ∧ m < 2 ^ 32) →
      0 ≤ codes.foldl bitOr m ∧ codes.foldl bitOr m < 2 ^ 32 := by
    induction codes with
    | nil => exact fun m hm => hm
    | cons c codes ih =>
      intro m hm
      obtain ⟨h0, hmax⟩ := h c (List.mem_cons_self ..)
      have hc : 0 ≤ c ∧ c < 2 ^ 32 := ⟨h0, by simp only [uint32Max] at hmax; omega⟩
      exact ih (fun d hd => h d (List.mem_cons_of_mem _ hd)) _ (bitOr_bounds hm hc)
  unfold mask
  split
  · decide
  · obtain ⟨h0, hlt⟩ := hfold 0 (by decide)
    exact ⟨h0, by simp only [uint32Max]; omega⟩

/-! ### Sets of masks -/

/-- The number of a member with a name is the one in its list. -/
lemma code_known (member : UserAuthType) :
    (Slot.known member : Slot .userAuthType).code = (UserAuthType.code member : ℤ) := rfl

/-- The numbers of the members of a mask of neither zero nor all ones. -/
lemma map_code_parts (m : ℤ) : (parts m).map Slot.code =
    (if m % 2 = 1 then [1] else []) ++ (if m / 2 % 2 = 1 then [2] else []) ++
      (if leftover m = 0 then [] else [leftover m]) := by
  unfold parts
  split <;> split <;> split <;> simp [code_known, UserAuthType.code]

/-- The bits above the two that have a name. -/
lemma testBit_leftover (m : ℤ) (k : ℕ) :
    (leftover m).testBit k = (decide (2 ≤ k) && m.testBit k) := by
  match k with
  | 0 =>
    rw [testBit_zero, leftover]
    simp only [show ¬ 2 ≤ 0 by decide, decide_false, Bool.false_and, decide_eq_false_iff_not]
    omega
  | 1 =>
    rw [testBit_succ, testBit_zero, leftover]
    simp only [show ¬ 2 ≤ 1 by decide, decide_false, Bool.false_and, decide_eq_false_iff_not]
    omega
  | k + 2 =>
    rw [testBit_succ, testBit_succ, testBit_succ, testBit_succ, leftover,
      show (m - m % 4) / 2 / 2 = m / 2 / 2 by omega]
    simp

/-- Zero has no bits. -/
lemma not_testBit_zero (k : ℕ) : (0 : ℤ).testBit k = false := by
  change Nat.testBit 0 k = false
  exact Nat.zero_testBit k

/-- One has the lowest bit only. -/
lemma testBit_one (k : ℕ) : (1 : ℤ).testBit k = decide (k = 0) := by
  cases k with
  | zero => rfl
  | succ k => rw [testBit_succ]; exact not_testBit_zero k

/-- Two has the second bit only. -/
lemma testBit_two (k : ℕ) : (2 : ℤ).testBit k = decide (k = 1) := by
  cases k with
  | zero => rfl
  | succ k => rw [testBit_succ]; simpa using testBit_one k

/-- The parts of a mask have its bits. -/
lemma any_testBit_parts (m : ℤ) (k : ℕ) :
    ((parts m).map Slot.code).any (·.testBit k) = m.testBit k := by
  have hleft : (if leftover m = 0 then ([] : List ℤ) else [leftover m]).any (·.testBit k) =
      (leftover m).testBit k := by
    split
    next h0 => rw [h0, not_testBit_zero]; rfl
    · simp
  rw [map_code_parts, List.any_append, List.any_append, hleft, testBit_leftover]
  match k with
  | 0 =>
    rw [testBit_zero m]
    by_cases h : m % 2 = 1 <;> by_cases h' : m / 2 % 2 = 1 <;>
      simp [h, h', testBit_one, testBit_two]
  | 1 =>
    rw [testBit_succ m, testBit_zero]
    by_cases h : m % 2 = 1 <;> by_cases h' : m / 2 % 2 = 1 <;>
      simp [h, h', testBit_one, testBit_two]
  | k + 2 =>
    by_cases h : m % 2 = 1 <;> by_cases h' : m / 2 % 2 = 1 <;>
      simp [h, h', testBit_one, testBit_two]

/-- The numbers of a set are those of the list that it was made of. -/
lemma mem_codes_ofList {slots : List (Slot .userAuthType)} {c : ℤ} :
    c ∈ codes (.ofList slots) ↔ c ∈ slots.map Slot.code := by
  rw [codes, List.mem_map, List.mem_map]
  exact exists_congr fun s => and_congr_left fun _ => OrderedSet.mem_ofList

/-- No part of a mask stands for any authenticator. -/
lemma anyMask_notMem_parts (m : ℤ) : anyMask ∉ (parts m).map Slot.code := by
  rw [map_code_parts, List.mem_append, List.mem_append]
  have hleft : leftover m ≠ anyMask := by
    unfold leftover anyMask
    omega
  rintro ((h | h) | h)
  · split at h <;> simp [anyMask] at h
  · split at h <;> simp [anyMask] at h
  · split at h
    · cases h
    · exact hleft (List.mem_singleton.mp h).symm

/-- The set that a mask stands for has that mask. -/
theorem mask_codes_ofMask (m : ℤ) : mask (ofMask m).codes = m := by
  unfold ofMask
  split
  next h0 => subst h0; rw [mask_eq_of_mem fun c => mem_codes_ofList]; exact mask_singleton 0
  split
  next hany => subst hany; rw [mask_eq_of_mem fun c => mem_codes_ofList]; exact mask_singleton _
  · rw [mask_eq_of_mem fun c => mem_codes_ofList, mask, if_neg (anyMask_notMem_parts m)]
    refine eq_of_testBit_eq fun k => ?_
    rw [testBit_foldl_bitOr, any_testBit_parts, not_testBit_zero, Bool.false_or]

/-! ### Masks without unknown bits -/

/-- The bits without a name make a number without a name. -/
lemma isKnown_leftover {m : ℤ} (h : leftover m ≠ 0) :
    (Slot.ofCode .userAuthType (leftover m)).isKnown = false := by
  rw [Slot.isKnown_ofCode, Bool.eq_false_iff, Ne, Option.isSome_iff_exists]
  rintro ⟨member, hmember⟩
  have hcode := Vocabulary.code_of_ofCode? hmember
  change (UserAuthType.code member : ℤ) = leftover m at hcode
  unfold leftover at hcode h
  cases member <;> simp only [UserAuthType.code] at hcode <;> omega

/-- Every member of a set has a name exactly if its mask has no bits without one. -/
theorem forall_isKnown_ofMask (m : ℤ) :
    (∀ s ∈ (ofMask m).toList, s.isKnown = true) ↔ hasUnknown m = false := by
  unfold ofMask hasUnknown
  by_cases h0 : m = 0
  · rw [if_pos h0]
    simp [h0, OrderedSet.mem_ofList, Slot.isKnown]
  by_cases hany : m = anyMask
  · rw [if_neg h0, if_pos hany]
    simp [hany, OrderedSet.mem_ofList, Slot.isKnown]
  rw [if_neg h0, if_neg hany]
  by_cases hleft : leftover m = 0
  · simp only [hleft, OrderedSet.mem_ofList, parts, if_true, List.append_nil, bne_self_eq_false,
      Bool.and_false, iff_true]
    intro s hs
    rw [List.mem_append] at hs
    rcases hs with hs | hs
    all_goals
      split at hs
      · rw [List.mem_singleton] at hs
        subst hs
        rfl
      · cases hs
  · have hmem : Slot.ofCode .userAuthType (leftover m) ∈ parts m := by simp [parts, hleft]
    simp only [OrderedSet.mem_ofList]
    constructor
    · intro h
      have hknown := h _ hmem
      rw [isKnown_leftover hleft] at hknown
      cases hknown
    · intro h
      simp [h0, hany, hleft] at h

end Authenticators

end AttestedKey
