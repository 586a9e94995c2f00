/-!
# Rounding to a number of bits

`roundBits` keeps the leading bits of a number and rounds by those that it drops, to the nearer
side, and to the even one of two equally near.
-/

namespace AttestedKey

/-- A number rounded to a multiple of a power of two, a half to the even multiple. -/
def roundMultiple (shift n : Nat) : Nat :=
  let unit := Nat.pow 2 shift
  let quotient := n / unit
  let twice := 2 * (n % unit)
  let up := unit < twice ∨ (twice = unit ∧ quotient % 2 = 1)
  (if up then quotient + 1 else quotient) * unit

/-- A number rounded to its leading bits. -/
def roundBits (bits n : Nat) : Nat :=
  if n < Nat.pow 2 bits then n else roundMultiple (n.log2 + 1 - bits) n

/-- A number that has no bits to drop stays as it is. -/
theorem roundBits_of_lt {bits n : Nat} (h : n < Nat.pow 2 bits) : roundBits bits n = n := by
  rw [roundBits, if_pos h]

/-- The rounded number is no further away than half the power of two. -/
theorem roundMultiple_near (shift n : Nat) :
    2 * n ≤ 2 * roundMultiple shift n + Nat.pow 2 shift ∧
      2 * roundMultiple shift n ≤ 2 * n + Nat.pow 2 shift := by
  unfold roundMultiple
  dsimp only
  generalize hunit : Nat.pow 2 shift = unit
  have positive : 0 < unit := hunit ▸ Nat.two_pow_pos shift
  have split := Nat.div_add_mod n unit
  have small := Nat.mod_lt n positive
  have swap : unit * (n / unit) = n / unit * unit := Nat.mul_comm ..
  split
  · rw [Nat.add_mul]
    omega
  · omega

end AttestedKey
