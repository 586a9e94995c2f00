import AttestedKey.Fault

/-!
# Numbers that cannot be written

A number outside the range of its field is refused when it is written.  A `RangeError` says
which field, which number, and on which side it lies outside, unless the number is too long to
be shown, and then it says only that.  `checkRange` lets the numbers of a range pass.
-/

namespace AttestedKey

/-- The side on which a number lies outside its range. -/
inductive Excess
  /-- It is below zero. -/
  | negative
  /-- It is above the given maximum. -/
  | above (maximum : Nat)
  deriving DecidableEq, Repr

/-- Why a number cannot be written. -/
inductive RangeError
  /-- The number lies outside the range of its field, on the given side. -/
  | outside (field : String) (value : Int) (excess : Excess)
  /-- The number lies outside the range of its field, and it is too long to be shown. -/
  | unprintable
  deriving DecidableEq, Repr

namespace RangeError

/-- The error for a number that its field cannot hold. -/
@[irreducible]
def of (field : String) (value : Int) (excess : Excess) : RangeError :=
  if Text.HasNumeral value then .outside field value excess else .unprintable

/-- The text of a range error. -/
def message : RangeError → String
  | .outside field value .negative => s!"{field}: {value} is negative"
  | .outside field value (.above maximum) =>
    s!"{field}: {value} exceeds {Text.hexadecimal maximum}"
  | .unprintable => Text.tooManyDigits

end RangeError

/-- The largest number of 32 bits. -/
def uint32Max : Nat := 0xFFFFFFFF

/-- The largest number of 64 bits. -/
def uint64Max : Nat := 0xFFFFFFFFFFFFFFFF

/-- Lets a number pass that is not negative. -/
def checkNatural (field : String) (value : Int) : Except RangeError Nat :=
  match value with
  | .ofNat n => .ok n
  | .negSucc _ => .error (.of field value .negative)

/-- Lets a number pass that lies between zero and a maximum. -/
def checkRange (field : String) (maximum : Nat) (value : Int) : Except RangeError Int :=
  if value < 0 then .error (.of field value .negative)
  else if (maximum : Int) < value then .error (.of field value (.above maximum))
  else .ok value

/-- A number passes if it lies in the range. -/
theorem checkRange_eq_ok_iff {field : String} {maximum : Nat} {value result : Int} :
    checkRange field maximum value = .ok result ↔
      0 ≤ value ∧ value ≤ maximum ∧ result = value := by
  unfold checkRange
  split
  · simp only [reduceCtorEq, false_iff]
    omega
  · split
    · simp only [reduceCtorEq, false_iff]
      omega
    · simp only [Except.ok.injEq]
      omega

end AttestedKey
