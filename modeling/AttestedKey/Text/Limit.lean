/-!
# Numbers that are too long

A numeral has at most `maxDigits` digits.  Longer ones are not read, and a number that would
need more of them is not written into a message either.  `HasNumeral` says of a number that it
can stand in a message, and `tooManyDigits` is the text of the failure that there is instead.
-/

namespace AttestedKey.Text

/-- The largest number of digits in a numeral. -/
def maxDigits : Nat := 4300

/-- A number that can be written with so many digits.  Its sign does not count. -/
def HasNumeral (n : Int) : Prop := n.natAbs < Nat.pow 10 maxDigits

instance : DecidablePred HasNumeral := fun n => inferInstanceAs (Decidable (n.natAbs < _))

/-- The text of the failure to write a number that is too long. -/
def tooManyDigits : String :=
  s!"Exceeds the limit ({maxDigits} digits) for integer string conversion; " ++
    "use sys.set_int_max_str_digits() to increase the limit"

end AttestedKey.Text
