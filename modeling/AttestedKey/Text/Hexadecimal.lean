/-!
# Hexadecimal notation

Numbers in messages that bound a range or are read as bits are written in base 16, with
lower-case digits.  `hexadecimal` and `hexadecimalInt` put the usual mark in front;
`paddedHexadecimal` writes the digits alone, in a given width.
-/

namespace AttestedKey.Text

/-- The digits of a number in base 16. -/
def hexDigits (n : Nat) : List Char := Nat.toDigits 16 n

/-- A natural number in hexadecimal, with the mark in front. -/
def hexadecimal (n : Nat) : String := "0x" ++ String.ofList (hexDigits n)

/-- An integer in hexadecimal, with the sign before the mark. -/
def hexadecimalInt : Int → String
  | .ofNat n => hexadecimal n
  | .negSucc n => "-" ++ hexadecimal (n + 1)

/-- A number in hexadecimal without the mark, with zeros in front up to the given width. -/
def paddedHexadecimal (width n : Nat) : String :=
  let digits := hexDigits n
  String.ofList (List.replicate (width - digits.length) '0' ++ digits)

end AttestedKey.Text
