/-!
# Decimal fractions as text

`decimal` writes a decimal fraction with no more digits than it has.  It is positional while
the point stands no more than three zeros in front of the first digit and no more than sixteen
digits behind it; beyond that an exponent of at least two digits is written.
-/

namespace AttestedKey.Text

/-- Digits without the zeros at their end. -/
def significantDigits (n : Nat) : List Char :=
  ((Nat.toDigits 10 n).reverse.dropWhile (· == '0')).reverse

/-- Digits with the point after the given number of them. -/
def positional (digits : List Char) (point : Int) : List Char :=
  if point ≤ 0 then ['0', '.'] ++ List.replicate (-point).toNat '0' ++ digits
  else
    let whole := digits.take point.toNat
    let zeros := List.replicate (point.toNat - whole.length) '0'
    let rest := digits.drop point.toNat
    whole ++ zeros ++ ['.'] ++ (if rest.isEmpty then ['0'] else rest)

/-- An exponent with its sign and at least two digits. -/
def exponentText (exponent : Int) : List Char :=
  let digits := Nat.toDigits 10 exponent.natAbs
  (if exponent < 0 then '-' else '+') :: List.replicate (2 - digits.length) '0' ++ digits

/-- Digits with the point after the first of them and an exponent. -/
def scientific (digits : List Char) (exponent : Int) : List Char :=
  let rest := digits.drop 1
  digits.take 1 ++ (if rest.isEmpty then [] else '.' :: rest) ++ 'e' :: exponentText exponent

/-- The text of an integer whose point is moved left by some places. -/
def decimal (mantissa : Int) (places : Nat) : String :=
  let digits := significantDigits mantissa.natAbs
  let point : Int := (Nat.toDigits 10 mantissa.natAbs).length - places
  let text :=
    if mantissa = 0 then ['0', '.', '0']
    else if -4 < point ∧ point ≤ 16 then positional digits point
    else scientific digits (point - 1)
  String.ofList (if mantissa < 0 then '-' :: text else text)

end AttestedKey.Text
