import AttestedKey.Text.Blank
import AttestedKey.Text.Digit
import AttestedKey.Text.Limit

/-!
# Decimal numerals

`numeral?` reads the integer that a text stands for.  A numeral has decimal digits, of any
scripts, with at most one low line between two of them, a sign in front if need be, and blanks
around it.  No other text is a numeral, and none with more digits than `maxDigits` is read.
-/

namespace AttestedKey.Text

/-- A text without the blanks around it. -/
def withoutBlanks (text : List Char) : List Char :=
  ((text.dropWhile isBlank).reverse.dropWhile isBlank).reverse

/-- Reads on in a row of digits, of which those before stand for a given number. -/
def naturalFrom (before : Nat) : List Char → Option Nat
  | [] => some before
  | '_' :: c :: rest => do
    let d ← digit? c
    naturalFrom (before * 10 + d) rest
  | c :: rest => do
    let d ← digit? c
    naturalFrom (before * 10 + d) rest

/-- Reads a row of digits, which has at least one. -/
def natural? : List Char → Option Nat
  | [] => none
  | c :: rest => do
    let d ← digit? c
    naturalFrom d rest

/-- Reads a sign, which may be missing, and a row of digits. -/
def signed? : List Char → Option Int
  | '-' :: rest => (natural? rest).map fun n => -(n : Int)
  | '+' :: rest => (natural? rest).map fun n => (n : Int)
  | rest => (natural? rest).map fun n => (n : Int)

/-- The integer that a numeral stands for. -/
def numeral? (text : List Char) : Option Int :=
  if text.countP (fun c => (digit? c).isSome) ≤ maxDigits then signed? (withoutBlanks text)
  else none

/-- A numeral of one digit stands for the value of the digit. -/
theorem natural?_singleton (c : Char) : natural? [c] = digit? c := by
  cases h : digit? c <;> simp [natural?, naturalFrom, h]

end AttestedKey.Text
