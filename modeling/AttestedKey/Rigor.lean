import AttestedKey.Text.Blank

/-!
# Strict and lenient reading

A tag or a number outside the known lists is an error in strict mode and kept as it is in
lenient mode.  `Rigor.resolve` picks the mode of one reading: an explicit wish comes before
the options, and the options before the environment.  An environment flag is off when its
text is one of five words (`offWords`), whatever blanks stand around it and whatever the case
of its letters, and on otherwise.
-/

namespace AttestedKey

/-- What happens to a tag or a number outside the known lists. -/
inductive Rigor
  /-- It is refused. -/
  | strict
  /-- It is kept as it is. -/
  | lenient
  deriving DecidableEq, Repr

namespace Rigor

/-- Strict exactly if asked to be. -/
def ofBool : Bool → Rigor
  | true => .strict
  | false => .lenient

/-- The characters that count as blanks around the text of a flag: those with the white-space
property, and the four information separators. -/
def isBlank (c : Char) : Bool := Text.isBlank c || (28 ≤ c.toNat && c.toNat ≤ 31)

/-- The words that switch a flag off.  No letter outside ASCII has a lower-case form among
their letters, so it is enough to lower the ASCII ones. -/
def offWords : List String := ["", "0", "false", "off", "no"]

/-- The text of a flag without the blanks around it, in lower case. -/
def normalize (text : String) : String :=
  let inner := (text.toList.dropWhile isBlank).reverse.dropWhile isBlank
  String.ofList (inner.reverse.map Char.toLower)

/-- The mode that the environment asks for: lenient when the flag is not set. -/
def ofEnvironment : Option String → Rigor
  | none => .lenient
  | some text => ofBool (!offWords.contains (normalize text))

/-- The mode of one reading: an explicit wish, else the options, else the environment. -/
def resolve (wish : Option Bool) (options : Option Rigor) (environment : Option String) :
    Rigor :=
  match wish, options with
  | some asked, _ => ofBool asked
  | none, some rigor => rigor
  | none, none => ofEnvironment environment

end Rigor

end AttestedKey
