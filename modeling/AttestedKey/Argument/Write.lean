import AttestedKey.Argument
import AttestedKey.Rounding
import AttestedKey.Text.Numeral

/-!
# Writing elements from arguments

A `Writer` is one of the writers of headers and elements, and `Writer.write` applies it to
arguments of any type.  Where a writer needs an integer as it is, `Argument.toCount` gives it;
`Argument.toWhole` also cuts fractions and reads numerals, and `Argument.toContent` makes
octets out of lists and counts.  Arguments that the writer cannot use, or more or fewer than
it takes, are refused, and so are numbers that do not fit into the header.
-/

namespace AttestedKey

namespace Argument

/-- An integer.  A truth value counts as one or zero. -/
def toCount : Argument → Except Refusal Int
  | .integer value => .ok value
  | .truth value => .ok (if value then 1 else 0)
  | _ => .error .unusable

/-- A number that is not negative, for a place that has a name in messages.  A fraction is
refused for its sign first. -/
def toNatural (name : String) (a : Argument) : Except Refusal Nat := do
  if let .decimal mantissa places := a then
    if mantissa < 0 then throw (.negativeFraction name mantissa places)
  let value ← a.toCount
  (checkNatural name value).mapError .outOfRange

/-- The integer that a numeral stands for. -/
def ofNumeral (text : List Char) : Except Refusal Int :=
  match Text.numeral? text with
  | some value => .ok value
  | none => .error .unfit

/-- The number of bits to which fractions are held. -/
def fractionBits : Nat := 53

/-- The whole part of a fraction. -/
def wholePart (mantissa : Int) (places : Nat) : Int :=
  mantissa.sign * roundBits fractionBits (mantissa.natAbs / Nat.pow 10 places)

/-- An integer, the whole part of a fraction, or the number that a numeral stands for.  Octets
are a numeral only in ASCII. -/
def toWhole : Argument → Except Refusal Int
  | .decimal mantissa places => .ok (wholePart mantissa places)
  | .text value => ofNumeral value.toList
  | .octets value =>
    if value.all (· < 128) then ofNumeral (value.map fun octet => Char.ofNat octet.toNat)
    else .error .unfit
  | a => a.toCount

/-- A number that fits into one octet. -/
def toOctet (a : Argument) : Except Refusal UInt8 := do
  let value ← a.toCount
  if 0 ≤ value ∧ value < 256 then return UInt8.ofNat value.toNat else throw .unfit

/-- The largest number of zero octets that a count stands for. -/
def maxZeros : Nat := 0xFFFFFF

/-- The largest number of octets in one piece, as far as 64 bits go. -/
def maxSize : Int := 0x7FFFFFFFFFFFFFDE

/-- The smallest count that fits into 64 bits. -/
def minSize : Int := -0x8000000000000000

/-- Some zero octets. -/
def zeros (count : Int) : Except Refusal Octets :=
  if count < minSize ∨ maxSize < count then .error .tooWide
  else if count < 0 then .error .unfit
  else if maxZeros < count then .error .tooMany
  else .ok (List.replicate count.toNat 0)

/-- Octets: those given, those of a list of their numbers, or as many zeros as a count says. -/
def toContent : Argument → Except Refusal Octets
  | .octets value => .ok value
  | .list items => items.mapM toOctet
  | a => do
    let count ← a.toCount
    zeros count

/-- Octets that stand for a part which is written already. -/
def toPart : Argument → Except Refusal Octets
  | .octets value => .ok value
  | _ => .error .unusable

/-- The class of a tag by its number. -/
def toTagClass (a : Argument) : Except Refusal Der.TagClass := do
  let code ← a.toCount
  if 0 ≤ code ∧ code < 4 then return .ofCode code.toNat else throw .unfit

end Argument

/-- A writer of headers or elements. -/
inductive Writer
  | tag
  | length
  | integer
  | enumerated
  | octets
  | boolean
  | null
  | sequence
  | set
  | explicit
  deriving DecidableEq, Repr

namespace Writer

/-- The first length in the long form. -/
def longForm : Nat := 128

/-- Writes a length whose octets can be counted in the one octet before them.  Of a fraction
only the short form could be looked for. -/
def writeLength (a : Argument) : Except Refusal Octets := do
  if let .decimal mantissa places := a then
    if longForm * Nat.pow 10 places ≤ mantissa then throw .notBinary
  let length ← a.toNatural "length"
  if (Octets.ofNat length).length < 256 then return Der.Length.encode length
  else throw .unfit

/-- Applies a writer to arguments.  A sequence takes its parts one by one, a set all of them in
one collection. -/
def write : Writer → List Argument → Except Refusal Octets
  | .tag, [tagClass, constructed, number] => do
    let number ← number.toNatural Der.numberName
    let tagClass ← tagClass.toTagClass
    return Der.Tag.encode ⟨tagClass, !constructed.isVoid, number⟩
  | .length, [value] => writeLength value
  | .integer, [value] => do
    let value ← value.toWhole
    return Der.encodeInteger value
  | .enumerated, [value] => do
    let value ← value.toWhole
    return Der.encodeEnumerated value
  | .octets, [value] => do
    let value ← value.toContent
    return Der.encodeOctets value
  | .boolean, [value] => return Der.encodeBoolean !value.isVoid
  | .null, [] => return Der.encodeNull
  | .sequence, parts => do
    let parts ← parts.mapM Argument.toPart
    return Der.encodeSequence parts
  | .set, [parts] => do
    let items ← parts.items
    let parts ← items.mapM Argument.toPart
    return Der.encodeSet parts
  | .explicit, [number, inner] => do
    let number ← number.toNatural Der.numberName
    let inner ← inner.toPart
    return Der.encodeExplicit number inner
  | _, _ => throw .mismatch

end Writer

end AttestedKey
