import AttestedKey.Der.Tag
import AttestedKey.Octets
import AttestedKey.RangeError

/-!
# Writing elements

Writers always produce the shortest definite form.  `Tag.encode` and `Length.encode` write
the header, `encode` a whole element with a given content, and the functions after it the
elements of the universal types.  `encodeSet` writes its members in ascending order of their
octets, as a set is required to be written.  The number of an explicit wrapper that is given
from outside may be negative; `encodeExplicitInt` refuses it.
-/

namespace AttestedKey.Der

namespace Tag

/-- The base-128 digits of a number, most significant first; zero has none. -/
def digits (n : Nat) : List Nat :=
  if n = 0 then [] else digits (n / 128) ++ [n % 128]

/-- Marks every digit but the last. -/
def marked : List Nat → Octets
  | [] => []
  | [last] => [UInt8.ofNat last]
  | digit :: rest => UInt8.ofNat (128 + digit) :: marked rest

/-- Writes an identifier. -/
def encode (t : Tag) : Octets :=
  let first := t.tagClass.code * 64 + (if t.constructed then 32 else 0)
  if t.number < 31 then
    [UInt8.ofNat (first + t.number)]
  else
    UInt8.ofNat (first + 31) :: marked (digits t.number)

end Tag

namespace Length

/-- Writes a length.  The first octet of the long form counts the octets after it. -/
def encode (length : Nat) : Octets :=
  if length < 128 then
    [UInt8.ofNat length]
  else
    let digits := Octets.ofNat length
    UInt8.ofNat (128 + digits.length % 128) :: digits

end Length

/-- Writes an element. -/
def encode (tag : Tag) (content : Octets) : Octets :=
  tag.encode ++ Length.encode content.length ++ content

/-- Writes an INTEGER. -/
def encodeInteger (value : Int) : Octets := encode Universal.integer.tag (Octets.ofInt value)

/-- Writes an ENUMERATED. -/
def encodeEnumerated (value : Int) : Octets :=
  encode Universal.enumerated.tag (Octets.ofInt value)

/-- Writes an OCTET STRING. -/
def encodeOctets (value : Octets) : Octets := encode Universal.octetString.tag value

/-- Writes a BOOLEAN. -/
def encodeBoolean (value : Bool) : Octets :=
  encode Universal.boolean.tag [if value then 255 else 0]

/-- Writes a NULL. -/
def encodeNull : Octets := encode Universal.null.tag []

/-- Writes a SEQUENCE of elements that are written already. -/
def encodeSequence (parts : List Octets) : Octets :=
  encode Universal.sequence.tag parts.flatten

/-- Octet strings in ascending order, each as often as before. -/
def sortedParts (parts : List Octets) : List Octets :=
  parts.mergeSort (fun a b => (compare a b).isLE)

/-- Writes a SET OF elements that are written already. -/
def encodeSet (parts : List Octets) : Octets :=
  encode Universal.set.tag (sortedParts parts).flatten

/-- Writes an explicit wrapper around an element that is written already. -/
def encodeExplicit (number : Nat) (inner : Octets) : Octets :=
  encode (.explicit number) inner

/-- The name of a tag number in messages. -/
def numberName : String := "tag number"

/-- Writes an explicit wrapper whose number may be negative. -/
def encodeExplicitInt (number : Int) (inner : Octets) : Except RangeError Octets := do
  let number ← checkNatural numberName number
  return encodeExplicit number inner

/-- Sorting parts loses and adds none. -/
theorem sortedParts_perm (parts : List Octets) : (sortedParts parts).Perm parts :=
  List.mergeSort_perm ..

end AttestedKey.Der
