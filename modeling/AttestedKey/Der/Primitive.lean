import AttestedKey.Der.Element

/-!
# The values of elements

Each function of this file checks the tag of an element and makes a value of its content:
`toInteger`, `toEnumerated`, `toOctets`, `toBoolean`, `toNull`.  A sequence or a set becomes
the region of its content (`toSequence`, `toSet`) or the list of its elements (`parts?`), for
those who do not ask what is wrong with them.  `ofType` and `ofExplicit` only check the
tag.  With `Cursor.read` they become readers at a cursor.
-/

namespace AttestedKey.Der.Element

/-- An element of a universal type. -/
def ofType (type : Universal) (e : Element) : Except Fault Element :=
  if e.tag = type.tag then
    .ok e
  else
    malformedAt e.offset (.unexpectedType type e.tag)

/-- An explicit wrapper, with a given number if one is asked for. -/
def ofExplicit (number : Option Int) (e : Element) : Except Fault Element :=
  if e.tag.isExplicit then
    match number with
    | none => .ok e
    | some n =>
      if (e.tag.number : Int) = n then .ok e
      else malformedNumberAt e.offset n (.otherExplicit n e.tag)
  else
    malformedAt e.offset (.notExplicit e.tag)

/-- Whether the first of some octets could be left out of a number in two's complement. -/
def isPadded : Octets → Bool
  | first :: second :: _ => (first == 0 && second < 128) || (first == 255 && 128 ≤ second)
  | _ => false

/-- The number in the content of an element of the given type. -/
def toNumber (type : Universal) (e : Element) : Except Fault Int := do
  let e ← e.ofType type
  if e.content.isEmpty then
    malformedAt e.offset (.emptyNumber type)
  else if isPadded e.content then
    malformedAt e.offset (.paddedNumber type)
  else
    return Octets.toInt e.content

/-- The value of an INTEGER. -/
def toInteger (e : Element) : Except Fault Int := e.toNumber .integer

/-- The value of an ENUMERATED. -/
def toEnumerated (e : Element) : Except Fault Int := e.toNumber .enumerated

/-- The value of an INTEGER between zero and a maximum. -/
def toUnsigned (field : String) (maximum : Nat) (e : Element) : Except Fault Int := do
  let value ← e.toInteger
  if value < 0 ∨ (maximum : Int) < value then
    malformedNumberAt e.offset value (.outsideRange field value maximum)
  else
    return value

/-- The content of an OCTET STRING. -/
def toOctets (e : Element) : Except Fault Octets := do
  let e ← e.ofType .octetString
  return e.content

/-- The region inside an OCTET STRING that wraps an encoding. -/
def toWrapped (e : Element) : Except Fault Cursor := do
  let e ← e.ofType .octetString
  return e.inside

/-- The value of a BOOLEAN.  Any octet but zero stands for true. -/
def toBoolean (e : Element) : Except Fault Bool := do
  let e ← e.ofType .boolean
  if e.length = 1 then
    match e.content with
    | [] => throw .missingByte
    | octet :: _ => return octet != 0
  else
    malformedAt e.offset .booleanLength

/-- Checks a NULL. -/
def toNull (e : Element) : Except Fault Unit := do
  let e ← e.ofType .null
  if e.length = 0 then
    return ()
  else
    malformedAt e.offset .nullNotEmpty

/-- The region inside a SEQUENCE. -/
def toSequence (e : Element) : Except Fault Cursor := do
  let e ← e.ofType .sequence
  return e.inside

/-- The region inside a SET. -/
def toSet (e : Element) : Except Fault Cursor := do
  let e ← e.ofType .set
  return e.inside

/-- The elements inside an element of a universal type, if its content consists of elements. -/
def parts? (type : Universal) (e : Element) : Option (List Element) := do
  guard (e.tag = type.tag)
  e.inside.walk.complete.toOption

/-- An element has a required type if it has the tag of that type. -/
theorem ofType_eq_ok_iff {type : Universal} {e e' : Element} :
    e.ofType type = .ok e' ↔ e.tag = type.tag ∧ e' = e := by
  unfold ofType malformedAt
  split <;> simp_all [eq_comm]

end AttestedKey.Der.Element
