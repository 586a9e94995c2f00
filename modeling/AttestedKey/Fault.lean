import AttestedKey.Der.Tag
import AttestedKey.Text.Hexadecimal
import AttestedKey.Text.Limit
import AttestedKey.Vocabulary

/-!
# What can be wrong with an input

Reading ends in a value or in a `Fault`.  A fault is a `Malformation`, which says how the
input breaks the encoding rules or the structure of an attestation record, or something
`Unrecognised`, which only strict reading objects to, or a byte that a bound promised and the
input does not have.  The first two carry the offset at which the input goes wrong.
`Fault.message` gives the text of a fault and `Malformation.expected` what should have stood
there.

Some texts show a number of the input, which may have any length.  Where it is too long to be
written, the reading ends in a fault that says only that (`Fault.showing`).
-/

namespace AttestedKey

/-- A way in which an input is not what it should be. -/
inductive Malformation
  /-- The region ends where a tag should begin. -/
  | missingTag
  /-- The region ends within the number of a tag. -/
  | truncatedTagNumber
  /-- The number of a tag begins with a zero digit. -/
  | paddedTagNumber
  /-- The number of a tag has more than four digits. -/
  | tagNumberTooLarge
  /-- The long form is used for a number that the short form can hold. -/
  | longFormTagNumber
  /-- The region ends where or within a length. -/
  | truncatedLength
  /-- The length is left open. -/
  | indefiniteLength
  /-- The length has more than four digits. -/
  | lengthTooLarge
  /-- The length begins with a zero digit. -/
  | paddedLength
  /-- The long form is used for a length that the short form can hold. -/
  | longFormLength
  /-- The content reaches past the end of the region. -/
  | overrun (tag : Der.Tag) (length : Nat)
  /-- Another type stands where one is required. -/
  | unexpectedType (required : Der.Universal) (found : Der.Tag)
  /-- A number has no content. -/
  | emptyNumber (type : Der.Universal)
  /-- A number has a first octet that it could do without. -/
  | paddedNumber (type : Der.Universal)
  /-- The content of a truth value is not one octet. -/
  | booleanLength
  /-- The content of a null is not empty. -/
  | nullNotEmpty
  /-- An explicit wrapper is required. -/
  | notExplicit (found : Der.Tag)
  /-- An explicit wrapper with another number is required. -/
  | otherExplicit (number : Int) (found : Der.Tag)
  /-- A number lies outside the range of its field. -/
  | outsideRange (field : String) (value : Int) (maximum : Nat)
  /-- The verified boot state is negative. -/
  | negativeState (value : Int)
  /-- A version or a security level is negative. -/
  | negativeField (field : String) (value : Int)
  /-- Something follows the one value that the input should hold. -/
  | trailingData (structureName : String)
  /-- A structure has an element too many. -/
  | surplusElement (structureName : String)
  /-- A number occurs twice in a set. -/
  | repeatedNumber (field : String) (value : Int)
  /-- A package occurs twice in a set. -/
  | repeatedPackage
  /-- A digest occurs twice in a set. -/
  | repeatedDigest
  /-- A package name is not UTF-8. -/
  | packageNameText
  /-- A tag occurs twice in an authorization list. -/
  | repeatedTag (number : Nat)
  /-- An explicit wrapper holds more than one element. -/
  | crowdedWrapper (number : Nat) (expected : String)
  /-- The raw content given for a tag holds more than one element. -/
  | crowdedContent (number : Nat)
  /-- A key description does not have eight elements. -/
  | elementCount (found : Nat)
  /-- A failure that has only a text. -/
  | stray (text : String)
  deriving DecidableEq, Repr

namespace Malformation

/-- The text of a malformation. -/
def message : Malformation → String
  | .missingTag => "Truncated DER element: missing tag"
  | .truncatedTagNumber => "Truncated high tag number"
  | .paddedTagNumber => "Non-minimal high tag number"
  | .tagNumberTooLarge => "Tag number too large"
  | .longFormTagNumber => "High tag number form used for a low tag number"
  | .truncatedLength => "Invalid DER length: truncated data"
  | .indefiniteLength => "Indefinite length DER encodings are not supported"
  | .lengthTooLarge => "DER length too large"
  | .paddedLength => "Non-minimal DER length"
  | .longFormLength => "Long form DER length used for a short length"
  | .overrun tag length => s!"{tag.describe} of length {length} overruns its container"
  | .unexpectedType required found => s!"Expected {required.name}, found {found.describe}"
  | .emptyNumber type => s!"{type.name} has no content"
  | .paddedNumber type => s!"{type.name} has redundant leading bytes"
  | .booleanLength => "BOOLEAN must have exactly one content byte"
  | .nullNotEmpty => "NULL must be empty"
  | .notExplicit found => s!"Expected explicit context tag, found {found.describe}"
  | .otherExplicit number found =>
    s!"Expected explicit tag [{number}], found {found.describe}"
  | .outsideRange field value maximum =>
    s!"{field} value {value} is outside 0..{Text.hexadecimal maximum}"
  | .negativeState value => s!"verified_boot_state value {value} is negative"
  | .negativeField field value => s!"{field} {value} is negative"
  | .trailingData structureName => s!"Trailing data after {structureName}"
  | .surplusElement structureName => s!"Unexpected trailing element in {structureName}"
  | .repeatedNumber field value => s!"Duplicate {field} value {value} in SET OF"
  | .repeatedPackage => "Duplicate AttestationPackageInfo in SET OF"
  | .repeatedDigest => "Duplicate signature digest in SET OF"
  | .packageNameText => "Package name is not valid UTF-8"
  | .repeatedTag number => s!"Duplicate authorization tag [{number}]"
  | .crowdedWrapper number _ => s!"Explicit tag [{number}] must wrap exactly one element"
  | .crowdedContent number => s!"Content of tag [{number}] must be exactly one element"
  | .elementCount found => s!"KeyDescription must have 8 elements, found {found}"
  | .stray text => text

/-- What should have stood at the offset of a malformation, where that can be said. -/
def expected : Malformation → Option String
  | .missingTag | .truncatedTagNumber | .paddedTagNumber | .tagNumberTooLarge
  | .longFormTagNumber => some "tag"
  | .truncatedLength | .indefiniteLength | .lengthTooLarge | .paddedLength
  | .longFormLength => some "length"
  | .overrun tag _ => some tag.describe
  | .unexpectedType required _ => some required.name
  | .emptyNumber type | .paddedNumber type => some type.name
  | .booleanLength => some "BOOLEAN"
  | .nullNotEmpty => some "NULL"
  | .notExplicit _ => some "explicit tag"
  | .otherExplicit number _ => some s!"[{number}]"
  | .outsideRange field _ _ => some field
  | .negativeState _ => some "verified_boot_state"
  | .negativeField field _ => some field
  | .trailingData _ => none
  | .surplusElement structureName => some s!"end of {structureName}"
  | .repeatedNumber field _ => some field
  | .repeatedPackage => some "package_infos"
  | .repeatedDigest => some "signature_digests"
  | .packageNameText => some "package_name"
  | .repeatedTag number => some s!"[{number}]"
  | .crowdedWrapper _ expected => some expected
  | .crowdedContent _ => none
  | .elementCount _ => some "KeyDescription"
  | .stray _ => none

end Malformation

/-- A tag or a number outside the known lists. -/
inductive Unrecognised
  /-- A tag of an authorization list. -/
  | tag (number : Nat)
  /-- A number that names no member of its list. -/
  | code (vocabulary : Vocabulary) (value : Int) (field : String) (tag : Option Int)
  /-- A number that names no security level. -/
  | securityLevel (vocabulary : Vocabulary) (value : Int) (field : String) (tag : Option Int)
  /-- Bits of an authenticator mask that stand for no authenticator. -/
  | authenticatorBits (mask leftover : Int) (tag : Option Int)
  deriving DecidableEq, Repr

namespace Unrecognised

/-- The text for something unrecognised. -/
def message : Unrecognised → String
  | .tag n => s!"Unknown authorization tag [{n}]"
  | .code vocabulary value field _ | .securityLevel vocabulary value field _ =>
    s!"Unknown {vocabulary.title} value {value} for {field}"
  | .authenticatorBits _ leftover _ =>
    s!"Unknown user_auth_type bits {Text.hexadecimalInt leftover}"

/-- The tag at which it stands. -/
def tag? : Unrecognised → Option Int
  | .tag n => some n
  | .code _ _ _ t | .securityLevel _ _ _ t | .authenticatorBits _ _ t => t

/-- The field at which it stands. -/
def field? : Unrecognised → Option String
  | .tag _ => none
  | .code _ _ field _ | .securityLevel _ _ field _ => some field
  | .authenticatorBits _ _ _ => some "user_auth_type"

/-- The number that stands there. -/
def value? : Unrecognised → Option Int
  | .tag _ => none
  | .code _ value _ _ | .securityLevel _ value _ _ => some value
  | .authenticatorBits mask _ _ => some mask

/-- The number of any length that the text shows by its decimal digits.  Tags are short, and
bits are shown in hexadecimal. -/
def shown? : Unrecognised → Option Int
  | .tag _ | .authenticatorBits _ _ _ => none
  | .code _ value _ _ | .securityLevel _ value _ _ => some value

end Unrecognised

/-- Why an input cannot be read. -/
inductive Fault
  /-- The input breaks the encoding or the structure. -/
  | malformed (cause : Malformation) (offset : Option Nat)
  /-- Strict reading has met something unknown, at an offset that the caller has given. -/
  | unrecognised (what : Unrecognised) (offset : Option Int)
  /-- A byte within the bound lies past the end of the input. -/
  | missingByte
  /-- There is something wrong with a number that is too long to be shown. -/
  | unprintable
  deriving DecidableEq, Repr

namespace Fault

/-- A text, with the offset behind it if there is one. -/
def located (text : String) : Option Int → String
  | none => text
  | some offset => s!"{text} (at offset {offset})"

/-- The text of a fault. -/
def message : Fault → String
  | .malformed cause offset => located cause.message (offset.map Int.ofNat)
  | .unrecognised what offset => located what.message offset
  | .missingByte => "index out of range"
  | .unprintable => Text.tooManyDigits

/-- The offset of a fault. -/
def offset? : Fault → Option Int
  | .malformed _ offset => offset.map Int.ofNat
  | .unrecognised _ offset => offset
  | .missingByte | .unprintable => none

/-- A fault whose text shows a number.  If the number is too long for that, this is all that
is said. -/
@[irreducible]
def showing (number : Int) (fault : Fault) : Fault :=
  if Text.HasNumeral number then fault else .unprintable

/-- The refusal of something unrecognised. -/
def refusal (what : Unrecognised) (offset : Option Int) : Fault :=
  match what.shown? with
  | none => .unrecognised what offset
  | some number => .showing number (.unrecognised what offset)

/-- Something whose text shows a number is refused as unrecognised, if the number is short
enough. -/
theorem refusal_of_shown?_eq_some {what : Unrecognised} {offset : Option Int} {number : Int}
    (h : what.shown? = some number) :
    refusal what offset = .showing number (.unrecognised what offset) := by
  unfold refusal
  rw [h]

end Fault

/-- A reading that ends in a malformation at an offset. -/
def malformedAt {α : Type} (offset : Nat) (cause : Malformation) : Except Fault α :=
  .error (.malformed cause (some offset))

/-- A reading that ends in a malformation at an offset, whose text shows a number. -/
def malformedNumberAt {α : Type} (offset : Nat) (number : Int) (cause : Malformation) :
    Except Fault α :=
  .error (.showing number (.malformed cause (some offset)))

/-- A failure from outside the format, known by its text. -/
inductive Stray
  /-- A byte past the end was asked for. -/
  | pastTheEnd (text : String)
  /-- Octets that should be UTF-8 are not. -/
  | notText (text : String)
  deriving DecidableEq, Repr

namespace Stray

/-- A stray failure is reported as a malformed input without a place. -/
def toFault : Stray → Fault
  | .pastTheEnd text | .notText text => .malformed (.stray text) none

end Stray

end AttestedKey
