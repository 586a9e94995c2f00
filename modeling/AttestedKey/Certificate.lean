import AttestedKey.Certificate.Pem
import AttestedKey.Der.Primitive

/-!
# Certificates and their extensions

Of a certificate only the version and the extensions matter here: each extension has an object
identifier and octets.  `Certificate.decode` reads a certificate from its encoding or from an
armoured text and makes sure that its parts have the form of those of a certificate; it says
nothing about the signature.  `ObjectIdentifier.toDotted?` gives an identifier in dotted
notation.
-/

namespace AttestedKey

open Der

namespace ObjectIdentifier

/-- The tag of an object identifier. -/
def tag : Tag := ⟨.universal, false, 6⟩

/-- The base-128 numbers that some octets write, where `pending` is the part of a number read
before and `fresh` says that there is none. -/
def numbers (pending : Nat) (fresh : Bool) : Octets → Option (List Nat)
  | [] => if fresh then some [] else none
  | octet :: rest =>
    let n := pending * 128 + octet.toNat % 128
    if fresh && octet == 128 then none
    else if octet < 128 then (numbers 0 true rest).map (n :: ·)
    else numbers n false rest

/-- The arcs of an identifier.  The first number stands for the first two of them. -/
def arcs? (octets : Octets) : Option (List Nat) :=
  match numbers 0 true octets with
  | some (first :: rest) =>
    let root := min (first / 40) 2
    some (root :: (first - root * 40) :: rest)
  | _ => none

/-- An identifier in dotted notation. -/
def toDotted? (octets : Octets) : Option String :=
  (arcs? octets).map fun arcs => ".".intercalate (arcs.map toString)

end ObjectIdentifier

/-- An extension of a certificate. -/
structure Extension where
  /-- What the extension is, in dotted notation. -/
  identifier : String
  /-- Its value. -/
  value : Octets
  deriving DecidableEq, Repr

namespace Extension

/-- Whether an element says that an extension is critical.  That it is not is never said. -/
def isCriticalMark (e : Element) : Bool := e.tag == Universal.boolean.tag && e.content == [255]

/-- Reads an extension: an identifier, whether it is critical unless it is not, and octets. -/
def ofElement? (e : Element) : Option Extension := do
  let parts ← e.parts? .sequence
  let (identifier, value) ←
    match parts with
    | [identifier, value] => some (identifier, value)
    | [identifier, critical, value] =>
      if isCriticalMark critical then some (identifier, value) else none
    | _ => none
  guard (identifier.tag = ObjectIdentifier.tag)
  let identifier ← ObjectIdentifier.toDotted? identifier.content
  let value ← value.toOctets.toOption
  return ⟨identifier, value⟩

end Extension

/-- What matters of a certificate. -/
structure Certificate where
  /-- Its version. -/
  version : Int
  /-- Its extensions, in their order. -/
  extensions : List Extension
  deriving DecidableEq, Repr

namespace Certificate

/-! ### The parts of a certificate -/

/-- Whether an element is an object identifier. -/
def isIdentifier (e : Element) : Bool :=
  e.tag == ObjectIdentifier.tag && (ObjectIdentifier.toDotted? e.content).isSome

/-- Whether an element names an algorithm: an identifier, and a parameter if there is one. -/
def isAlgorithm (e : Element) : Bool :=
  match e.parts? .sequence with
  | some [identifier] | some [identifier, _] => isIdentifier identifier
  | _ => false

/-- Whether an element is an attribute of a name: an identifier and a value. -/
def isAttribute (e : Element) : Bool :=
  match e.parts? .sequence with
  | some [identifier, _] => isIdentifier identifier
  | _ => false

/-- Whether an element is a set of attributes. -/
def isAttributeSet (e : Element) : Bool := (e.parts? .set).any (·.all isAttribute)

/-- Whether an element is a name. -/
def isName (e : Element) : Bool := (e.parts? .sequence).any (·.all isAttributeSet)

/-- The tags of the two forms of a time. -/
def timeTags : List Tag := [⟨.universal, false, 23⟩, ⟨.universal, false, 24⟩]

/-- Whether an element says from when until when a certificate is valid. -/
def isValidity (e : Element) : Bool :=
  match e.parts? .sequence with
  | some [start, stop] => timeTags.contains start.tag && timeTags.contains stop.tag
  | _ => false

/-- The tag of a bit string. -/
def bitStringTag : Tag := ⟨.universal, false, 3⟩

/-- Whether some octets are those of a bit string: the number of unused bits in front, and
those bits zero. -/
def areBits : Octets → Bool
  | [] => false
  | [unused] => unused == 0
  | unused :: octets => unused ≤ 7 && (octets.getLastD 0).toNat % Nat.pow 2 unused.toNat == 0

/-- Whether an element is a bit string. -/
def isBitString (e : Element) : Bool := e.tag == bitStringTag && areBits e.content

/-- Whether an element is a public key. -/
def isKey (e : Element) : Bool :=
  match e.parts? .sequence with
  | some [algorithm, bits] => isAlgorithm algorithm && isBitString bits
  | _ => false

/-- The tag of the wrapper around the version. -/
def versionTag : Tag := .explicit 0

/-- The tags of the identifiers of issuer and subject, which stand in front of the
extensions. -/
def uniqueTags : List Tag := [⟨.context, false, 1⟩, ⟨.context, false, 2⟩]

/-- The tag of the wrapper around the extensions. -/
def extensionsTag : Tag := .explicit 3

/-- The version that is meant where none is stated. -/
def firstVersion : Int := 0

/-- The versions that are in use: the first, and the one that allows for extensions. -/
def versions : List Int := [firstVersion, 2]

/-- Reads the version from its wrapper.  The first version is never stated. -/
def versionOf? (wrapper : Element) : Option Int := do
  match ← wrapper.inside.walk.complete.toOption with
  | [e] =>
    let version ← e.toInteger.toOption
    guard (firstVersion < version ∧ version < 256)
    return version
  | _ => none

/-- The version, if it is stated, and the elements after it. -/
def takeVersion : List Element → Option (Int × List Element)
  | [] => some (firstVersion, [])
  | first :: rest =>
    if first.tag = versionTag then (versionOf? first).map fun version => (version, rest)
    else some (firstVersion, first :: rest)

/-- Leaves out the identifiers of issuer and subject. -/
def dropUnique : (tags : List Tag) → List Element → List Element
  | [], elements => elements
  | _ :: _, [] => []
  | tag :: tags, e :: rest =>
    if e.tag = tag ∧ areBits e.content then dropUnique tags rest else dropUnique tags (e :: rest)

/-- Reads the extensions from their wrapper. -/
def extensionsOf? (wrapper : Element) : Option (List Extension) := do
  match ← wrapper.inside.walk.complete.toOption with
  | [e] =>
    let elements ← e.parts? .sequence
    elements.mapM Extension.ofElement?
  | _ => none

/-- Reads what may stand behind the public key. -/
def ofRest? (elements : List Element) : Option (List Extension) :=
  match dropUnique uniqueTags elements with
  | [] => some []
  | [wrapper] => if wrapper.tag = extensionsTag then extensionsOf? wrapper else none
  | _ => none

/-- Reads the part of a certificate that was signed. -/
def ofSigned? (signed : Element) : Option Certificate := do
  let elements ← signed.parts? .sequence
  let (version, elements) ← takeVersion elements
  match elements with
  | serial :: algorithm :: issuer :: validity :: subject :: key :: rest =>
    let _ ← serial.toInteger.toOption
    guard (isAlgorithm algorithm && isName issuer && isValidity validity && isName subject &&
      isKey key)
    let extensions ← ofRest? rest
    return ⟨version, extensions⟩
  | _ => none

/-- Reads a certificate from its encoding. -/
def ofEncoding? (octets : Octets) : Option Certificate := do
  let (e, after) ← (Cursor.start octets).element.toOption
  guard after.atEnd
  match ← e.parts? .sequence with
  | [signed, algorithm, signature] =>
    guard (isAlgorithm algorithm && isBitString signature)
    ofSigned? signed
  | _ => none

/-- Reads a certificate from its encoding or from an armoured text. -/
def decode (octets : Octets) : Option Certificate :=
  if Pem.isArmoured octets then
    (Pem.decode octets).bind ofEncoding?
  else
    ofEncoding? octets

end Certificate

end AttestedKey
