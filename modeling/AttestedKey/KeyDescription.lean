import AttestedKey.AuthorizationList.Decode
import AttestedKey.AuthorizationList.Encode

/-!
# Key descriptions

A `KeyDescription` is the attestation record of a key: the versions and the security levels of
the attestation and of the keystore, a challenge, an identifier of the device that may be
empty, and two authorization lists, one enforced by software and one by the secure
environment.  On the wire it is a sequence of exactly eight elements in a fixed order, which
`KeyDescription.decode` reads and `KeyDescription.encode` writes.
-/

namespace AttestedKey

open Der

/-- The attestation record of a key. -/
structure KeyDescription where
  /-- The version of the attestation. -/
  attestationVersion : Int
  /-- Where the attestation was made. -/
  attestationSecurityLevel : Slot .securityLevel
  /-- The version of the keystore. -/
  keymasterVersion : Int
  /-- Where the keystore runs. -/
  keymasterSecurityLevel : Slot .securityLevel
  /-- The challenge that the attestation answers. -/
  attestationChallenge : Octets
  /-- The identifier of the device, empty if none was asked for. -/
  uniqueId : Octets
  /-- What software enforces. -/
  softwareEnforced : AuthorizationList
  /-- What the secure environment enforces. -/
  teeEnforced : AuthorizationList
  deriving DecidableEq

namespace KeyDescription

/-- The name of the structure on the wire. -/
def structureName : String := "KeyDescription"

/-- The name of the attestation version. -/
def attestationVersionField : String := "attestation_version"

/-- The name of the security level of the attestation. -/
def attestationSecurityLevelField : String := "attestation_security_level"

/-- The name of the keystore version. -/
def keymasterVersionField : String := "keymaster_version"

/-- The name of the security level of the keystore. -/
def keymasterSecurityLevelField : String := "keymaster_security_level"

/-- The number in an element, which must not be negative. -/
def toNatural (interpret : Element → Except Fault Int) (field : String) (e : Element) :
    Except Fault Int := do
  let value ← interpret e
  if value < 0 then
    malformedNumberAt e.offset value (.negativeField field value)
  else
    return value

/-- The version in an element. -/
def toVersion (field : String) (e : Element) : Except Fault Int :=
  toNatural Element.toInteger field e

/-- The security level in an element. -/
def toSecurityLevel (rigor : Rigor) (field : String) (e : Element) :
    Except Fault (Slot .securityLevel) := do
  let code ← toNatural Element.toEnumerated field e
  Slot.recognise .securityLevel rigor (.securityLevel .securityLevel code field none)
    (some e.offset) code

/-- Makes a record of its eight elements.  Both lists are checked to be sequences before the
first of them is read. -/
def ofElements (rigor : Rigor) (attestationVersion attestationLevel keymasterVersion
    keymasterLevel challenge uniqueId software tee : Element) :
    Except Fault KeyDescription := do
  let attestationVersion ← toVersion attestationVersionField attestationVersion
  let attestationLevel ←
    toSecurityLevel rigor attestationSecurityLevelField attestationLevel
  let keymasterVersion ← toVersion keymasterVersionField keymasterVersion
  let keymasterLevel ← toSecurityLevel rigor keymasterSecurityLevelField keymasterLevel
  let challenge ← challenge.toOctets
  let uniqueId ← uniqueId.toOctets
  let software ← software.toSequence
  let tee ← tee.toSequence
  let software ← AuthorizationList.ofRegion rigor software
  let tee ← AuthorizationList.ofRegion rigor tee
  return ⟨attestationVersion, attestationLevel, keymasterVersion, keymasterLevel, challenge,
    uniqueId, software, tee⟩

/-- Reads an input that holds one record and nothing else. -/
def decode (rigor : Rigor) (input : Octets) : Except Fault KeyDescription := do
  let (sequence, after) ← (Cursor.start input).read (Element.ofType .sequence)
  if after.atEnd then
    match ← sequence.inside.walk.complete with
    | [e₁, e₂, e₃, e₄, e₅, e₆, e₇, e₈] => ofElements rigor e₁ e₂ e₃ e₄ e₅ e₆ e₇ e₈
    | elements => malformedAt sequence.offset (.elementCount elements.length)
  else
    malformedAt after.offset (.trailingData structureName)

/-- Writes a record.  Of several numbers that cannot be written the first is reported, where
the two versions come before everything else. -/
def encode (k : KeyDescription) : Except RangeError Octets := do
  let attestationVersion ← checkNatural attestationVersionField k.attestationVersion
  let keymasterVersion ← checkNatural keymasterVersionField k.keymasterVersion
  let attestationLevel ←
    checkRange attestationSecurityLevelField uint32Max k.attestationSecurityLevel.code
  let keymasterLevel ←
    checkRange keymasterSecurityLevelField uint32Max k.keymasterSecurityLevel.code
  let software ← k.softwareEnforced.encode
  let tee ← k.teeEnforced.encode
  return encodeSequence
    [encodeInteger attestationVersion, encodeEnumerated attestationLevel,
      encodeInteger keymasterVersion, encodeEnumerated keymasterLevel,
      encodeOctets k.attestationChallenge, encodeOctets k.uniqueId, software, tee]

end KeyDescription

end AttestedKey
