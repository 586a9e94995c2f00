import AttestedKey.Argument
import AttestedKey.Certificate

/-!
# The attestation extension in a chain

The record of a key stands in an extension of one of the certificates of a chain.  Of several,
the one closest to the root counts: an attested key can sign further certificates of its own,
so what stands below the first attested certificate proves nothing.  `findExtension` looks
among the extensions of one certificate, `Certificate.attestation` adds that no extension may
stand there twice, and `Chain.attestation` searches a chain from its root.
-/

namespace AttestedKey

/-- The object identifier of the attestation extension. -/
def attestationIdentifier : String := "1.3.6.1.4.1.11129.2.1.17"

/-- Why no attestation extension was found. -/
inductive LookupFailure
  /-- The argument is no certificate and no collection of certificates. -/
  | refused (r : Refusal)
  /-- Some octets are not a certificate. -/
  | notCertificate
  /-- A certificate has a version that is not in use. -/
  | unknownVersion (version : Int)
  /-- There is no extension with the identifier. -/
  | missing (identifier : String)
  /-- No certificate of the chain has the extension. -/
  | missingInChain
  /-- There are several extensions with the identifier. -/
  | several (count : Nat) (identifier : String)
  /-- A certificate has two extensions with one identifier. -/
  | repeated (identifier : String)

/-- The text of a failure, for those that have one. -/
def LookupFailure.message? : LookupFailure → Option String
  | .refused r => r.message?
  | .notCertificate | .unknownVersion _ => none
  | .missing identifier => some s!"Certificate has no extension {identifier}"
  | .missingInChain =>
    some "Couldn't find the keystore attestation extension data in the chain"
  | .several count identifier => some s!"Certificate has {count} extensions {identifier}"
  | .repeated identifier =>
    if identifier = attestationIdentifier then
      some s!"Certificate has more than one extension {identifier}"
    else
      none

/-- The value of the one extension with the given identifier. -/
def findExtension (extensions : List Extension) (identifier : String) :
    Except LookupFailure Octets :=
  match extensions.filter (·.identifier == identifier) with
  | [] => .error (.missing identifier)
  | [e] => .ok e.value
  | several => .error (.several several.length identifier)

namespace Certificate

/-- The identifier of the first extension whose identifier was met before. -/
def firstRepeated (seen : List String) : List Extension → Option String
  | [] => none
  | e :: rest =>
    if seen.contains e.identifier then some e.identifier
    else firstRepeated (e.identifier :: seen) rest

/-- The value of the attestation extension of a certificate. -/
def attestation (c : Certificate) : Except LookupFailure Octets :=
  match firstRepeated [] c.extensions with
  | some identifier => .error (.repeated identifier)
  | none => findExtension c.extensions attestationIdentifier

/-- The certificate that an argument is. -/
def ofArgument : Argument → Except LookupFailure Certificate
  | .octets octets =>
    match decode octets with
    | some c => if versions.contains c.version then .ok c else .error (.unknownVersion c.version)
    | none => .error .notCertificate
  | a => .error (.refused (.notCertificate a.typeName))

end Certificate

namespace Chain

/-- The value of the first attestation extension, looking at one certificate after another.
Only a certificate without the extension is passed over. -/
def search : List Certificate → Except LookupFailure Octets
  | [] => .error .missingInChain
  | c :: rest =>
    match c.attestation with
    | .error (.missing _) => search rest
    | outcome => outcome

/-- The value of the attestation extension closest to the root of a chain that starts with the
leaf. -/
def attestation (chain : List Certificate) : Except LookupFailure Octets :=
  search chain.reverse

/-- The chain that an argument is: one certificate, or a collection, whose certificates are
read in order. -/
def ofArgument : Argument → Except LookupFailure (List Certificate)
  | .octets octets => do
    let c ← Certificate.ofArgument (.octets octets)
    return [c]
  | a =>
    match a.items? with
    | some items => items.mapM Certificate.ofArgument
    | none => .error (.refused .unusable)

end Chain

end AttestedKey
