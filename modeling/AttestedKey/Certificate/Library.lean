import AttestedKey.Certificate.Chain

/-!
# The search in a chain, for any library of certificates

Loading a certificate and listing its extensions are the work of a library, and the search in a
chain does not depend on how that library goes about it.  A `CertificateLibrary` says what it
makes of octets and what it lists; `CertificateLibrary.get` takes the attestation extension of
one certificate and `CertificateLibrary.find` searches a chain with it, from the last certificate
down to the first.  `CertificateLibrary.own` is the library of this development, with
`Certificate.decode` in it.
-/

namespace AttestedKey

/-- An extension as a library lists it. -/
structure ListedExtension where
  /-- What the extension is, in dotted notation. -/
  identifier : String
  /-- Its value, where the library leaves it uninterpreted. -/
  raw? : Option Octets

/-- Why a library cannot list the extensions of a certificate. -/
inductive ListingFailure (ε : Type)
  /-- Two extensions have one identifier. -/
  | repeated (identifier : String)
  /-- The library objects to something else. -/
  | other (e : ε)

/-- What the search in a chain asks of a library whose certificates are of one type and whose own
failures are of another. -/
structure CertificateLibrary (γ ε : Type) where
  /-- Loads a certificate from its encoding or from an armoured text. -/
  ofOctets : Octets → Except ε γ
  /-- Lists the extensions of a certificate. -/
  extensions : γ → Except (ListingFailure ε) (List ListedExtension)

/-- What may be given for a certificate. -/
inductive Presented (γ : Type)
  /-- A certificate that was loaded before. -/
  | loaded (c : γ)
  /-- The octets of a certificate. -/
  | octets (o : Octets)
  /-- Something that is no certificate, of a type with the given name. -/
  | other (typeName : String)

namespace CertificateLibrary

variable {γ ε : Type} (L : CertificateLibrary γ ε)

/-- The certificate that was given.  One that was loaded before is left as it is. -/
def load : Presented γ → Except (LookupFailure ⊕ ε) γ
  | .loaded c => .ok c
  | .octets o => (L.ofOctets o).mapError .inr
  | .other typeName => .error (.inl (.refused (.notCertificate typeName)))

/-- The uninterpreted extensions of a certificate. -/
def rawExtensions (c : γ) : Except (LookupFailure ⊕ ε) (List Extension) :=
  match L.extensions c with
  | .ok listed => .ok (listed.filterMap fun e => e.raw?.map (⟨e.identifier, ·⟩))
  | .error (.repeated identifier) => .error (.inl (.repeated identifier))
  | .error (.other e) => .error (.inr e)

/-- The value of the attestation extension of a certificate. -/
def get (k : Presented γ) : Except (LookupFailure ⊕ ε) Octets := do
  let c ← L.load k
  let extensions ← L.rawExtensions c
  (findExtension extensions attestationIdentifier).mapError .inl

/-- Looks at the certificates in front of a position, from the last of them down to the first.
Only a certificate without the extension is passed over. -/
def findBefore (chain : List γ) :
    (position : Nat) → position ≤ chain.length → Except (LookupFailure ⊕ ε) Octets
  | 0, _ => .error (.inl .missingInChain)
  | position + 1, h =>
    match L.get (.loaded chain[position]) with
    | .error (.inl (.missing _)) => findBefore chain position (Nat.le_of_succ_le h)
    | outcome => outcome

/-- The value of the attestation extension closest to the root of a chain that starts with the
leaf.  All certificates are loaded before the first one is looked at. -/
def find (chain : List (Presented γ)) : Except (LookupFailure ⊕ ε) Octets := do
  let chain ← chain.mapM L.load
  L.findBefore chain chain.length (Nat.le_refl _)

end CertificateLibrary

/-! ### The library of this development -/

/-- Why octets cannot be loaded as a certificate. -/
inductive LoadFailure
  /-- They are not a certificate. -/
  | notCertificate
  /-- The certificate has a version that is not in use. -/
  | unknownVersion (version : Int)

namespace CertificateLibrary

/-- The library that reads certificates by `Certificate.decode` and interprets no extension. -/
def own : CertificateLibrary Certificate LoadFailure where
  ofOctets octets :=
    match Certificate.decode octets with
    | some c =>
      if Certificate.versions.contains c.version then .ok c else .error (.unknownVersion c.version)
    | none => .error .notCertificate
  extensions c :=
    match Certificate.firstRepeated [] c.extensions with
    | some identifier => .error (.repeated identifier)
    | none => .ok (c.extensions.map fun e => ⟨e.identifier, some e.value⟩)

end CertificateLibrary

/-- A failure of the search or of the library, as a failure of the search. -/
def LoadFailure.asLookup : LookupFailure ⊕ LoadFailure → LookupFailure
  | .inl f => f
  | .inr .notCertificate => .notCertificate
  | .inr (.unknownVersion version) => .unknownVersion version

/-- What an argument stands for as a certificate. -/
def Presented.ofArgument : Argument → Presented Certificate
  | .octets o => .octets o
  | a => .other a.typeName

end AttestedKey
