import AttestedKey.Der.Encode
import AttestedKey.Der.Primitive
import AttestedKey.OrderedSet

/-!
# The application that owns a key

An `ApplicationId` is the set of packages that may use a key together with the set of digests
of the certificates that signed them.  A `Package` is a name and a version.  Names are written
in UTF-8.  Neither set may hold a member twice on the wire; on writing, the members of both
are put into ascending order of their encodings.
-/

namespace AttestedKey

open Der

/-- A package and its version. -/
structure Package where
  /-- The name of the package. -/
  name : String
  /-- Its version. -/
  version : Int
  deriving DecidableEq, Repr

namespace Package

/-- Packages are ordered by their names, and packages of one name by their versions. -/
instance : Ord Package := ⟨compareLex (compareOn name) (compareOn version)⟩

instance : Std.TransOrd Package :=
  inferInstanceAs (Std.TransCmp (compareLex (compareOn name) (compareOn version)))

instance : Std.LawfulEqOrd Package where
  eq_of_compare {p q} h := by
    replace h : compareLex (compareOn name) (compareOn version) p q = .eq := h
    rw [compareLex_eq_eq] at h
    cases p
    cases q
    simp only [Package.mk.injEq]
    exact ⟨Std.LawfulEqOrd.eq_of_compare h.1, Std.LawfulEqOrd.eq_of_compare h.2⟩

/-- The name of the structure in messages. -/
def structureName : String := "AttestationPackageInfo"

/-- The name of the field that holds the version. -/
def versionField : String := "version"

/-- Reads the package that an element holds. -/
def ofElement (e : Element) : Except Fault Package := do
  let c ← e.toSequence
  let (octets, c) ← c.read Element.toOctets
  let (version, c) ← c.read (Element.toUnsigned versionField uint64Max)
  if c.atEnd then
    match Octets.toString? octets with
    | some name => return ⟨name, version⟩
    | none => malformedAt e.offset .packageNameText
  else
    malformedAt c.offset (.surplusElement structureName)

/-- Writes a package, whose version has to fit into 64 bits. -/
def encode (p : Package) : Except RangeError Octets := do
  let version ← checkRange versionField uint64Max p.version
  return encodeSequence [encodeOctets (Octets.ofString p.name), encodeInteger version]

end Package

/-- The application that owns a key. -/
structure ApplicationId where
  /-- Its packages. -/
  packages : OrderedSet Package
  /-- The digests of the certificates that signed it. -/
  digests : OrderedSet Octets
  deriving DecidableEq

namespace ApplicationId

/-- The name of the structure in messages. -/
def structureName : String := "AttestationApplicationId"

/-- Adds the package that an element holds to those read before. -/
def addPackage (packages : OrderedSet Package) (e : Element) :
    Except Fault (OrderedSet Package) := do
  let package ← Package.ofElement e
  if packages.contains package then
    malformedAt e.offset .repeatedPackage
  else
    return packages.insert package

/-- Adds the digest that an element holds to those read before. -/
def addDigest (digests : OrderedSet Octets) (e : Element) :
    Except Fault (OrderedSet Octets) := do
  let digest ← e.toOctets
  if digests.contains digest then
    malformedAt e.offset .repeatedDigest
  else
    return digests.insert digest

/-- Reads a region that holds an application id and nothing else. -/
def ofRegion (region : Cursor) : Except Fault ApplicationId := do
  let (c, after) ← region.read Element.toSequence
  if after.atEnd then
    let (packages, c) ← c.read Element.toSet
    let (digests, c) ← c.read Element.toSet
    if c.atEnd then
      let packages ← packages.walk.foldlM addPackage .empty
      let digests ← digests.walk.foldlM addDigest .empty
      return ⟨packages, digests⟩
    else
      malformedAt c.offset (.surplusElement structureName)
  else
    malformedAt after.offset (.trailingData structureName)

/-- Reads an input that holds an application id and nothing else. -/
def decode (input : Octets) : Except Fault ApplicationId := ofRegion (.start input)

/-- Writes an application id. -/
def encode (a : ApplicationId) : Except RangeError Octets := do
  let packages ← a.packages.toList.mapM Package.encode
  return encodeSequence [encodeSet packages, encodeSet (a.digests.toList.map encodeOctets)]

end ApplicationId

end AttestedKey
