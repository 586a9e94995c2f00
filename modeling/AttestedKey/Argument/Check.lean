import AttestedKey.Argument

/-!
# Checking arguments

The functions of this file make records, lists and their parts from arguments, or say why they
cannot.  A check of one value comes first (`Argument.toInteger` and its like), then the checks
of field values by kind (`Kind.check`), and last the makers `RootOfTrust.make`,
`Package.make`, `ApplicationId.make`, `AuthorizationList.make` and `KeyDescription.make`.
Values are checked in a fixed order, so of several bad ones the first is reported.
-/

namespace AttestedKey

namespace Argument

/-- An integer.  A truth value is none. -/
def toInteger (name : String) : Argument → Except Refusal Int
  | .integer value => .ok value
  | a => .error (.notInteger name a.typeName)

/-- Octets. -/
def toOctets (name : String) : Argument → Except Refusal Octets
  | .octets value => .ok value
  | a => .error (.notOctets name a.typeName)

/-- A truth value. -/
def toTruth (name : String) : Argument → Except Refusal Bool
  | .truth value => .ok value
  | _ => .error (.notTruth name)

/-- A text. -/
def toText (name : String) : Argument → Except Refusal String
  | .text value => .ok value
  | _ => .error (.notText name)

/-- A number of a vocabulary. -/
def toSlot (v : Vocabulary) (name : String) (a : Argument) : Except Refusal (Slot v) := do
  let code ← a.toInteger name
  return .ofCode v code

/-- The items of a collection of numbers of a vocabulary.  A text, octets, an integer or a
truth value is none. -/
def toCollection (v : Vocabulary) (name : String) : Argument → Except Refusal (List Argument)
  | .text _ | .octets _ | .integer _ | .truth _ => .error (.notCollection name v)
  | a => a.items

/-- The mask of some items.  An item that stands for any authenticator settles the mask, and
the items after it are not looked at. -/
def toMask (name : String) (mask : Int) : List Argument → Except Refusal Int
  | [] => .ok mask
  | item :: rest => do
    let code ← item.toInteger name
    if code = Authenticators.anyMask then
      return Authenticators.anyMask
    else
      toMask name (bitOr mask code) rest

/-- An item that is a pair. -/
def toPair (a : Argument) : Except Refusal (Argument × Argument) := do
  match ← a.items with
  | [first, second] => return (first, second)
  | _ => throw .notPair

end Argument

/-- Accepts a number that lies between zero and a maximum. -/
def acceptRange (name : String) (maximum : Nat) (value : Int) : Except Refusal Int :=
  (checkRange name maximum value).mapError .outOfRange

namespace UnknownTag

/-- The largest tag number that a reader accepts. -/
def maxNumber : Nat := 0x0FFFFFFF

/-- The name of a tag number in messages. -/
def numberName : String := "unknown tag number"

/-- Checks that some octets are exactly one element. -/
def checkContent (number : Nat) (content : Octets) : Except Fault Unit := do
  let (_, after) ← (Der.Cursor.start content).element
  if after.atEnd then
    return ()
  else
    malformedAt after.offset (.crowdedContent number)

/-- A tag outside the field table, and not among some others, with its content. -/
def make (others : List UnknownTag) (number content : Argument) :
    Except Refusal UnknownTag := do
  let number ← number.toInteger numberName
  let number ← acceptRange numberName maxNumber number
  let number := number.toNat
  match Field.ofTag? number with
  | some f => throw (.knownTag f)
  | none =>
    if others.any (fun t => t.number == number) then
      throw (.repeatedTag number)
    else
      let content ← content.toOctets s!"content of tag [{number}]"
      (checkContent number content).mapError .unreadable
      return ⟨number, content⟩

/-- Adds the tag that an item describes to those before it. -/
def addItem (tags : List UnknownTag) (item : Argument) : Except Refusal (List UnknownTag) := do
  let (number, content) ← item.toPair
  let t ← make tags number content
  return t.place tags

/-- The tags that a collection of pairs describes. -/
def makeAll (a : Argument) : Except Refusal (List UnknownTag) := do
  let items ← a.items
  items.foldlM addItem []

end UnknownTag

/-- Checks a value for a field of a kind.  A lowered flag is no value. -/
def Kind.check : (k : Kind) → (name : String) → Argument → Except Refusal (Option k.Value)
  | .integer _, name, a => do
    let value ← a.toInteger name
    return some value
  | .member v, name, a => do
    let slot ← a.toSlot v name
    return some slot
  | .members v, name, a => do
    let items ← a.toCollection v name
    let slots ← items.mapM (fun item => item.toSlot v name)
    return some (OrderedSet.ofList slots)
  | .authenticators, name, a => do
    let items ← a.toCollection .userAuthType name
    let mask ← Argument.toMask name 0 items
    return some (Authenticators.ofMask mask)
  | .flag, name, a => do
    let value ← a.toTruth name
    return if value then some Flag.raised else none
  | .octets, name, a => do
    let value ← a.toOctets name
    return some value
  | .rootOfTrust, name, a =>
    match a with
    | .rootOfTrust value => .ok (some value)
    | _ => .error (.notRootOfTrust name)
  | .applicationId, name, a =>
    match a with
    | .applicationId value => .ok (some value)
    | _ => .error (.notApplicationId name)

/-- What a field holds when it is explicitly given no value: a flag is then left blank. -/
def Kind.blank? : (k : Kind) → Option k.Value
  | .flag => some Flag.blank
  | _ => none

namespace RootOfTrust

/-- Makes a root of trust from its four arguments, the last of which may be absent. -/
def make (arguments : Arguments) : Except Refusal RootOfTrust := do
  arguments.check ["verified_boot_key", "device_locked", stateField] ["verified_boot_hash"]
  let key ← (arguments.get "verified_boot_key").toOctets "verified_boot_key"
  let locked ← (arguments.get "device_locked").toTruth "device_locked"
  let state ← (arguments.get stateField).toSlot .verifiedBootState stateField
  match arguments.get "verified_boot_hash" with
  | .absent => return ⟨key, locked, state, none⟩
  | hash =>
    let hash ← hash.toOctets "verified_boot_hash"
    return ⟨key, locked, state, some hash⟩

end RootOfTrust

namespace Package

/-- Makes a package from its two arguments. -/
def make (arguments : Arguments) : Except Refusal Package := do
  arguments.check ["package_name", versionField] []
  let name ← (arguments.get "package_name").toText "package_name"
  let version ← (arguments.get versionField).toInteger versionField
  return ⟨name, version⟩

end Package

namespace ApplicationId

/-- A package among the items of a collection. -/
def toPackage : Argument → Except Refusal Package
  | .package value => .ok value
  | _ => .error .notPackage

/-- The packages of a collection, all of whose items must be able to stand in a set. -/
def toPackages (a : Argument) : Except Refusal (OrderedSet Package) := do
  let items ← a.items
  if items.all Argument.isSettable then
    let packages ← items.mapM toPackage
    return .ofList packages
  else
    throw .unusable

/-- The digests of a collection. -/
def toDigests (a : Argument) : Except Refusal (OrderedSet Octets) := do
  let items ← a.items
  let digests ← items.mapM (fun item => item.toOctets "signature_digests")
  return .ofList digests

/-- Makes an application id from its two arguments, each of which may be left out. -/
def make (arguments : Arguments) : Except Refusal ApplicationId := do
  arguments.check [] ["package_infos", "signature_digests"]
  let packages ← toPackages ((arguments.find? "package_infos").getD (.list []))
  let digests ← toDigests ((arguments.find? "signature_digests").getD (.list []))
  return ⟨packages, digests⟩

end ApplicationId

namespace AuthorizationList

/-- The name of the argument that holds the unknown tags. -/
def unknownName : String := "unknown_tags"

/-- Gives a field the value of its argument, if there is one. -/
def addArgument (arguments : Arguments) (a : AuthorizationList) (f : Field) :
    Except Refusal AuthorizationList :=
  match arguments.find? f.name with
  | none => return a
  | some .absent => return a.assign f f.kind.blank?
  | some argument => do
    let value ← f.kind.check f.name argument
    return a.assign f value

/-- Makes a list from arguments by field name, each of which may be left out.  Fields are
checked by ascending tag and the unknown tags after them. -/
def make (arguments : Arguments) : Except Refusal AuthorizationList := do
  arguments.check [] (unknownName :: Field.all.map Field.name)
  let a ← Field.all.foldlM (addArgument arguments) empty
  let unknown ← UnknownTag.makeAll ((arguments.find? unknownName).getD (.list []))
  return { a with unknown }

end AuthorizationList

namespace KeyDescription

/-- The names of the eight arguments, in the order of the wire. -/
def argumentNames : List String :=
  [attestationVersionField, attestationSecurityLevelField, keymasterVersionField,
    keymasterSecurityLevelField, "attestation_challenge", "unique_id", "software_enforced",
    "tee_enforced"]

/-- An argument that is an authorization list. -/
def toList (name : String) : Argument → Except Refusal AuthorizationList
  | .authorizationList value => .ok value
  | _ => .error (.notAuthorizationList name)

/-- Makes a record from its eight arguments. -/
def make (arguments : Arguments) : Except Refusal KeyDescription := do
  arguments.check argumentNames []
  let integer name := (arguments.get name).toInteger name
  let level name := (arguments.get name).toSlot .securityLevel name
  let octets name := (arguments.get name).toOctets name
  let attestationVersion ← integer attestationVersionField
  let keymasterVersion ← integer keymasterVersionField
  let attestationLevel ← level attestationSecurityLevelField
  let keymasterLevel ← level keymasterSecurityLevelField
  let challenge ← octets "attestation_challenge"
  let uniqueId ← octets "unique_id"
  let software ← toList "software_enforced" (arguments.get "software_enforced")
  let tee ← toList "tee_enforced" (arguments.get "tee_enforced")
  return ⟨attestationVersion, attestationLevel, keymasterVersion, keymasterLevel, challenge,
    uniqueId, software, tee⟩

/-- An argument for a list, with the empty list for one that says nothing. -/
def listOrEmpty (a : Argument) : Argument :=
  if a.isVoid then .authorizationList .empty else a

/-- Makes a record from its first four arguments and, where they are given, the others.  The
challenge, the identifier and both lists are empty by default. -/
def create (arguments : Arguments) : Except Refusal KeyDescription := do
  arguments.check (argumentNames.take 4) (argumentNames.drop 4)
  let octets name := (name, (arguments.find? name).getD (.octets []))
  let list name := (name, listOrEmpty (arguments.get name))
  make ((argumentNames.take 4).map (fun name => (name, arguments.get name)) ++
    [octets "attestation_challenge", octets "unique_id", list "software_enforced",
      list "tee_enforced"])

end KeyDescription

end AttestedKey
