import AttestedKey.KeyDescription
import AttestedKey.Text.Decimal
import AttestedKey.Text.Quoted

/-!
# Arguments of any type

Records, lists and their parts can be made from arguments whose types are not known
beforehand.  An `Argument` is such a value.  `Argument.typeName` is the name by which messages
refer to its type, `Argument.items?` goes through a collection, and a `Refusal` says why an
argument was not accepted.
-/

namespace AttestedKey

/-- A value of any of the types that an argument may have. -/
inductive Argument
  /-- No value. -/
  | absent
  /-- A truth value. -/
  | truth (value : Bool)
  /-- An integer. -/
  | integer (value : Int)
  /-- A decimal fraction: an integer with the point moved left by some places. -/
  | decimal (mantissa : Int) (places : Nat)
  /-- A text. -/
  | text (value : String)
  /-- A list of arguments. -/
  | list (items : List Argument)
  /-- Octets. -/
  | octets (value : Octets)
  /-- A root of trust. -/
  | rootOfTrust (value : RootOfTrust)
  /-- A package. -/
  | package (value : Package)
  /-- An application id. -/
  | applicationId (value : ApplicationId)
  /-- An authorization list. -/
  | authorizationList (value : AuthorizationList)
  /-- A key description. -/
  | keyDescription (value : KeyDescription)

/-- Arguments by name. -/
abbrev Arguments := List (String × Argument)

/-- Why an argument was not accepted. -/
inductive Refusal
  /-- An integer is required. -/
  | notInteger (name typeName : String)
  /-- Octets are required. -/
  | notOctets (name typeName : String)
  /-- A truth value is required. -/
  | notTruth (name : String)
  /-- A text is required. -/
  | notText (name : String)
  /-- A collection of members of a vocabulary is required. -/
  | notCollection (name : String) (v : Vocabulary)
  /-- A root of trust is required. -/
  | notRootOfTrust (name : String)
  /-- An application id is required. -/
  | notApplicationId (name : String)
  /-- An authorization list is required. -/
  | notAuthorizationList (name : String)
  /-- A collection of packages holds something else. -/
  | notPackage
  /-- A certificate is required. -/
  | notCertificate (typeName : String)
  /-- An argument cannot be gone through, or one of its items cannot stand in a set. -/
  | unusable
  /-- An argument is missing, or one was given that does not exist or has its place taken. -/
  | mismatch
  /-- A number does not fit into its place, or a text is no numeral. -/
  | unfit
  /-- A fraction stands where a number that is not negative is required, and is negative. -/
  | negativeFraction (name : String) (mantissa : Int) (places : Nat)
  /-- A fraction has no binary digits to be counted. -/
  | notBinary
  /-- A count has more than 64 bits. -/
  | tooWide
  /-- More octets are asked for than can be held. -/
  | tooMany
  /-- A collection does not have two items. -/
  | notPair
  /-- A tag given as unknown stands in the field table. -/
  | knownTag (f : Field)
  /-- A tag is given twice. -/
  | repeatedTag (number : Nat)
  /-- A list has no field of that name. -/
  | noField (name : String)
  /-- A builder has no attribute of that name. -/
  | noAttribute (name : String)
  /-- A number is outside its range. -/
  | outOfRange (e : RangeError)
  /-- The content given for a tag is not one element. -/
  | unreadable (f : Fault)

/-- The kind of thing that is wrong with a refused argument. -/
inductive RefusalKind
  /-- Its type. -/
  | type
  /-- Its value. -/
  | value
  /-- Its name. -/
  | name
  /-- The range of a number. -/
  | range (e : RangeError)
  /-- The range of a fraction, which has a name and a text. -/
  | fraction (name : String) (mantissa : Int) (places : Nat)
  /-- The width of a count. -/
  | width
  /-- The number of octets it asks for. -/
  | size
  /-- The encoding of some content. -/
  | encoding (f : Fault)

namespace Refusal

/-- The name of the type of builders in messages. -/
def builderName : String := "AuthorizationListBuilder"

/-- What kind of thing is wrong. -/
def kind : Refusal → RefusalKind
  | .unfit | .notPair | .knownTag _ | .repeatedTag _ => .value
  | .noField _ | .noAttribute _ | .notBinary => .name
  | .outOfRange e => .range e
  | .negativeFraction name mantissa places => .fraction name mantissa places
  | .tooWide => .width
  | .tooMany => .size
  | .unreadable f => .encoding f
  | _ => .type

/-- The text of a refusal, for those that have one. -/
def message? : Refusal → Option String
  | .notInteger name typeName => some s!"{name} must be an int, not {typeName}"
  | .notOctets name typeName => some s!"{name} must be bytes, not {typeName}"
  | .notTruth name => some s!"{name} must be a bool"
  | .notText name => some s!"{name} must be a str"
  | .notCollection name v => some s!"{name} must be a collection of {v.title}"
  | .notRootOfTrust name => some s!"{name} must be a {RootOfTrust.structureName}"
  | .notApplicationId name => some s!"{name} must be an {ApplicationId.structureName}"
  | .notAuthorizationList name => some s!"{name} must be an {AuthorizationList.structureName}"
  | .notPackage => some s!"package_infos must contain {Package.structureName}"
  | .notCertificate typeName =>
    some s!"Expected a certificate or certificate bytes, not {typeName}"
  | .unusable | .mismatch | .unfit | .notBinary | .tooWide | .tooMany | .notPair => none
  | .negativeFraction name mantissa places =>
    some s!"{name}: {Text.decimal mantissa places} is negative"
  | .knownTag f => some s!"Tag [{f.tag}] is a known field; set {f.name}"
  | .repeatedTag number => some s!"Tag [{number}] appears more than once"
  | .noField name => some s!"{AuthorizationList.structureName} has no field {Text.quoted name}"
  | .noAttribute name =>
    some s!"{Text.quoted builderName} object has no attribute {Text.quoted name}"
  | .outOfRange e => some e.message
  | .unreadable f => some f.message

end Refusal

namespace Argument

/-- The name of the type of key descriptions in messages about arguments. -/
def recordName : String := "AttestationRecord"

/-- The name of the type of an argument in messages. -/
def typeName : Argument → String
  | .absent => "NoneType"
  | .truth _ => "bool"
  | .integer _ => "int"
  | .decimal _ _ => "float"
  | .text _ => "str"
  | .list _ => "list"
  | .octets _ => "bytes"
  | .rootOfTrust _ => RootOfTrust.structureName
  | .package _ => Package.structureName
  | .applicationId _ => ApplicationId.structureName
  | .authorizationList _ => AuthorizationList.structureName
  | .keyDescription _ => recordName

/-- Whether an argument says nothing: no value, false, zero, or an empty collection. -/
def isVoid : Argument → Bool
  | .absent => true
  | .truth value => !value
  | .integer value => value == 0
  | .decimal mantissa _ => mantissa == 0
  | .text value => value.isEmpty
  | .list items => items.isEmpty
  | .octets value => value.isEmpty
  | _ => false

/-- The items of a collection: those of a list, the characters of a text as texts, octets as
integers. -/
def items? : Argument → Option (List Argument)
  | .list items => some items
  | .text value => some (value.toList.map fun c => .text c.toString)
  | .octets value => some (value.map fun octet => .integer octet.toNat)
  | _ => none

/-- The items of an argument that has to be a collection. -/
def items (a : Argument) : Except Refusal (List Argument) :=
  match a.items? with
  | some items => .ok items
  | none => .error .unusable

/-- Whether an argument can stand in a set, which a list cannot. -/
def isSettable : Argument → Bool
  | .list _ => false
  | _ => true

end Argument

namespace Arguments

/-- The argument of a given name, where one was given. -/
def find? (arguments : Arguments) (name : String) : Option Argument :=
  List.lookup name arguments

/-- The argument of a given name, or no value. -/
def get (arguments : Arguments) (name : String) : Argument :=
  (arguments.find? name).getD .absent

/-- Checks that all required arguments are given and that no others are given than those and
the optional ones. -/
def check (arguments : Arguments) (required optional : List String) : Except Refusal Unit :=
  if arguments.all (fun a => (required ++ optional).contains a.1) &&
      required.all (fun name => (arguments.find? name).isSome) then
    .ok ()
  else
    .error .mismatch

end Arguments

end AttestedKey
