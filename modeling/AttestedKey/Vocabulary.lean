/-!
# The closed lists of named numbers

Ten lists of an attestation record give names to numbers.  Each is a type of its own, with
`code` for the number and `name` for the name of a member, and `all` for its members in
ascending order of their numbers.  `Vocabulary` is the index of the ten: `Vocabulary.Member`
is the type of a list, `Vocabulary.title` its title, and `Vocabulary.ofCode?` finds the
member that a number stands for.  No number has two members (`Vocabulary.ofCode?_code`).
-/

namespace AttestedKey

/-- Where a key or an attestation is enforced. -/
inductive SecurityLevel
  | software
  | trustedEnvironment
  | strongBox
  deriving DecidableEq, Repr

namespace SecurityLevel

/-- The number of a member. -/
def code : SecurityLevel → Nat
  | .software => 0
  | .trustedEnvironment => 1
  | .strongBox => 2

/-- The name of a member. -/
def name : SecurityLevel → String
  | .software => "SOFTWARE"
  | .trustedEnvironment => "TRUSTED_ENVIRONMENT"
  | .strongBox => "STRONG_BOX"

/-- All members, lowest number first. -/
def all : List SecurityLevel :=
  [.software, .trustedEnvironment, .strongBox]

end SecurityLevel

/-- How far the software that the device started was verified. -/
inductive VerifiedBootState
  | verified
  | selfSigned
  | unverified
  | failed
  deriving DecidableEq, Repr

namespace VerifiedBootState

/-- The number of a member. -/
def code : VerifiedBootState → Nat
  | .verified => 0
  | .selfSigned => 1
  | .unverified => 2
  | .failed => 3

/-- The name of a member. -/
def name : VerifiedBootState → String
  | .verified => "VERIFIED"
  | .selfSigned => "SELF_SIGNED"
  | .unverified => "UNVERIFIED"
  | .failed => "FAILED"

/-- All members, lowest number first. -/
def all : List VerifiedBootState :=
  [.verified, .selfSigned, .unverified, .failed]

end VerifiedBootState

/-- The kinds of authenticator that may unlock a key, as bits of a mask.  No bit stands for
`none`, all 32 for `any`. -/
inductive UserAuthType
  | none
  | password
  | fingerprint
  | any
  deriving DecidableEq, Repr

namespace UserAuthType

/-- The number of a member. -/
def code : UserAuthType → Nat
  | .none => 0
  | .password => 1
  | .fingerprint => 2
  | .any => 4294967295

/-- The name of a member. -/
def name : UserAuthType → String
  | .none => "NONE"
  | .password => "PASSWORD"
  | .fingerprint => "FINGERPRINT"
  | .any => "ANY"

/-- All members, lowest number first. -/
def all : List UserAuthType :=
  [.none, .password, .fingerprint, .any]

end UserAuthType

/-- What a key may be used for. -/
inductive KeyPurpose
  | encrypt
  | decrypt
  | sign
  | verify
  | deriveKey
  | wrapKey
  | agreeKey
  | attestKey
  deriving DecidableEq, Repr

namespace KeyPurpose

/-- The number of a member. -/
def code : KeyPurpose → Nat
  | .encrypt => 0
  | .decrypt => 1
  | .sign => 2
  | .verify => 3
  | .deriveKey => 4
  | .wrapKey => 5
  | .agreeKey => 6
  | .attestKey => 7

/-- The name of a member. -/
def name : KeyPurpose → String
  | .encrypt => "ENCRYPT"
  | .decrypt => "DECRYPT"
  | .sign => "SIGN"
  | .verify => "VERIFY"
  | .deriveKey => "DERIVE_KEY"
  | .wrapKey => "WRAP_KEY"
  | .agreeKey => "AGREE_KEY"
  | .attestKey => "ATTEST_KEY"

/-- All members, lowest number first. -/
def all : List KeyPurpose :=
  [.encrypt, .decrypt, .sign, .verify, .deriveKey, .wrapKey, .agreeKey, .attestKey]

end KeyPurpose

/-- The algorithm a key belongs to. -/
inductive Algorithm
  | rsa
  | ec
  | aes
  | tripleDes
  | hmac
  deriving DecidableEq, Repr

namespace Algorithm

/-- The number of a member. -/
def code : Algorithm → Nat
  | .rsa => 1
  | .ec => 3
  | .aes => 32
  | .tripleDes => 33
  | .hmac => 128

/-- The name of a member. -/
def name : Algorithm → String
  | .rsa => "RSA"
  | .ec => "EC"
  | .aes => "AES"
  | .tripleDes => "TRIPLE_DES"
  | .hmac => "HMAC"

/-- All members, lowest number first. -/
def all : List Algorithm :=
  [.rsa, .ec, .aes, .tripleDes, .hmac]

end Algorithm

/-- The modes of operation of a block cipher. -/
inductive BlockMode
  | ecb
  | cbc
  | ctr
  | gcm
  deriving DecidableEq, Repr

namespace BlockMode

/-- The number of a member. -/
def code : BlockMode → Nat
  | .ecb => 1
  | .cbc => 2
  | .ctr => 3
  | .gcm => 32

/-- The name of a member. -/
def name : BlockMode → String
  | .ecb => "ECB"
  | .cbc => "CBC"
  | .ctr => "CTR"
  | .gcm => "GCM"

/-- All members, lowest number first. -/
def all : List BlockMode :=
  [.ecb, .cbc, .ctr, .gcm]

end BlockMode

/-- The digests that may be used with a key. -/
inductive Digest
  | none
  | md5
  | sha1
  | sha224
  | sha256
  | sha384
  | sha512
  deriving DecidableEq, Repr

namespace Digest

/-- The number of a member. -/
def code : Digest → Nat
  | .none => 0
  | .md5 => 1
  | .sha1 => 2
  | .sha224 => 3
  | .sha256 => 4
  | .sha384 => 5
  | .sha512 => 6

/-- The name of a member. -/
def name : Digest → String
  | .none => "NONE"
  | .md5 => "MD5"
  | .sha1 => "SHA1"
  | .sha224 => "SHA_2_224"
  | .sha256 => "SHA_2_256"
  | .sha384 => "SHA_2_384"
  | .sha512 => "SHA_2_512"

/-- All members, lowest number first. -/
def all : List Digest :=
  [.none, .md5, .sha1, .sha224, .sha256, .sha384, .sha512]

end Digest

/-- The padding schemes that may be used with a key. -/
inductive Padding
  | none
  | rsaOaep
  | rsaPss
  | rsaPkcs1Encrypt
  | rsaPkcs1Sign
  | pkcs7
  deriving DecidableEq, Repr

namespace Padding

/-- The number of a member. -/
def code : Padding → Nat
  | .none => 1
  | .rsaOaep => 2
  | .rsaPss => 3
  | .rsaPkcs1Encrypt => 4
  | .rsaPkcs1Sign => 5
  | .pkcs7 => 64

/-- The name of a member. -/
def name : Padding → String
  | .none => "NONE"
  | .rsaOaep => "RSA_OAEP"
  | .rsaPss => "RSA_PSS"
  | .rsaPkcs1Encrypt => "RSA_PKCS1_1_5_ENCRYPT"
  | .rsaPkcs1Sign => "RSA_PKCS1_1_5_SIGN"
  | .pkcs7 => "PKCS7"

/-- All members, lowest number first. -/
def all : List Padding :=
  [.none, .rsaOaep, .rsaPss, .rsaPkcs1Encrypt, .rsaPkcs1Sign, .pkcs7]

end Padding

/-- The curve of an elliptic-curve key. -/
inductive EcCurve
  | p224
  | p256
  | p384
  | p521
  | curve25519
  deriving DecidableEq, Repr

namespace EcCurve

/-- The number of a member. -/
def code : EcCurve → Nat
  | .p224 => 0
  | .p256 => 1
  | .p384 => 2
  | .p521 => 3
  | .curve25519 => 4

/-- The name of a member. -/
def name : EcCurve → String
  | .p224 => "P_224"
  | .p256 => "P_256"
  | .p384 => "P_384"
  | .p521 => "P_521"
  | .curve25519 => "CURVE_25519"

/-- All members, lowest number first. -/
def all : List EcCurve :=
  [.p224, .p256, .p384, .p521, .curve25519]

end EcCurve

/-- Where a key came from. -/
inductive KeyOrigin
  | generated
  | derived
  | imported
  | reserved
  | securelyImported
  deriving DecidableEq, Repr

namespace KeyOrigin

/-- The number of a member. -/
def code : KeyOrigin → Nat
  | .generated => 0
  | .derived => 1
  | .imported => 2
  | .reserved => 3
  | .securelyImported => 4

/-- The name of a member. -/
def name : KeyOrigin → String
  | .generated => "GENERATED"
  | .derived => "DERIVED"
  | .imported => "IMPORTED"
  | .reserved => "RESERVED"
  | .securelyImported => "SECURELY_IMPORTED"

/-- All members, lowest number first. -/
def all : List KeyOrigin :=
  [.generated, .derived, .imported, .reserved, .securelyImported]

end KeyOrigin

/-- The ten lists. -/
inductive Vocabulary
  | securityLevel
  | verifiedBootState
  | userAuthType
  | keyPurpose
  | algorithm
  | blockMode
  | digest
  | padding
  | ecCurve
  | keyOrigin
  deriving DecidableEq, Repr

namespace Vocabulary

/-- The type of the members of a list. -/
abbrev Member : Vocabulary → Type
  | .securityLevel => SecurityLevel
  | .verifiedBootState => VerifiedBootState
  | .userAuthType => UserAuthType
  | .keyPurpose => KeyPurpose
  | .algorithm => Algorithm
  | .blockMode => BlockMode
  | .digest => Digest
  | .padding => Padding
  | .ecCurve => EcCurve
  | .keyOrigin => KeyOrigin

/-- The title of a list. -/
def title : Vocabulary → String
  | .securityLevel => "SecurityLevel"
  | .verifiedBootState => "VerifiedBootState"
  | .userAuthType => "UserAuthType"
  | .keyPurpose => "KeyPurpose"
  | .algorithm => "Algorithm"
  | .blockMode => "BlockMode"
  | .digest => "Digest"
  | .padding => "Padding"
  | .ecCurve => "EcCurve"
  | .keyOrigin => "KeyOrigin"

/-- The members of a list, lowest number first. -/
def all : (v : Vocabulary) → List v.Member
  | .securityLevel => SecurityLevel.all
  | .verifiedBootState => VerifiedBootState.all
  | .userAuthType => UserAuthType.all
  | .keyPurpose => KeyPurpose.all
  | .algorithm => Algorithm.all
  | .blockMode => BlockMode.all
  | .digest => Digest.all
  | .padding => Padding.all
  | .ecCurve => EcCurve.all
  | .keyOrigin => KeyOrigin.all

/-- The number of a member. -/
def code : (v : Vocabulary) → v.Member → Nat
  | .securityLevel => SecurityLevel.code
  | .verifiedBootState => VerifiedBootState.code
  | .userAuthType => UserAuthType.code
  | .keyPurpose => KeyPurpose.code
  | .algorithm => Algorithm.code
  | .blockMode => BlockMode.code
  | .digest => Digest.code
  | .padding => Padding.code
  | .ecCurve => EcCurve.code
  | .keyOrigin => KeyOrigin.code

/-- The name of a member. -/
def name : (v : Vocabulary) → v.Member → String
  | .securityLevel => SecurityLevel.name
  | .verifiedBootState => VerifiedBootState.name
  | .userAuthType => UserAuthType.name
  | .keyPurpose => KeyPurpose.name
  | .algorithm => Algorithm.name
  | .blockMode => BlockMode.name
  | .digest => Digest.name
  | .padding => Padding.name
  | .ecCurve => EcCurve.name
  | .keyOrigin => KeyOrigin.name

instance : (v : Vocabulary) → DecidableEq v.Member
  | .securityLevel => inferInstanceAs (DecidableEq SecurityLevel)
  | .verifiedBootState => inferInstanceAs (DecidableEq VerifiedBootState)
  | .userAuthType => inferInstanceAs (DecidableEq UserAuthType)
  | .keyPurpose => inferInstanceAs (DecidableEq KeyPurpose)
  | .algorithm => inferInstanceAs (DecidableEq Algorithm)
  | .blockMode => inferInstanceAs (DecidableEq BlockMode)
  | .digest => inferInstanceAs (DecidableEq Digest)
  | .padding => inferInstanceAs (DecidableEq Padding)
  | .ecCurve => inferInstanceAs (DecidableEq EcCurve)
  | .keyOrigin => inferInstanceAs (DecidableEq KeyOrigin)

/-- The ten lists in the order of their introduction. -/
def index : List Vocabulary :=
  [.securityLevel, .verifiedBootState, .userAuthType, .keyPurpose, .algorithm,
    .blockMode, .digest, .padding, .ecCurve, .keyOrigin]

/-- The list with a given title. -/
def ofTitle? (title : String) : Option Vocabulary :=
  index.find? (·.title == title)

/-- The member that a number stands for. -/
def ofCode? (v : Vocabulary) (code : Int) : Option v.Member :=
  v.all.find? (fun m => (v.code m : Int) == code)

/-- A member is found by its own number, so no number has two members. -/
theorem ofCode?_code (v : Vocabulary) (m : v.Member) : v.ofCode? (v.code m) = some m := by
  cases v <;> cases m <;> rfl

/-- What is found by a number has that number. -/
theorem code_of_ofCode? {v : Vocabulary} {code : Int} {m : v.Member}
    (h : v.ofCode? code = some m) : (v.code m : Int) = code := by
  have := List.find?_some h
  simpa using this

end Vocabulary

end AttestedKey
