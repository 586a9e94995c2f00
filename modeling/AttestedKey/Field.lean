import AttestedKey.ApplicationId
import AttestedKey.Authenticators
import AttestedKey.RootOfTrust

/-!
# The field table of an authorization list

An authorization list has 44 known fields.  `Field.row` is the table: the tag of each field,
its name, and the kind of value it holds.  Everything else about a field follows from its kind.
`Field.ofTag?` and `Field.ofName?` look a field up; tags and names are unique
(`Field.ofTag?_tag`, `Field.ofName?_name`), and `Field.all` lists the fields by ascending tag.
-/

namespace AttestedKey

/-- The state of a flag that differs from its default, which is to be lowered. -/
inductive Flag
  /-- The flag is raised, which is all that its presence says. -/
  | raised
  /-- The flag was left blank when the list was made.  A blank flag is not written. -/
  | blank
  deriving DecidableEq, Repr

/-- The kinds of value that a field can hold. -/
inductive Kind
  /-- A number between zero and a maximum. -/
  | integer (maximum : Nat)
  /-- A number of a vocabulary. -/
  | member (v : Vocabulary)
  /-- A set of numbers of a vocabulary. -/
  | members (v : Vocabulary)
  /-- A set of authenticators, encoded as a mask. -/
  | authenticators
  /-- A flag, encoded by its presence. -/
  | flag
  /-- Octets. -/
  | octets
  /-- A root of trust. -/
  | rootOfTrust
  /-- An application id, wrapped into octets. -/
  | applicationId
  deriving DecidableEq, Repr

namespace Kind

/-- The type of the values of a kind. -/
abbrev Value : Kind → Type
  | .integer _ => Int
  | .member v => Slot v
  | .members v => OrderedSet (Slot v)
  | .authenticators => Authenticators
  | .flag => Flag
  | .octets => Octets
  | .rootOfTrust => RootOfTrust
  | .applicationId => ApplicationId

instance : (k : Kind) → DecidableEq k.Value
  | .integer _ => inferInstanceAs (DecidableEq Int)
  | .member v => inferInstanceAs (DecidableEq (Slot v))
  | .members v => inferInstanceAs (DecidableEq (OrderedSet (Slot v)))
  | .authenticators => inferInstanceAs (DecidableEq Authenticators)
  | .flag => inferInstanceAs (DecidableEq Flag)
  | .octets => inferInstanceAs (DecidableEq Octets)
  | .rootOfTrust => inferInstanceAs (DecidableEq RootOfTrust)
  | .applicationId => inferInstanceAs (DecidableEq ApplicationId)

/-- Whether a value is written.  Only a blank flag is not. -/
def isWritten : (k : Kind) → k.Value → Bool
  | .flag, value => value == Flag.raised
  | _, _ => true

end Kind

/-- A known field of an authorization list. -/
inductive Field
  | purpose
  | algorithm
  | keySize
  | blockMode
  | digest
  | padding
  | ecCurve
  | rsaPublicExponent
  | mgfDigest
  | rollbackResistance
  | earlyBootOnly
  | activeDateTime
  | originationExpireDateTime
  | usageExpireDateTime
  | usageCountLimit
  | noAuthRequired
  | userAuthType
  | authTimeout
  | allowWhileOnBody
  | trustedUserPresenceRequired
  | trustedConfirmationRequired
  | unlockedDeviceRequired
  | allApplications
  | applicationId
  | creationDateTime
  | origin
  | rollbackResistant
  | rootOfTrust
  | osVersion
  | osPatchLevel
  | attestationApplicationId
  | attestationIdBrand
  | attestationIdDevice
  | attestationIdProduct
  | attestationIdSerial
  | attestationIdImei
  | attestationIdMeid
  | attestationIdManufacturer
  | attestationIdModel
  | vendorPatchLevel
  | bootPatchLevel
  | deviceUniqueAttestation
  | attestationIdSecondImei
  | moduleHash
  deriving DecidableEq, Repr

namespace Field

/-- What the table says about a field. -/
structure Row where
  /-- The tag of the field. -/
  tag : Nat
  /-- The name of the field. -/
  name : String
  /-- The kind of value it holds. -/
  kind : Kind

/-- The field table. -/
def row : Field → Row
  | .purpose => ⟨1, "purpose", .members .keyPurpose⟩
  | .algorithm => ⟨2, "algorithm", .member .algorithm⟩
  | .keySize => ⟨3, "key_size", .integer uint32Max⟩
  | .blockMode => ⟨4, "block_mode", .members .blockMode⟩
  | .digest => ⟨5, "digest", .members .digest⟩
  | .padding => ⟨6, "padding", .members .padding⟩
  | .ecCurve => ⟨10, "ec_curve", .member .ecCurve⟩
  | .rsaPublicExponent => ⟨200, "rsa_public_exponent", .integer uint64Max⟩
  | .mgfDigest => ⟨203, "mgf_digest", .members .digest⟩
  | .rollbackResistance => ⟨303, "rollback_resistance", .flag⟩
  | .earlyBootOnly => ⟨305, "early_boot_only", .flag⟩
  | .activeDateTime => ⟨400, "active_date_time", .integer uint64Max⟩
  | .originationExpireDateTime => ⟨401, "origination_expire_date_time", .integer uint64Max⟩
  | .usageExpireDateTime => ⟨402, "usage_expire_date_time", .integer uint64Max⟩
  | .usageCountLimit => ⟨405, "usage_count_limit", .integer uint32Max⟩
  | .noAuthRequired => ⟨503, "no_auth_required", .flag⟩
  | .userAuthType => ⟨504, "user_auth_type", .authenticators⟩
  | .authTimeout => ⟨505, "auth_timeout", .integer uint32Max⟩
  | .allowWhileOnBody => ⟨506, "allow_while_on_body", .flag⟩
  | .trustedUserPresenceRequired => ⟨507, "trusted_user_presence_required", .flag⟩
  | .trustedConfirmationRequired => ⟨508, "trusted_confirmation_required", .flag⟩
  | .unlockedDeviceRequired => ⟨509, "unlocked_device_required", .flag⟩
  | .allApplications => ⟨600, "all_applications", .flag⟩
  | .applicationId => ⟨601, "application_id", .octets⟩
  | .creationDateTime => ⟨701, "creation_date_time", .integer uint64Max⟩
  | .origin => ⟨702, "origin", .member .keyOrigin⟩
  | .rollbackResistant => ⟨703, "rollback_resistant", .flag⟩
  | .rootOfTrust => ⟨704, "root_of_trust", .rootOfTrust⟩
  | .osVersion => ⟨705, "os_version", .integer uint32Max⟩
  | .osPatchLevel => ⟨706, "os_patch_level", .integer uint32Max⟩
  | .attestationApplicationId => ⟨709, "attestation_application_id", .applicationId⟩
  | .attestationIdBrand => ⟨710, "attestation_id_brand", .octets⟩
  | .attestationIdDevice => ⟨711, "attestation_id_device", .octets⟩
  | .attestationIdProduct => ⟨712, "attestation_id_product", .octets⟩
  | .attestationIdSerial => ⟨713, "attestation_id_serial", .octets⟩
  | .attestationIdImei => ⟨714, "attestation_id_imei", .octets⟩
  | .attestationIdMeid => ⟨715, "attestation_id_meid", .octets⟩
  | .attestationIdManufacturer => ⟨716, "attestation_id_manufacturer", .octets⟩
  | .attestationIdModel => ⟨717, "attestation_id_model", .octets⟩
  | .vendorPatchLevel => ⟨718, "vendor_patch_level", .integer uint32Max⟩
  | .bootPatchLevel => ⟨719, "boot_patch_level", .integer uint32Max⟩
  | .deviceUniqueAttestation => ⟨720, "device_unique_attestation", .flag⟩
  | .attestationIdSecondImei => ⟨723, "attestation_id_second_imei", .octets⟩
  | .moduleHash => ⟨724, "module_hash", .octets⟩

/-- The tag of a field. -/
def tag (f : Field) : Nat := f.row.tag

/-- The name of a field. -/
def name (f : Field) : String := f.row.name

/-- The kind of value that a field holds. -/
def kind (f : Field) : Kind := f.row.kind

/-- The type of the values of a field. -/
abbrev Value (f : Field) : Type := f.kind.Value

/-- The fields by ascending tag. -/
def all : List Field :=
  [.purpose, .algorithm, .keySize, .blockMode, .digest, .padding, .ecCurve, .rsaPublicExponent,
    .mgfDigest, .rollbackResistance, .earlyBootOnly, .activeDateTime, .originationExpireDateTime,
    .usageExpireDateTime, .usageCountLimit, .noAuthRequired, .userAuthType, .authTimeout,
    .allowWhileOnBody, .trustedUserPresenceRequired, .trustedConfirmationRequired,
    .unlockedDeviceRequired, .allApplications, .applicationId, .creationDateTime, .origin,
    .rollbackResistant, .rootOfTrust, .osVersion, .osPatchLevel, .attestationApplicationId,
    .attestationIdBrand, .attestationIdDevice, .attestationIdProduct, .attestationIdSerial,
    .attestationIdImei, .attestationIdMeid, .attestationIdManufacturer, .attestationIdModel,
    .vendorPatchLevel, .bootPatchLevel, .deviceUniqueAttestation, .attestationIdSecondImei,
    .moduleHash]

/-- The field with a given tag. -/
def ofTag? (tag : Nat) : Option Field := all.find? (·.tag == tag)

/-- The field with a given name. -/
def ofName? (name : String) : Option Field := all.find? (·.name == name)

/-- Every field stands in the list. -/
theorem mem_all (f : Field) : f ∈ all := by
  cases f <;> decide

/-- The fields are listed by ascending tag. -/
theorem all_ascending : all.Pairwise (fun f g => f.tag < g.tag) := by
  decide

/-- A field is found by its own tag. -/
theorem ofTag?_tag (f : Field) : ofTag? f.tag = some f := by
  cases f <;> rfl

/-- A field is found by its own name. -/
theorem ofName?_name (f : Field) : ofName? f.name = some f := by
  cases f <;> rfl

/-- What is found by a tag has that tag. -/
theorem tag_of_ofTag? {tag : Nat} {f : Field} (h : ofTag? tag = some f) : f.tag = tag := by
  have := List.find?_some h
  simpa using this

end Field

end AttestedKey
