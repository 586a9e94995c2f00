import AttestedKey.AuthorizationList

/-!
# Writing authorization lists

A list is written as a sequence of explicit wrappers by ascending tag.  `Kind.encode` writes
the value of a field, which fails for a number outside the range of the field;
`AuthorizationList.entries` collects the written fields and the unknown tags with their
contents.  The first field that cannot be written, by ascending tag, is the one reported.
-/

namespace AttestedKey

open Der

/-- Writes a number that has to fit into 32 bits. -/
def encodeCode (field : String) (code : Int) : Except RangeError Octets := do
  let code ← checkRange field uint32Max code
  return encodeInteger code

/-- Writes a value of a kind, for the field of the given name. -/
def Kind.encode : (k : Kind) → (field : String) → k.Value → Except RangeError Octets
  | .integer maximum, field, value => do
    let value ← checkRange field maximum value
    return encodeInteger value
  | .member _, field, slot => encodeCode field slot.code
  | .members _, field, slots => do
    let parts ← slots.toList.mapM fun slot => encodeCode field slot.code
    return encodeSet parts
  | .authenticators, field, chosen =>
    encodeCode field (Authenticators.mask chosen.codes)
  | .flag, _, _ => return encodeNull
  | .octets, _, content => return encodeOctets content
  | .rootOfTrust, _, root => root.encode
  | .applicationId, _, application => do
    let inner ← application.encode
    return encodeOctets inner

namespace AuthorizationList

/-- The tag and the written value of a field, if it is written. -/
def fieldEntry (a : AuthorizationList) (f : Field) : Except RangeError (Option (Nat × Octets)) :=
  match a.value f with
  | none => return none
  | some value => do
    if f.kind.isWritten value then
      let inner ← f.kind.encode f.name value
      return some (f.tag, inner)
    else
      return none

/-- The tags and written values of the fields, in ascending order. -/
def fieldEntries (a : AuthorizationList) : Except RangeError (List (Nat × Octets)) :=
  Field.all.filterMapM a.fieldEntry

/-- The tags and contents of all wrappers, in ascending order. -/
def entries (a : AuthorizationList) : Except RangeError (List (Nat × Octets)) := do
  let known ← a.fieldEntries
  let unknown := a.unknown.map fun t => (t.number, t.content)
  return (known ++ unknown).mergeSort (fun p q => p.1 ≤ q.1)

/-- Writes a list. -/
def encode (a : AuthorizationList) : Except RangeError Octets := do
  let entries ← a.entries
  return encodeSequence (entries.map fun (tag, inner) => encodeExplicit tag inner)

end AuthorizationList

end AttestedKey
