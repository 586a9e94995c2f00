import AttestedKey.Der.Encode
import AttestedKey.Der.Primitive
import AttestedKey.Slot

/-!
# The root of trust

The state of verified boot as a secure environment reports it: the key that verified the
software, whether the device is locked, how far the software was verified, and from the third
version on a hash of it.  `RootOfTrust.ofElement` reads it from an element, `decode` from an
input that holds nothing else, and `encode` writes it.
-/

namespace AttestedKey

open Der

/-- The state of verified boot. -/
structure RootOfTrust where
  /-- The key that verified the software. -/
  verifiedBootKey : Octets
  /-- Whether the device is locked. -/
  deviceLocked : Bool
  /-- How far the software was verified. -/
  verifiedBootState : Slot .verifiedBootState
  /-- A hash of the software. -/
  verifiedBootHash : Option Octets
  deriving DecidableEq

namespace RootOfTrust

/-- The name of the structure in messages. -/
def structureName : String := "RootOfTrust"

/-- The name of the field that holds the verified boot state. -/
def stateField : String := "verified_boot_state"

/-- Reads the hash, which is absent at the end of the sequence. -/
def readHash (c : Cursor) : Except Fault (Option Octets × Cursor) := do
  if c.atEnd then
    return (none, c)
  else
    let (hash, c) ← c.read Element.toOctets
    return (some hash, c)

/-- Reads the root of trust that an element holds. -/
def ofElement (rigor : Rigor) (e : Element) : Except Fault RootOfTrust := do
  let c ← e.toSequence
  let (key, c) ← c.read Element.toOctets
  let (locked, c) ← c.read Element.toBoolean
  let stateOffset := c.offset
  let (state, c) ← c.read Element.toEnumerated
  if state < 0 then
    malformedNumberAt stateOffset state (.negativeState state)
  else
    let (hash, c) ← readHash c
    if c.atEnd then
      let slot ← Slot.recognise .verifiedBootState rigor
        (.code .verifiedBootState state stateField none) (some stateOffset) state
      return ⟨key, locked, slot, hash⟩
    else
      malformedAt c.offset (.surplusElement structureName)

/-- Reads an input that holds a root of trust and nothing else. -/
def decode (rigor : Rigor) (input : Octets) : Except Fault RootOfTrust := do
  let (value, c) ← (Cursor.start input).read (ofElement rigor)
  if c.atEnd then
    return value
  else
    malformedAt c.offset (.trailingData structureName)

/-- Writes a root of trust, whose verified boot state has to fit into 32 bits. -/
def encode (r : RootOfTrust) : Except RangeError Octets := do
  let state ← checkRange stateField uint32Max r.verifiedBootState.code
  return encodeSequence
    ([encodeOctets r.verifiedBootKey, encodeBoolean r.deviceLocked, encodeEnumerated state] ++
      r.verifiedBootHash.toList.map encodeOctets)

end RootOfTrust

end AttestedKey
