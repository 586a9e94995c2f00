import AttestedKey.AuthorizationList
import AttestedKey.Der.Primitive

/-!
# Reading authorization lists

A list is a sequence of explicit wrappers with distinct tags, in any order, each around exactly
one element.  `Kind.ofElement` makes a value of that element for a field of the table; for a
tag outside the table lenient reading keeps the content of the wrapper, and strict reading
stops.  `AuthorizationList.ofRegion` reads the content of the sequence, and `decode` an input
that holds one list and nothing else.
-/

namespace AttestedKey

open Der

/-- Adds the number that an element holds to those read before. -/
def addMember (v : Vocabulary) (rigor : Rigor) (f : Field) (slots : OrderedSet (Slot v))
    (e : Element) : Except Fault (OrderedSet (Slot v)) := do
  let code ← e.toUnsigned f.name uint32Max
  if slots.contains (.ofCode v code) then
    malformedAt e.offset (.repeatedNumber f.name code)
  else
    let slot ← Slot.recognise v rigor (.code v code f.name (some f.tag)) (some e.offset) code
    return slots.insert slot

/-- Adds the number that an element holds to the end of those read before. -/
def addCode (f : Field) (codes : List Int) (e : Element) : Except Fault (List Int) := do
  let code ← e.toUnsigned f.name uint32Max
  return codes ++ [code]

/-- The mask that an element holds: a number, or the fold of a set of numbers. -/
def readMask (f : Field) (e : Element) : Except Fault Int := do
  if e.tag.tagClass = .universal ∧ e.tag.number = Universal.set.number then
    let region ← e.toSet
    let codes ← region.walk.foldlM (addCode f) []
    return Authenticators.mask codes
  else
    e.toUnsigned f.name uint32Max

/-- The value that an element holds for a field of a kind. -/
def Kind.ofElement : (k : Kind) → (rigor : Rigor) → (f : Field) → (e : Element) →
    Except Fault k.Value
  | .integer maximum, _, f, e => e.toUnsigned f.name maximum
  | .member v, rigor, f, e => do
    let code ← e.toUnsigned f.name uint32Max
    Slot.recognise v rigor (.code v code f.name (some f.tag)) (some e.offset) code
  | .members v, rigor, f, e => do
    let region ← e.toSet
    region.walk.foldlM (addMember v rigor f) OrderedSet.empty
  | .authenticators, rigor, f, e => do
    let mask ← readMask f e
    Authenticators.recognise rigor (some f.tag) (some e.offset) mask
  | .flag, _, _, e => do
    e.toNull
    return Flag.raised
  | .octets, _, _, e => e.toOctets
  | .rootOfTrust, rigor, _, e => RootOfTrust.ofElement rigor e
  | .applicationId, _, _, e => do
    let region ← e.toWrapped
    ApplicationId.ofRegion region

namespace AuthorizationList

/-- A list that is being read, with the tags met so far. -/
structure Progress where
  /-- What has been read. -/
  list : AuthorizationList
  /-- The tags that were met. -/
  seen : List Nat

/-- Nothing read yet. -/
def Progress.start : Progress := ⟨.empty, []⟩

/-- Reads the one element that a wrapper holds and makes a value of it. -/
def sole {α : Type} (wrapper : Element) (expected : String)
    (interpret : Element → Except Fault α) : Except Fault α := do
  let (value, after) ← wrapper.inside.read interpret
  if after.atEnd then
    return value
  else
    malformedAt after.offset (.crowdedWrapper wrapper.tag.number expected)

/-- Reads the wrapper of a tag outside the table. -/
def addUnknown (rigor : Rigor) (a : AuthorizationList) (wrapper : Element) :
    Except Fault AuthorizationList := do
  let number := wrapper.tag.number
  match rigor with
  | .strict => throw (.unrecognised (.tag number) (some wrapper.offset))
  | .lenient =>
    let _ ← sole wrapper s!"[{number}]" (fun e => .ok e)
    return a.setUnknown ⟨number, wrapper.content⟩

/-- Reads the wrapper of a field. -/
def addField (rigor : Rigor) (a : AuthorizationList) (f : Field) (wrapper : Element) :
    Except Fault AuthorizationList := do
  let value ← sole wrapper f.name (f.kind.ofElement rigor f)
  return a.set f value

/-- Reads one wrapper of a list. -/
def addWrapper (rigor : Rigor) (p : Progress) (wrapper : Element) : Except Fault Progress := do
  let number := wrapper.tag.number
  if !wrapper.tag.isExplicit then
    malformedAt wrapper.offset (.notExplicit wrapper.tag)
  else if p.seen.contains number then
    malformedAt wrapper.offset (.repeatedTag number)
  else
    let list ←
      match Field.ofTag? number with
      | none => addUnknown rigor p.list wrapper
      | some f => addField rigor p.list f wrapper
    return ⟨list, number :: p.seen⟩

/-- Reads the content of the sequence that a list is. -/
def ofRegion (rigor : Rigor) (region : Cursor) : Except Fault AuthorizationList := do
  let p ← region.walk.foldlM (addWrapper rigor) .start
  return p.list

/-- Reads an input that holds one list and nothing else. -/
def decode (rigor : Rigor) (input : Octets) : Except Fault AuthorizationList := do
  let (region, after) ← (Cursor.start input).read Element.toSequence
  if after.atEnd then
    ofRegion rigor region
  else
    malformedAt after.offset (.trailingData structureName)

end AuthorizationList

end AttestedKey
