import AttestedKey.Proofs.Argument
import AttestedKey.Proofs.Der.Mirrors

/-!
# Structures in place

A root of trust, an application id and an authorization list are read in place by taking one bound
after another: the one of the sequence that they are, and inside it those of their parts.  Every
reader of this file gets the whole input and hands it on, and every test for an end is against the
bound of the structure that is being read.  Only the content of a tag outside the table is taken out
and read once more on its own (`UnknownTag.checkContent`).

Each of them does what the reader of elements does (`Mirrors`), so that the second look at the
content of an unknown tag never finds a fault.
-/

namespace AttestedKey

open Der Outcome

/-! ### Readers -/

namespace RootOfTrust

/-- Reads the hash, which is absent where the bound is reached. -/
def readHashAt (data : Octets) (idx stop : ℕ) : Except Fault (Option Octets × ℕ) :=
  if idx < stop then do
    let (hash, next) ← readAt (Bounds.toOctets data) data idx stop
    return (some hash, next)
  else
    return (none, idx)

/-- Reads the root of trust between some bounds. -/
def ofBounds (rigor : Rigor) (data : Octets) (b : Bounds) : Except Fault RootOfTrust := do
  let sequence ← b.expect .sequence
  let (key, pos) ← readAt (Bounds.toOctets data) data sequence.start sequence.stop
  let (locked, pos) ← readAt (Bounds.toBoolean data) data pos sequence.stop
  let stateOffset := pos
  let (state, pos) ← readAt (Bounds.toNumber data .enumerated) data pos sequence.stop
  if state < 0 then
    malformedNumberAt stateOffset state (.negativeState state)
  else
    let (hash, pos) ← readHashAt data pos sequence.stop
    if pos = sequence.stop then
      let slot ← Slot.recognise .verifiedBootState rigor
        (.code .verifiedBootState state stateField none) (some stateOffset) state
      return ⟨key, locked, slot, hash⟩
    else
      malformedAt pos (.surplusElement structureName)

end RootOfTrust

/-- Reads the package between some bounds. -/
def Package.ofBounds (data : Octets) (b : Bounds) : Except Fault Package := do
  let package ← b.expect .sequence
  let (octets, inner) ← readAt (Bounds.toOctets data) data package.start package.stop
  let (version, inner) ←
    readAt (Bounds.toUnsigned data versionField uint64Max) data inner package.stop
  if inner = package.stop then
    match Octets.toString? octets with
    | some name => return ⟨name, version⟩
    | none => malformedAt package.offset .packageNameText
  else
    malformedAt inner (.surplusElement structureName)

namespace ApplicationId

/-- Adds the package between some bounds to those read before. -/
def addPackageAt (data : Octets) (packages : OrderedSet Package) (b : Bounds) :
    Except Fault (OrderedSet Package) := do
  let package ← Package.ofBounds data b
  if packages.contains package then
    malformedAt b.offset .repeatedPackage
  else
    return packages.insert package

/-- Adds the digest between some bounds to those read before. -/
def addDigestAt (data : Octets) (digests : OrderedSet Octets) (b : Bounds) :
    Except Fault (OrderedSet Octets) := do
  let digest ← b.toOctets data
  if digests.contains digest then
    malformedAt b.offset .repeatedDigest
  else
    return digests.insert digest

/-- Reads an application id that reaches from a place to a bound. -/
def parseAt (data : Octets) (start stop : ℕ) : Except Fault ApplicationId := do
  let (sequence, next) ← readAt (Bounds.expect .sequence) data start stop
  if next = stop then
    let (packages, pos) ← readAt (Bounds.expect .set) data sequence.start sequence.stop
    let (digests, pos) ← readAt (Bounds.expect .set) data pos sequence.stop
    if pos = sequence.stop then
      let packages ← loopAt (addPackageAt data) data packages.start packages.stop .empty
      let digests ← loopAt (addDigestAt data) data digests.start digests.stop .empty
      return ⟨packages, digests⟩
    else
      malformedAt pos (.surplusElement structureName)
  else
    malformedAt next (.trailingData structureName)

end ApplicationId

/-- Adds the number between some bounds to those read before. -/
def addMemberAt (v : Vocabulary) (rigor : Rigor) (f : Field) (data : Octets)
    (slots : OrderedSet (Slot v)) (b : Bounds) : Except Fault (OrderedSet (Slot v)) := do
  let code ← b.toUnsigned data f.name uint32Max
  if slots.contains (.ofCode v code) then
    malformedAt b.offset (.repeatedNumber f.name code)
  else
    let slot ← Slot.recognise v rigor (.code v code f.name (some f.tag)) (some b.offset) code
    return slots.insert slot

/-- Adds the number between some bounds to the end of those read before. -/
def addCodeAt (f : Field) (data : Octets) (codes : List ℤ) (b : Bounds) :
    Except Fault (List ℤ) := do
  let code ← b.toUnsigned data f.name uint32Max
  return codes ++ [code]

/-- The mask between some bounds: a number, or the fold of a set of numbers. -/
def readMaskAt (f : Field) (data : Octets) (b : Bounds) : Except Fault ℤ := do
  if b.tag.tagClass = .universal ∧ b.tag.number = Universal.set.number then
    let members ← b.expect .set
    let codes ← loopAt (addCodeAt f data) data members.start members.stop []
    return Authenticators.mask codes
  else
    b.toUnsigned data f.name uint32Max

/-- The value between some bounds for a field of a kind. -/
def Kind.ofBounds : (k : Kind) → (rigor : Rigor) → (f : Field) → (data : Octets) → (b : Bounds) →
    Except Fault k.Value
  | .integer maximum, _, f, data, b => b.toUnsigned data f.name maximum
  | .member v, rigor, f, data, b => do
    let code ← b.toUnsigned data f.name uint32Max
    Slot.recognise v rigor (.code v code f.name (some f.tag)) (some b.offset) code
  | .members v, rigor, f, data, b => do
    let members ← b.expect .set
    loopAt (addMemberAt v rigor f data) data members.start members.stop OrderedSet.empty
  | .authenticators, rigor, f, data, b => do
    let mask ← readMaskAt f data b
    Authenticators.recognise rigor (some f.tag) (some b.offset) mask
  | .flag, _, _, _, b => do
    b.toNull
    return Flag.raised
  | .octets, _, _, data, b => b.toOctets data
  | .rootOfTrust, rigor, _, data, b => RootOfTrust.ofBounds rigor data b
  | .applicationId, _, _, data, b => do
    let wrapped ← b.expect .octetString
    ApplicationId.parseAt data wrapped.start wrapped.stop

namespace AuthorizationList

/-- Reads the one element that a wrapper holds and makes a value of it. -/
def soleAt {α : Type} (data : Octets) (wrapper : Bounds) (expected : String)
    (interpret : Bounds → Except Fault α) : Except Fault α := do
  let (value, inner) ← readAt interpret data wrapper.start wrapper.stop
  if inner = wrapper.stop then
    return value
  else
    malformedAt inner (.crowdedWrapper wrapper.tag.number expected)

/-- Reads the wrapper of a tag outside the table, and its content once more from the beginning. -/
def addUnknownAt (rigor : Rigor) (data : Octets) (a : AuthorizationList) (wrapper : Bounds) :
    Except Fault AuthorizationList := do
  let number := wrapper.tag.number
  match rigor with
  | .strict => throw (.unrecognised (.tag number) (some wrapper.offset))
  | .lenient =>
    let _ ← soleAt data wrapper s!"[{number}]" (fun b => .ok b)
    UnknownTag.checkContent number (wrapper.content data)
    return a.setUnknown ⟨number, wrapper.content data⟩

/-- Reads the wrapper of a field. -/
def addFieldAt (rigor : Rigor) (data : Octets) (a : AuthorizationList) (f : Field)
    (wrapper : Bounds) : Except Fault AuthorizationList := do
  let value ← soleAt data wrapper f.name (f.kind.ofBounds rigor f data)
  return a.set f value

/-- Reads one wrapper of a list. -/
def addWrapperAt (rigor : Rigor) (data : Octets) (p : Progress) (wrapper : Bounds) :
    Except Fault Progress := do
  let number := wrapper.tag.number
  if !wrapper.tag.isExplicit then
    malformedAt wrapper.offset (.notExplicit wrapper.tag)
  else if p.seen.contains number then
    malformedAt wrapper.offset (.repeatedTag number)
  else
    let list ←
      match Field.ofTag? number with
      | none => addUnknownAt rigor data p.list wrapper
      | some f => addFieldAt rigor data p.list f wrapper
    return ⟨list, number :: p.seen⟩

/-- Reads the list that a sequence is. -/
def parseAt (rigor : Rigor) (data : Octets) (sequence : Bounds) :
    Except Fault AuthorizationList := do
  let p ← loopAt (addWrapperAt rigor data) data sequence.start sequence.stop .start
  return p.list

/-- Reads the list between some bounds, which must be those of a sequence. -/
def ofBounds (rigor : Rigor) (data : Octets) (b : Bounds) : Except Fault AuthorizationList := do
  let sequence ← b.expect .sequence
  parseAt rigor data sequence

end AuthorizationList

/-! ### The same as the readers of elements -/

namespace Der.Mirrors

variable {data : Octets} {stop : ℕ} {b : Bounds}

/-- The region that an element of a universal type opens lies between its bounds. -/
lemma region (b : Bounds) (type : Universal) :
    Mirrors (· = b) (fun b => Cursor.between data b.start b.stop) (b.expect type)
      ((b.element data).ofType type >>= fun e => pure e.inside) := by
  have hexpect := expect data b type
  have hinside : (b.expect type >>= fun b => .ok b) = b.expect type := by
    cases b.expect type <;> rfl
  rw [← hinside]
  refine hexpect.bind ?_
  rintro b rfl
  exact ok b rfl

variable (hstop : stop ≤ data.length)

include hstop

/-- A value that both readers make alike is read alike. -/
lemma readSame {α : Type} {interpret : Bounds → Except Fault α}
    {interpret' : Element → Except Fault α} {idx : ℕ} (hidx : idx ≤ stop)
    (h : ∀ b, b.Within stop → Same (interpret b) (interpret' (b.element data))) :
    Mirrors (upTo stop) (viewAt data stop id) (readAt interpret data idx stop)
      ((Cursor.between data idx stop).read interpret') :=
  (read hstop hidx fun b _ hb => h b hb).imp fun _ hp => hp.2

/-- A region inside a region is read alike. -/
lemma readRegion {idx : ℕ} (hidx : idx ≤ stop) (type : Universal) :
    Mirrors (fun p => p.1.Within stop ∧ p.2 ≤ stop)
      (viewAt data stop fun b => Cursor.between data b.start b.stop)
      (readAt (Bounds.expect type) data idx stop)
      ((Cursor.between data idx stop).read fun e => e.ofType type >>= fun e => pure e.inside) :=
  read hstop hidx fun b _ hb => (region b type).imp fun _ heq => heq ▸ hb

/-- The hash of a root of trust in place. -/
lemma readHash {idx : ℕ} (hidx : idx ≤ stop) :
    Mirrors (upTo stop) (viewAt data stop id) (RootOfTrust.readHashAt data idx stop)
      (RootOfTrust.readHash (Cursor.between data idx stop)) := by
  have hend := Cursor.atEnd_between hidx hstop
  unfold RootOfTrust.readHashAt RootOfTrust.readHash
  by_cases hlt : idx < stop
  · rw [if_pos hlt, if_neg fun h => hlt.ne (hend.mp h)]
    refine (readSame hstop hidx fun b _ => toOctets data b).bind fun hash hhash => ?_
    exact ok (some hash.1, hash.2) hhash
  · rw [if_neg hlt, if_pos (hend.mpr (by omega))]
    exact ok (none, idx) hidx

variable (hb : b.Within stop)

include hb

/-- The content of an element within the input ends within the input. -/
lemma stop_le : b.stop ≤ data.length := hb.stop.trans hstop

/-- A root of trust in place. -/
lemma rootOfTrust (rigor : Rigor) :
    Same (RootOfTrust.ofBounds rigor data b) (RootOfTrust.ofElement rigor (b.element data)) := by
  have hinner := stop_le hstop hb
  unfold RootOfTrust.ofBounds RootOfTrust.ofElement
  refine (region b .sequence).bind ?_
  rintro b rfl
  refine (readSame hinner hb.start fun b _ => toOctets data b).bind fun key hkey => ?_
  refine (readSame hinner hkey fun b hb => toBoolean hinner hb).bind fun locked hlocked => ?_
  refine (readSame hinner hlocked fun b _ => toNumber data b .enumerated).bind
    fun state hstate => ?_
  refine ite Iff.rfl (fun _ => malformedNumberAt locked.2 state.1 _) fun _ => ?_
  refine (readHash hinner hstate).bind fun hash hhash => ?_
  refine ite (Cursor.atEnd_between hhash hinner).symm (fun _ => ?_) fun _ => malformedAt hash.2 _
  exact refl _

/-- A package in place. -/
lemma package : Same (Package.ofBounds data b) (Package.ofElement (b.element data)) := by
  have hinner := stop_le hstop hb
  unfold Package.ofBounds Package.ofElement
  refine (region b .sequence).bind ?_
  rintro b rfl
  refine (readSame hinner hb.start fun b _ => toOctets data b).bind fun octets hoctets => ?_
  refine (readSame hinner hoctets fun b _ => toUnsigned data b _ _).bind fun version hversion => ?_
  refine ite (Cursor.atEnd_between hversion hinner).symm (fun _ => ?_) fun _ =>
    malformedAt version.2 _
  exact refl _

/-- A package is added in place to those before it. -/
lemma addPackage (packages : OrderedSet Package) :
    Same (ApplicationId.addPackageAt data packages b)
      (ApplicationId.addPackage packages (b.element data)) := by
  refine (package hstop hb).bind fun package _ => ?_
  exact ite Iff.rfl (fun _ => malformedAt b.offset _) fun _ => refl _

omit hb in
/-- An application id in place. -/
lemma applicationId {start : ℕ} (hstart : start ≤ stop) :
    Same (ApplicationId.parseAt data start stop)
      (ApplicationId.ofRegion (Cursor.between data start stop)) := by
  unfold ApplicationId.parseAt ApplicationId.ofRegion
  refine (readRegion hstop hstart .sequence).bind fun sequence hsequence => ?_
  obtain ⟨hwithin, hnext⟩ := hsequence
  have hinner := stop_le hstop hwithin
  refine ite (Cursor.atEnd_between hnext hstop).symm (fun _ => ?_) fun _ =>
    malformedAt sequence.2 _
  refine (readRegion hinner hwithin.start .set).bind fun packages hpackages => ?_
  refine (readRegion hinner hpackages.2 .set).bind fun digests hdigests => ?_
  refine ite (Cursor.atEnd_between hdigests.2 hinner).symm (fun _ => ?_) fun _ =>
    malformedAt digests.2 _
  have hpackagesStop := stop_le hinner hpackages.1
  have hdigestsStop := stop_le hinner hdigests.1
  refine (loop hpackagesStop (fun t b hb => addPackage hpackagesStop hb t) hpackages.1.start
    _).bind fun packages _ => ?_
  refine (loop hdigestsStop (fun t b _ => ?_) hdigests.1.start _).bind fun digests _ => refl _
  refine (toOctets data b).bind fun digest _ => ?_
  exact ite Iff.rfl (fun _ => malformedAt b.offset _) fun _ => refl _

omit hstop hb in
/-- A member is added in place to those before it. -/
lemma addMember (v : Vocabulary) (rigor : Rigor) (f : Field) (slots : OrderedSet (Slot v)) :
    Same (addMemberAt v rigor f data slots b)
      (AttestedKey.addMember v rigor f slots (b.element data)) := by
  refine (toUnsigned data b f.name uint32Max).bind fun code _ => ?_
  exact ite Iff.rfl (fun _ => malformedAt b.offset _) fun _ => refl _

/-- A mask in either of its forms in place. -/
lemma readMask (f : Field) :
    Same (readMaskAt f data b) (AttestedKey.readMask f (b.element data)) := by
  have hinner := stop_le hstop hb
  refine ite Iff.rfl (fun _ => ?_) fun _ => toUnsigned data b f.name uint32Max
  refine (region b .set).bind ?_
  rintro b rfl
  refine (loop hinner (fun codes b _ => ?_) hb.start _).bind fun codes _ => refl _
  exact (toUnsigned data b f.name uint32Max).bind fun _ _ => refl _

/-- A value of a field in place. -/
lemma kind (k : Kind) (rigor : Rigor) (f : Field) :
    Same (k.ofBounds rigor f data b) (k.ofElement rigor f (b.element data)) := by
  have hinner := stop_le hstop hb
  cases k with
  | integer maximum => exact toUnsigned data b f.name maximum
  | member v => exact (toUnsigned data b f.name uint32Max).bind fun _ _ => refl _
  | members v =>
    refine (region b .set).bind ?_
    rintro b rfl
    exact loop hinner (fun slots b _ => addMember v rigor f slots) hb.start _
  | authenticators => exact (readMask hstop hb f).bind fun _ _ => refl _
  | flag => exact (toNull data b).bind fun _ _ => refl _
  | octets => exact toOctets data b
  | rootOfTrust => exact rootOfTrust hstop hb rigor
  | applicationId =>
    refine (region b .octetString).bind ?_
    rintro b rfl
    exact applicationId hinner hb.start

/-! ### Lists -/

/-- The one value in a wrapper in place. -/
lemma sole {α β : Type} {view : α → β} {good : α → Prop} {interpret : Bounds → Except Fault α}
    {interpret' : Element → Except Fault β}
    (h : ∀ b', b'.Within b.stop → Mirrors good view (interpret b') (interpret' (b'.element data)))
    (expected : String) :
    Mirrors good view (AuthorizationList.soleAt data b expected interpret)
      (AuthorizationList.sole (b.element data) expected interpret') := by
  have hinner := stop_le hstop hb
  refine (read hinner hb.start fun b' _ hb' => h b' hb').bind fun value hvalue => ?_
  refine ite (Cursor.atEnd_between hvalue.2 hinner).symm (fun _ => ?_) fun _ =>
    malformedAt value.2 _
  exact ok value.1 hvalue.1

/-- The content of a wrapper that holds one element is that of an item. -/
lemma exists_item_of_sole {expected : String} {e : Element}
    (h : AuthorizationList.sole (b.element data) expected (fun e => .ok e) = .ok e) :
    ∃ i : Item, i.Readable ∧ b.content data = i.octets := by
  have hmissing : (Cursor.between data b.start b.stop).missing = 0 :=
    Cursor.between_missing (stop_le hstop hb)
  have hinside : (b.element data).inside = ⟨b.start, b.content data, 0⟩ :=
    congrArg (Cursor.mk b.start (b.content data)) hmissing
  unfold AuthorizationList.sole at h
  rw [hinside] at h
  obtain ⟨i, v, hi, hcontent, -, -⟩ := Cursor.read_last_eq_ok_iff.mp h
  exact ⟨i, hi, hcontent⟩

/-- The second look at the content of an unknown tag finds its one element again. -/
lemma addUnknown (rigor : Rigor) (a : AuthorizationList) :
    Same (AuthorizationList.addUnknownAt rigor data a b)
      (AuthorizationList.addUnknown rigor a (b.element data)) := by
  cases rigor with
  | strict => exact error _
  | lenient =>
    have hsole : Mirrors (fun _ => True) (Bounds.element data)
        (AuthorizationList.soleAt data b s!"[{b.tag.number}]" fun b => .ok b)
        (AuthorizationList.sole (b.element data) s!"[{b.tag.number}]" fun e => .ok e) :=
      sole hstop hb (fun b' _ => ok b' trivial) _
    refine hsole.bindOk fun _ _ hread => ?_
    obtain ⟨i, hi, hcontent⟩ := exists_item_of_sole hstop hb hread
    have hcheck : UnknownTag.checkContent b.tag.number (b.content data) = .ok () :=
      hcontent ▸ UnknownTag.checkContent_octets hi _
    rw [hcheck]
    exact refl _

/-- The value of a field in place. -/
lemma addField (rigor : Rigor) (a : AuthorizationList) (f : Field) :
    Same (AuthorizationList.addFieldAt rigor data a f b)
      (AuthorizationList.addField rigor a f (b.element data)) := by
  have hinner := stop_le hstop hb
  refine Mirrors.bind (sole hstop hb (fun b' hb' => kind hinner hb' f.kind rigor f) f.name) ?_
  exact fun _ _ => refl _

/-- A wrapper of a list in place. -/
lemma addWrapper (rigor : Rigor) (p : AuthorizationList.Progress) :
    Same (AuthorizationList.addWrapperAt rigor data p b)
      (AuthorizationList.addWrapper rigor p (b.element data)) := by
  refine ite Iff.rfl (fun _ => malformedAt b.offset _) fun _ => ?_
  refine ite Iff.rfl (fun _ => malformedAt b.offset _) fun _ => ?_
  have htag : (b.element data).tag = b.tag := rfl
  rw [htag]
  cases Field.ofTag? b.tag.number with
  | none => exact (addUnknown hstop hb rigor p.list).bind fun _ _ => refl _
  | some f => exact (addField hstop hb rigor p.list f).bind fun _ _ => refl _

/-- An authorization list in place. -/
lemma authorizationList (rigor : Rigor) :
    Same (AuthorizationList.ofBounds rigor data b)
      ((b.element data).toSequence >>= AuthorizationList.ofRegion rigor) := by
  refine (region b .sequence).bind ?_
  rintro b rfl
  have hinner := stop_le hstop hb
  exact (loop hinner (fun p b hb => addWrapper hinner hb rigor p) hb.start _).bind
    fun _ _ => refl _

end Der.Mirrors

end AttestedKey
