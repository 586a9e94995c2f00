import AttestedKey.AuthorizationList.Decode
import AttestedKey.Proofs.Der.Moved

/-!
# Structures at another place

What holds of single elements holds of the structures that are made of them: a root of trust, an
application id and an authorization list are read some places further on as they are read where they
stand (`Moves.rootOfTrust`, `Moves.applicationId`, `Moves.authorizationList`).  No reader of a
structure forgets where it is, also inside a wrapper or a nested list.
-/

namespace AttestedKey.Moves

open Der

variable (s : ℕ)

/-! ### Numbers with names -/

/-- A number finds its slot, or is refused, some places further on. -/
lemma recogniseSlot (v : Vocabulary) (rigor : Rigor) (what : Unrecognised) (o : ℕ) (code : ℤ) :
    Moves s id (Slot.recognise v rigor what (some (o : ℤ)) code)
      (Slot.recognise v rigor what (some ((s + o : ℕ) : ℤ)) code) := by
  unfold Slot.recognise
  split
  · exact ok _
  · exact ok _
  · exact refusal what o

/-- A mask finds its set, or is refused, some places further on. -/
lemma recogniseMask (rigor : Rigor) (tag : Option ℤ) (o : ℕ) (mask : ℤ) :
    Moves s id (Authenticators.recognise rigor tag (some (o : ℤ)) mask)
      (Authenticators.recognise rigor tag (some ((s + o : ℕ) : ℤ)) mask) := by
  unfold Authenticators.recognise
  split
  · exact unrecognised _ o
  · exact ok _

/-! ### Roots of trust -/

/-- The hash of a root of trust, some places further on. -/
lemma readHash (c : Cursor) :
    Moves s (Prod.map id (Cursor.moved s)) (RootOfTrust.readHash c)
      (RootOfTrust.readHash (c.moved s)) := by
  refine ite (fun _ => ok _) fun _ => ?_
  exact (read (toOctets s) c).bind fun _ => ok _

/-- A root of trust, some places further on. -/
lemma rootOfTrust (rigor : Rigor) (e : Element) :
    Moves s id (RootOfTrust.ofElement rigor e) (RootOfTrust.ofElement rigor (e.moved s)) := by
  unfold RootOfTrust.ofElement
  refine (toSequence s e).bind fun c => ?_
  refine (read (toOctets s) c).bind fun key => ?_
  refine (read (toBoolean s) key.2).bind fun locked => ?_
  refine (read (toNumber s .enumerated) locked.2).bind fun state => ?_
  refine ite (fun _ => malformedNumberAt locked.2.offset state.1 _) fun _ => ?_
  refine (readHash s state.2).bind fun hash => ?_
  refine ite (fun _ => ?_) fun _ => malformedAt hash.2.offset _
  refine (recogniseSlot s .verifiedBootState rigor _ locked.2.offset state.1).bind fun slot => ?_
  exact ok _

/-! ### Application ids -/

/-- A package, some places further on. -/
lemma package (e : Element) :
    Moves s id (Package.ofElement e) (Package.ofElement (e.moved s)) := by
  unfold Package.ofElement
  refine (toSequence s e).bind fun c => ?_
  refine (read (toOctets s) c).bind fun octets => ?_
  refine (read (toUnsigned s _ _) octets.2).bind fun version => ?_
  refine ite (fun _ => ?_) fun _ => malformedAt version.2.offset _
  simp only [id_eq]
  cases Octets.toString? octets.1 with
  | some name => exact ok _
  | none => exact malformedAt e.offset _

/-- A package is added to those before it, some places further on. -/
lemma addPackage (packages : OrderedSet Package) (e : Element) :
    Moves s id (ApplicationId.addPackage packages e)
      (ApplicationId.addPackage packages (e.moved s)) := by
  refine (package s e).bind fun package => ?_
  exact ite (fun _ => malformedAt e.offset _) fun _ => ok _

/-- A digest is added to those before it, some places further on. -/
lemma addDigest (digests : OrderedSet Octets) (e : Element) :
    Moves s id (ApplicationId.addDigest digests e)
      (ApplicationId.addDigest digests (e.moved s)) := by
  refine (toOctets s e).bind fun digest => ?_
  exact ite (fun _ => malformedAt e.offset _) fun _ => ok _

/-- An application id, some places further on. -/
lemma applicationId (region : Cursor) :
    Moves s id (ApplicationId.ofRegion region) (ApplicationId.ofRegion (region.moved s)) := by
  unfold ApplicationId.ofRegion
  refine (read (toSequence s) region).bind fun sequence => ?_
  refine ite (fun _ => ?_) fun _ => malformedAt sequence.2.offset _
  refine (read (toSet s) sequence.1).bind fun packages => ?_
  refine (read (toSet s) packages.2).bind fun digests => ?_
  refine ite (fun _ => ?_) fun _ => malformedAt digests.2.offset _
  refine (foldlM_walk (addPackage s) packages.1 _).bind fun packages => ?_
  refine (foldlM_walk (addDigest s) digests.1 _).bind fun digests => ?_
  exact ok _

/-! ### Values of fields -/

/-- A member is added to those before it, some places further on. -/
lemma addMember (v : Vocabulary) (rigor : Rigor) (f : Field) (slots : OrderedSet (Slot v))
    (e : Element) :
    Moves s id (AttestedKey.addMember v rigor f slots e)
      (AttestedKey.addMember v rigor f slots (e.moved s)) := by
  refine (toUnsigned s f.name uint32Max e).bind fun code => ?_
  refine ite (fun _ => malformedAt e.offset _) fun _ => ?_
  exact (recogniseSlot s v rigor _ e.offset code).bind fun slot => ok _

/-- The number of an authenticator is added to those before it, some places further on. -/
lemma addCode (f : Field) (codes : List ℤ) (e : Element) :
    Moves s id (AttestedKey.addCode f codes e) (AttestedKey.addCode f codes (e.moved s)) :=
  (toUnsigned s f.name uint32Max e).bind fun _ => ok _

/-- A mask in either of its forms, some places further on. -/
lemma readMask (f : Field) (e : Element) :
    Moves s id (AttestedKey.readMask f e) (AttestedKey.readMask f (e.moved s)) := by
  refine ite (fun _ => ?_) fun _ => toUnsigned s f.name uint32Max e
  refine (toSet s e).bind fun region => ?_
  exact (foldlM_walk (addCode s f) region _).bind fun codes => ok _

/-- A value of a field, some places further on. -/
lemma kind (k : Kind) (rigor : Rigor) (f : Field) (e : Element) :
    Moves s id (k.ofElement rigor f e) (k.ofElement rigor f (e.moved s)) := by
  cases k with
  | integer maximum => exact toUnsigned s f.name maximum e
  | member v =>
    refine (toUnsigned s f.name uint32Max e).bind fun code => ?_
    exact recogniseSlot s v rigor _ e.offset code
  | members v =>
    refine (toSet s e).bind fun region => ?_
    exact foldlM_walk (addMember s v rigor f) region _
  | authenticators =>
    refine (readMask s f e).bind fun mask => ?_
    exact recogniseMask s rigor (some f.tag) e.offset mask
  | flag => exact (toNull s e).bind fun _ => ok _
  | octets => exact toOctets s e
  | rootOfTrust => exact rootOfTrust s rigor e
  | applicationId => exact (toWrapped s e).bind fun region => applicationId s region

/-! ### Authorization lists -/

/-- The one value in a wrapper, some places further on. -/
lemma sole {α : Type} {interpret : Element → Except Fault α} {move : α → α}
    (h : ∀ e, Moves s move (interpret e) (interpret (e.moved s))) (wrapper : Element)
    (expected : String) :
    Moves s move (AuthorizationList.sole wrapper expected interpret)
      (AuthorizationList.sole (wrapper.moved s) expected interpret) := by
  refine (read h wrapper.inside).bind fun value => ?_
  exact ite (fun _ => ok _) fun _ => malformedAt value.2.offset _

/-- A tag outside the table, some places further on. -/
lemma addUnknown (rigor : Rigor) (a : AuthorizationList) (wrapper : Element) :
    Moves s id (AuthorizationList.addUnknown rigor a wrapper)
      (AuthorizationList.addUnknown rigor a (wrapper.moved s)) := by
  cases rigor with
  | strict => exact unrecognised _ wrapper.offset
  | lenient =>
    have hkeep : ∀ e : Element, Moves s (Element.moved s) (.ok e) (.ok (e.moved s)) :=
      fun e => ok e
    exact (sole s hkeep wrapper s!"[{wrapper.tag.number}]").bind fun _ => ok _

/-- The value of a field, some places further on. -/
lemma addField (rigor : Rigor) (a : AuthorizationList) (f : Field) (wrapper : Element) :
    Moves s id (AuthorizationList.addField rigor a f wrapper)
      (AuthorizationList.addField rigor a f (wrapper.moved s)) :=
  (sole s (kind s f.kind rigor f) wrapper f.name).bind fun _ => ok _

/-- A wrapper of a list, some places further on. -/
lemma addWrapper (rigor : Rigor) (p : AuthorizationList.Progress) (wrapper : Element) :
    Moves s id (AuthorizationList.addWrapper rigor p wrapper)
      (AuthorizationList.addWrapper rigor p (wrapper.moved s)) := by
  refine ite (fun _ => malformedAt wrapper.offset _) fun _ => ?_
  refine ite (fun _ => malformedAt wrapper.offset _) fun _ => ?_
  have htag : (wrapper.moved s).tag = wrapper.tag := rfl
  rw [htag]
  cases Field.ofTag? wrapper.tag.number with
  | none => exact (addUnknown s rigor p.list wrapper).bind fun _ => ok _
  | some f => exact (addField s rigor p.list f wrapper).bind fun _ => ok _

/-- An authorization list, some places further on. -/
lemma authorizationList (rigor : Rigor) (region : Cursor) :
    Moves s id (AuthorizationList.ofRegion rigor region)
      (AuthorizationList.ofRegion rigor (region.moved s)) :=
  (foldlM_walk (addWrapper s rigor) region _).bind fun _ => ok _

end AttestedKey.Moves
