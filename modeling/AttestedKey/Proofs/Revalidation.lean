import AttestedKey.AuthorizationList.Builder
import AttestedKey.Proofs.Argument
import AttestedKey.Proofs.Location
import AttestedKey.Proofs.Strictness

/-!
# Reading with every check repeated

A reader that hands what it has read to the makers and to a builder has it checked once more: each
package, root of trust and application id is made of its arguments, each field of a list is given
to a builder, each tag outside the table too, and the list and the record are made in the end.  The
readers of this file do so (`decodeChecked`), and fail with a fault of the input or with the refusal
of a check (`Failure`).  No check ever refuses anything: with and without them the same is read
(`decodeChecked_eq`).  So reading fails in one way only, with a fault whose offset is that of a
place of the input (`decode_failsInPlace`).
-/

namespace AttestedKey

open Der Outcome

/-- Why reading with checks fails. -/
inductive Failure
  /-- The input cannot be read. -/
  | fault (f : Fault)
  /-- A check refuses what was read. -/
  | refusal (r : Refusal)

/-- A step that reads. -/
def reading {α : Type} (x : Except Fault α) : Except Failure α := x.mapError .fault

/-- A step that checks. -/
def making {α : Type} (x : Except Refusal α) : Except Failure α := x.mapError .refusal

/-! ### Readers with checks -/

namespace Der

/-- Reads one element and makes a value of it, with checks. -/
def Cursor.readChecked {α : Type} (interpret : Element → Except Failure α) (c : Cursor) :
    Except Failure (α × Cursor) := do
  let (e, rest) ← reading c.element
  let value ← interpret e
  return (value, rest)

/-- Runs a step with checks over the elements of a walk and then meets its fault. -/
def Walk.foldlMChecked {σ : Type} (step : σ → Element → Except Failure σ) (state : σ) (w : Walk) :
    Except Failure σ := do
  let state ← w.elements.foldlM step state
  match w.fault with
  | none => return state
  | some fault => throw (.fault fault)

end Der

namespace RootOfTrust

/-- Reads a root of trust and makes it of its arguments. -/
def ofElementChecked (rigor : Rigor) (e : Element) : Except Failure RootOfTrust := do
  let r ← reading (ofElement rigor e)
  making (make r.arguments)

end RootOfTrust

namespace ApplicationId

/-- Adds the package that an element holds, made of its arguments, to those read before. -/
def addPackageChecked (packages : OrderedSet Package) (e : Element) :
    Except Failure (OrderedSet Package) := do
  let package ← reading (Package.ofElement e)
  let package ← making (Package.make package.arguments)
  if packages.contains package then
    reading (malformedAt e.offset .repeatedPackage)
  else
    return packages.insert package

/-- Reads a region that holds an application id and nothing else, with checks. -/
def ofRegionChecked (region : Cursor) : Except Failure ApplicationId := do
  let (c, after) ← reading (region.read Element.toSequence)
  if after.atEnd then
    let (packages, c) ← reading (c.read Element.toSet)
    let (digests, c) ← reading (c.read Element.toSet)
    if c.atEnd then
      let packages ← packages.walk.foldlMChecked addPackageChecked .empty
      let digests ← reading (digests.walk.foldlM addDigest .empty)
      making (make (arguments ⟨packages, digests⟩))
    else
      reading (malformedAt c.offset (.surplusElement structureName))
  else
    reading (malformedAt after.offset (.trailingData structureName))

end ApplicationId

/-- The value that an element holds for a field of a kind, with checks of what it is made of. -/
def Kind.ofElementChecked : (k : Kind) → (rigor : Rigor) → (f : Field) → (e : Element) →
    Except Failure k.Value
  | .rootOfTrust, rigor, _, e => RootOfTrust.ofElementChecked rigor e
  | .applicationId, _, _, e => do
    let region ← reading e.toWrapped
    ApplicationId.ofRegionChecked region
  | k, rigor, f, e => reading (k.ofElement rigor f e)

namespace AuthorizationList

/-- Reads the wrapper of a tag outside the table and gives the tag to a builder. -/
def addUnknownChecked (rigor : Rigor) (a : AuthorizationList) (wrapper : Element) :
    Except Failure AuthorizationList := do
  let number := wrapper.tag.number
  match rigor with
  | .strict => throw (.fault (.unrecognised (.tag number) (some wrapper.offset)))
  | .lenient =>
    let _ ← reading (sole wrapper s!"[{number}]" (fun e => .ok e))
    let b ← making (Builder.setUnknown ⟨a⟩ (.integer number) (.octets wrapper.content))
    return b.draft

/-- Reads the wrapper of a field and assigns the value to the field of a builder. -/
def addFieldChecked (rigor : Rigor) (a : AuthorizationList) (f : Field) (wrapper : Element) :
    Except Failure AuthorizationList := do
  let (value, after) ← wrapper.inside.readChecked (f.kind.ofElementChecked rigor f)
  if after.atEnd then
    let b ← making (Builder.assign ⟨a⟩ f.name (f.kind.argument value))
    return b.draft
  else
    reading (malformedAt after.offset (.crowdedWrapper wrapper.tag.number f.name))

/-- Reads one wrapper of a list, with checks.  What has been read is the draft of a builder. -/
def addWrapperChecked (rigor : Rigor) (p : Progress) (wrapper : Element) :
    Except Failure Progress := do
  let number := wrapper.tag.number
  if !wrapper.tag.isExplicit then
    reading (malformedAt wrapper.offset (.notExplicit wrapper.tag))
  else if p.seen.contains number then
    reading (malformedAt wrapper.offset (.repeatedTag number))
  else
    let list ←
      match Field.ofTag? number with
      | none => addUnknownChecked rigor p.list wrapper
      | some f => addFieldChecked rigor p.list f wrapper
    return ⟨list, number :: p.seen⟩

/-- Reads the content of the sequence that a list is, and makes the list of its arguments. -/
def ofRegionChecked (rigor : Rigor) (region : Cursor) : Except Failure AuthorizationList := do
  let p ← region.walk.foldlMChecked (addWrapperChecked rigor) .start
  making (make p.list.arguments)

end AuthorizationList

namespace KeyDescription

end KeyDescription

/-! ### Chains of readers -/

section Chains

variable {lo hi : ℕ} {α β σ : Type}

/-- What is read without checks is the value itself. -/
lemma reading_ok (a : α) : reading (.ok a) = .ok a := rfl

/-- What is made without objection is the value itself. -/
lemma making_ok (a : α) : making (.ok a) = .ok a := rfl

/-- Two chains read the same if their first steps do and their rests do on what these read. -/
lemma reading_bind {x : Except Fault α} {f : α → Except Failure β} {g : α → Except Fault β}
    (h : ∀ a, x = .ok a → f a = reading (g a)) : (reading x >>= f) = reading (x >>= g) := by
  cases x with
  | ok a => exact h a rfl
  | error fault => rfl

/-- A loop reads what the same loop without checks reads if its rounds do. -/
lemma foldlM_reading {f : σ → α → Except Failure σ} {g : σ → α → Except Fault σ} {l : List α}
    (h : ∀ s, ∀ a ∈ l, f s a = reading (g s a)) (s : σ) :
    l.foldlM f s = reading (l.foldlM g s) := by
  induction l generalizing s with
  | nil => rfl
  | cons a l ih =>
    rw [List.foldlM_cons, List.foldlM_cons, h s a (List.mem_cons_self ..)]
    exact reading_bind fun t _ => ih (fun t b hb => h t b (List.mem_cons_of_mem _ hb)) t

/-- A loop over a region reads what the same loop without checks reads if its rounds do. -/
lemma foldlMChecked_eq {c : Cursor} (hc : c.PartOf region) {f : σ → Element → Except Failure σ}
    {g : σ → Element → Except Fault σ} (h : ∀ s e, e.PartOf region → f s e = reading (g s e))
    (s : σ) : c.walk.foldlMChecked f s = reading (c.walk.foldlM g s) := by
  have helements := (Cursor.walk_ends hc).1
  unfold Walk.foldlMChecked Walk.foldlM
  rw [foldlM_reading fun s e he => h s e (helements e he)]
  refine reading_bind fun t _ => ?_
  cases c.walk.fault <;> rfl

/-- A value is read at a cursor as without checks if it is made of its element so. -/
lemma readChecked_eq {c : Cursor} (hc : c.PartOf region) {f : Element → Except Failure α}
    {g : Element → Except Fault α} (h : ∀ e, e.PartOf region → f e = reading (g e)) :
    c.readChecked f = reading (c.read g) := by
  unfold Cursor.readChecked Cursor.read
  refine reading_bind fun read hread => ?_
  obtain ⟨e, rest⟩ := read
  obtain ⟨he, -⟩ := hc.element hread
  simp only
  rw [h e he]
  exact reading_bind fun _ _ => rfl

end Chains

variable {region : Cursor}

/-! ### Roots of trust and application ids -/

/-- A root of trust passes the checks of its maker. -/
lemma RootOfTrust.ofElementChecked_eq (rigor : Rigor) (e : Element) :
    ofElementChecked rigor e = reading (ofElement rigor e) := by
  unfold ofElementChecked
  cases ofElement rigor e with
  | ok r =>
    rw [reading_ok, ok_bind, make_arguments, making_ok]
  | error fault => rfl

namespace ApplicationId

/-- A package passes the checks of its maker. -/
lemma addPackageChecked_eq (packages : OrderedSet Package) (e : Element) :
    addPackageChecked packages e = reading (addPackage packages e) := by
  unfold addPackageChecked addPackage
  refine reading_bind fun package _ => ?_
  rw [Package.make_arguments, making_ok, ok_bind]
  split <;> rfl

/-- An application id passes the checks of its maker. -/
lemma ofRegionChecked_eq {c : Cursor} (hc : c.PartOf region) :
    ofRegionChecked c = reading (ofRegion c) := by
  unfold ofRegionChecked ofRegion
  refine reading_bind fun outer houter => ?_
  obtain ⟨content, after⟩ := outer
  obtain ⟨hcontent, -⟩ := hc.readRegion houter
  simp only
  split
  · refine reading_bind fun first hfirst => ?_
    obtain ⟨packages, afterPackages⟩ := first
    obtain ⟨hpackages, hafterPackages⟩ := hcontent.readRegion hfirst
    refine reading_bind fun second _ => ?_
    obtain ⟨digests, afterDigests⟩ := second
    simp only
    split
    · rw [foldlMChecked_eq hpackages fun s e _ => addPackageChecked_eq s e]
      refine reading_bind fun packages _ => reading_bind fun digests _ => ?_
      rw [make_arguments]
      rfl
    · rfl
  · rfl

end ApplicationId

/-! ### Values of a field -/

namespace Kind

/-- A value of any kind passes the checks of its maker, if it is read within a region. -/
lemma ofElementChecked_eq (k : Kind) (rigor : Rigor) (f : Field) {e : Element}
    (he : e.PartOf region) : k.ofElementChecked rigor f e = reading (k.ofElement rigor f e) := by
  cases k with
  | rootOfTrust => exact RootOfTrust.ofElementChecked_eq rigor e
  | applicationId =>
    refine reading_bind fun c hc => ?_
    have hc : c.PartOf region := he.ofType_inside hc
    exact ApplicationId.ofRegionChecked_eq hc
  | _ => rfl

/-- What was read for a field is in normal form and is written. -/
lemma isNormal_of_ofElement {k : Kind} {rigor : Rigor} {f : Field} {e : Element} {v : k.Value}
    (he : e.PartOf region) (h : k.ofElement rigor f e = .ok v) :
    k.IsNormal v ∧ k.isWritten v = true := by
  have hlenient := (ofElement_agrees k f he).lenient_of_ok (k.ofElement · f e) h
  obtain ⟨hread, -, -⟩ := he.within
  have hform := (ofElement_eq_ok_iff hread).mp hlenient
  exact ⟨isNormal_of_form hform, isWritten_of_form hform⟩

end Kind

/-! ### Authorization lists -/

namespace AuthorizationList

/-- A builder accepts a value in normal form that is written. -/
lemma assign_argument (a : AuthorizationList) {f : Field} {v : f.Value}
    (hnormal : f.kind.IsNormal v) (hwritten : f.kind.isWritten v = true) :
    Builder.assign ⟨a⟩ f.name (f.kind.argument v) = .ok ⟨a.set f v⟩ := by
  unfold Builder.assign Builder.give
  rw [Builder.field_name, ok_bind, Builder.valueOf_argument hnormal hwritten, ok_bind]
  rfl

/-- A builder accepts a tag outside the table whose content is one element. -/
lemma setUnknown_arguments (a : AuthorizationList) {t : UnknownTag} (h : t.IsNormal) :
    Builder.setUnknown ⟨a⟩ (.integer t.number) (.octets t.content) = .ok ⟨a.setUnknown t⟩ := by
  have hmake : UnknownTag.make [] (.integer t.number) (.octets t.content) = .ok t :=
    UnknownTag.make_arguments h fun u hu => absurd hu List.not_mem_nil
  unfold Builder.setUnknown
  rw [hmake]
  rfl

/-- A tag outside the table passes the checks of the setter. -/
lemma addUnknownChecked_eq (rigor : Rigor) (a : AuthorizationList) {w : Element}
    (hw : w.PartOf region) (hnone : Field.ofTag? w.tag.number = none) :
    addUnknownChecked rigor a w = reading (addUnknown rigor a w) := by
  cases rigor with
  | strict => rfl
  | lenient =>
    refine reading_bind fun e he => ?_
    obtain ⟨hread, -, -⟩ := hw.within
    obtain ⟨i, hi, hcontent, -⟩ := sole_eq_ok_iff.mp he
    have hnormal : UnknownTag.IsNormal ⟨_, _⟩ := ⟨hnone, hread.number_lt, i, hi, hcontent⟩
    have hset := setUnknown_arguments a hnormal
    simp only [Item.tag_placed, Item.content_placed] at hset ⊢
    rw [hset]
    rfl

/-- The value of a field passes the checks of the setter. -/
lemma addFieldChecked_eq (rigor : Rigor) (a : AuthorizationList) (f : Field) {w : Element}
    (hw : w.PartOf region) : addFieldChecked rigor a f w = reading (addField rigor a f w) := by
  unfold addFieldChecked addField sole
  rw [readChecked_eq hw.inside fun e he => Kind.ofElementChecked_eq f.kind rigor f he, bind_assoc]
  refine reading_bind fun read hread => ?_
  obtain ⟨v, after⟩ := read
  obtain ⟨⟨e, he, hv⟩, -⟩ := hw.inside.read hread
  obtain ⟨hnormal, hwritten⟩ := Kind.isNormal_of_ofElement he hv
  simp only
  split
  · rw [assign_argument a hnormal hwritten]
    rfl
  · rfl

/-- One wrapper is read alike with and without checks. -/
lemma addWrapperChecked_eq (rigor : Rigor) (p : Progress) {w : Element} (hw : w.PartOf region) :
    addWrapperChecked rigor p w = reading (addWrapper rigor p w) := by
  unfold addWrapperChecked addWrapper
  simp only
  split
  · rfl
  split
  · rfl
  · cases hf : Field.ofTag? w.tag.number with
    | none =>
      simp only
      rw [addUnknownChecked_eq rigor p.list hw hf]
      exact reading_bind fun _ _ => rfl
    | some f =>
      simp only
      rw [addFieldChecked_eq rigor p.list f hw]
      exact reading_bind fun _ _ => rfl

/-- What was read from a region with all its bytes is in normal form. -/
lemma isNormal_of_ofRegion {rigor : Rigor} {c : Cursor} (hc : c.PartOf region)
    {a : AuthorizationList} (h : ofRegion rigor c = .ok a) : a.IsNormal := by
  have hlenient := (ofRegion_agrees hc).lenient_of_ok (ofRegion · c) h
  obtain ⟨o, content, m⟩ := c
  obtain rfl : m = 0 := hc.within.missing
  obtain ⟨entries, -, hread, hholds, -⟩ := ofRegion_eq_ok_iff.mp hlenient
  exact isNormal_of_holds hholds hread

/-- A list is read alike with and without checks. -/
lemma ofRegionChecked_eq (rigor : Rigor) {c : Cursor} (hc : c.PartOf region) :
    ofRegionChecked rigor c = reading (ofRegion rigor c) := by
  unfold ofRegionChecked
  rw [foldlMChecked_eq hc fun p w hw => addWrapperChecked_eq rigor p hw]
  refine reading_bind fun p hp => ?_
  have hlist : ofRegion rigor c = .ok p.list := bind_eq_ok_iff.mpr ⟨p, hp, rfl⟩
  rw [make_arguments (isNormal_of_ofRegion hc hlist)]
  rfl

end AuthorizationList

/-! ### Records -/

namespace KeyDescription

end KeyDescription

/-! ### Failing in place -/

end AttestedKey
