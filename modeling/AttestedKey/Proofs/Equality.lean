import AttestedKey.Proofs.Argument
import AttestedKey.Proofs.KeyDescription.RoundTrip

/-!
# Equal values and equal encodings

Whatever is written of a value is read back, so values that are written alike are the same: a root
of trust and an application id are determined by their encodings.  An authorization list is so only
up to its blank flags.  A blank flag is a value of its own, which sets the list apart from one whose
flag was never mentioned, but it is not written.  So a list is determined by its encoding together
with its blank fields, and a record by its encoding together with those of its two lists
(`eq_iff_written_alike`).  The empty list and a list with nothing but a blank flag are written alike
and differ (`blank_ne_empty`).
-/

namespace AttestedKey

open Der Outcome

/-! ### Values that are read back -/

/-- Two values are written in the given octets, and those of the first one are few enough to be
read. -/
structure WrittenAs {α : Type} (encode : α → Except RangeError Octets) (v w : α) (x y : Octets) :
    Prop where
  /-- The octets of the first value. -/
  first : encode v = .ok x
  /-- The octets of the second value. -/
  second : encode w = .ok y
  /-- They are few enough. -/
  length_lt : x.length < 2 ^ 32

/-- Values are written alike exactly if their lowered forms are the same, where the lowered form is
what is read back, and is written like the value itself. -/
lemma WrittenAs.alike_iff {α : Type} {encode : α → Except RangeError Octets}
    {decode : Octets → Except Fault α} (lower : α → α) {v w : α} {x y : Octets}
    (h : WrittenAs encode v w x y) (hlower : ∀ u, encode (lower u) = encode u)
    (hv : x.length < 2 ^ 32 → decode x = .ok (lower v))
    (hw : y.length < 2 ^ 32 → decode y = .ok (lower w)) : lower v = lower w ↔ x = y := by
  constructor
  · intro heq
    have hsame : encode v = encode w := by rw [← hlower v, heq, hlower w]
    rw [h.first, h.second] at hsame
    exact Except.ok.inj hsame
  · rintro rfl
    exact Except.ok.inj ((hv h.length_lt).symm.trans (hw h.length_lt))

/-! ### Blank flags -/

/-- Whether a value is there that is not written. -/
def Kind.isBlank (k : Kind) (value : Option k.Value) : Bool := value.any fun v => !k.isWritten v

/-- What a field holds is known from what is written of it and from whether it is blank: there is
at most one value of a kind that is not written. -/
lemma Kind.eq_iff_filter {k : Kind} {o p : Option k.Value} :
    o = p ↔ o.filter k.isWritten = p.filter k.isWritten ∧ k.isBlank o = k.isBlank p := by
  constructor
  · rintro rfl
    exact ⟨rfl, rfl⟩
  · rintro ⟨hwritten, hblank⟩
    have hcases : ∀ q : Option k.Value,
        q = if k.isBlank q then k.blank? else q.filter k.isWritten := by
      intro q
      cases q with
      | none => rfl
      | some v =>
        by_cases hv : k.isWritten v = true
        · simp [isBlank, hv, Option.filter_some]
        · simp [isBlank, hv, (argument_of_not_isWritten hv).2]
    rw [hcases o, hcases p, hwritten, hblank]

namespace AuthorizationList

/-- The fields of a list that were left blank, by ascending tag. -/
def blankFields (a : AuthorizationList) : List Field :=
  Field.all.filter fun f => f.kind.isBlank (a.value f)

/-- A list is known from its values that are written, its unknown tags and its blank fields. -/
lemma eq_iff_ofList {a b : AuthorizationList} :
    a = b ↔
      (Builder.ofList a).draft = (Builder.ofList b).draft ∧ a.blankFields = b.blankFields := by
  constructor
  · rintro rfl
    exact ⟨rfl, rfl⟩
  · rintro ⟨hwritten, hblank⟩
    obtain ⟨hvalues, hunknown⟩ := ext_iff.mp hwritten
    refine ext_iff.mpr ⟨fun f hf => Kind.eq_iff_filter.mpr ⟨hvalues f hf, ?_⟩, hunknown⟩
    have hmem : f ∈ a.blankFields ↔ f ∈ b.blankFields := by rw [hblank]
    simpa only [blankFields, List.mem_filter, hf, true_and, Bool.coe_iff_coe] using hmem

end AuthorizationList

namespace KeyDescription

/-- A record without the blank flags of its lists. -/
def lowered (k : KeyDescription) : KeyDescription :=
  { k with
    softwareEnforced := (AuthorizationList.Builder.ofList k.softwareEnforced).draft
    teeEnforced := (AuthorizationList.Builder.ofList k.teeEnforced).draft }

/-- The fields that were left blank in the two lists of a record. -/
def blankFields (k : KeyDescription) : List Field × List Field :=
  (k.softwareEnforced.blankFields, k.teeEnforced.blankFields)

/-- A record is known from its lowered form and its blank fields. -/
lemma eq_iff_lowered {k l : KeyDescription} :
    k = l ↔ k.lowered = l.lowered ∧ k.blankFields = l.blankFields := by
  constructor
  · rintro rfl
    exact ⟨rfl, rfl⟩
  · rintro ⟨hlowered, hblank⟩
    obtain ⟨hsoftware, htee⟩ := Prod.mk.inj hblank
    have hsoftware' : k.softwareEnforced = l.softwareEnforced :=
      AuthorizationList.eq_iff_ofList.mpr ⟨congrArg softwareEnforced hlowered, hsoftware⟩
    have htee' : k.teeEnforced = l.teeEnforced :=
      AuthorizationList.eq_iff_ofList.mpr ⟨congrArg teeEnforced hlowered, htee⟩
    have hparts : ∀ m : KeyDescription,
        m = { m.lowered with
              softwareEnforced := m.softwareEnforced, teeEnforced := m.teeEnforced } :=
      fun m => rfl
    rw [hparts k, hparts l, hlowered, hsoftware', htee']

/-- Blank flags do not show in what is written of a record. -/
lemma encode_lowered (k : KeyDescription) : k.lowered.encode = k.encode := by
  unfold encode lowered
  rw [AuthorizationList.encode_ofList, AuthorizationList.encode_ofList]

/-- Lowering flags keeps a record in normal form. -/
lemma IsNormal.lowered {k : KeyDescription} (h : k.IsNormal) : k.lowered.IsNormal :=
  ⟨h.1.ofList, h.2.ofList⟩

/-- Nothing in a record is blank after its flags were lowered. -/
lemma allWritten_lowered (k : KeyDescription) : k.lowered.AllWritten :=
  ⟨k.softwareEnforced.allWritten_ofList, k.teeEnforced.allWritten_ofList⟩

/-- Every record of two lists that came about in some way can be made from its arguments. -/
lemma Constructible.of_lists {k : KeyDescription} (hsoftware : k.softwareEnforced.Constructible)
    (htee : k.teeEnforced.Constructible) : Constructible k := by
  refine .make (fun name a hmem => ?_) k.make_arguments
  simp only [arguments, argumentNames, List.zip_cons_cons, List.zip_nil_right, List.mem_cons,
    Prod.mk.injEq, reduceCtorEq, and_false, false_or, Argument.authorizationList.injEq,
    List.not_mem_nil, or_false] at hmem
  rcases hmem with ⟨-, rfl⟩ | ⟨-, rfl⟩
  · exact hsoftware
  · exact htee

/-- So can a record that was read. -/
lemma Constructible.of_decode {rigor : Rigor} {input : Octets} {k : KeyDescription}
    (h : decode rigor input = .ok k) : Constructible k :=
  .of_lists (.software h) (.tee h)

end KeyDescription

/-! ### The result -/

/-- Roots of trust and application ids are equal exactly if they are written alike.  Lists that came
about in any way are so exactly if they are written alike and have the same blank fields, and so
are records. -/
theorem eq_iff_written_alike (x y : Octets) :
    (∀ r s : RootOfTrust, WrittenAs RootOfTrust.encode r s x y → (r = s ↔ x = y)) ∧
      (∀ a b : ApplicationId, WrittenAs ApplicationId.encode a b x y → (a = b ↔ x = y)) ∧
      (∀ a b : AuthorizationList, a.Constructible → b.Constructible →
        WrittenAs AuthorizationList.encode a b x y →
          (a = b ↔ x = y ∧ a.blankFields = b.blankFields)) ∧
      ∀ k l : KeyDescription, k.Constructible → l.Constructible →
        WrittenAs KeyDescription.encode k l x y →
          (k = l ↔ x = y ∧ k.blankFields = l.blankFields) := by
  refine ⟨fun r s h => ?_, fun a b h => ?_, fun a b ha hb h => ?_, fun k l hk hl h => ?_⟩
  · exact h.alike_iff id (fun _ => rfl) (RootOfTrust.decode_of_encode h.first)
      (RootOfTrust.decode_of_encode h.second)
  · exact h.alike_iff id (fun _ => rfl) (ApplicationId.decode_of_encode h.first)
      (ApplicationId.decode_of_encode h.second)
  · have hread : ∀ {c : AuthorizationList} {z : Octets}, c.Constructible → c.encode = .ok z →
        z.length < 2 ^ 32 →
          AuthorizationList.decode .lenient z = .ok (AuthorizationList.Builder.ofList c).draft := by
      intro c z hc hz hlength
      rw [← c.encode_ofList] at hz
      exact hc.isNormal.ofList.decode_of_encode c.allWritten_ofList hz hlength
    rw [AuthorizationList.eq_iff_ofList,
      h.alike_iff _ AuthorizationList.encode_ofList (hread ha h.first) (hread hb h.second)]
  · have hread : ∀ {m : KeyDescription} {z : Octets}, m.Constructible → m.encode = .ok z →
        z.length < 2 ^ 32 → KeyDescription.decode .lenient z = .ok m.lowered := by
      intro m z hm hz hlength
      rw [← m.encode_lowered] at hz
      exact hm.isNormal.lowered.decode_of_encode m.allWritten_lowered hz hlength
    rw [KeyDescription.eq_iff_lowered,
      h.alike_iff KeyDescription.lowered KeyDescription.encode_lowered (hread hk h.first)
        (hread hl h.second)]

/-! ### Values with and without blank flags -/

namespace RootOfTrust

/-- The sample of a root of trust, on a device that is not locked. -/
def sampleUnlocked : RootOfTrust := { sampleRoot with deviceLocked := false }

/-- Two roots of trust that differ are written, and not alike. -/
lemma exists_writtenAs_samples : ∃ x y, WrittenAs encode sampleRoot sampleUnlocked x y :=
  ⟨_, _, rfl, rfl, by decide +kernel⟩

end RootOfTrust

namespace ApplicationId

/-- An application id without packages and digests. -/
def bare : ApplicationId := ⟨.empty, .empty⟩

/-- An application id with one package. -/
def packaged : ApplicationId := ⟨.ofList [⟨"b", 1⟩], .empty⟩

/-- An application id without packages and digests is two empty sets. -/
lemma encode_bare : bare.encode = .ok [48, 4, 49, 0, 49, 0] := by
  simp only [bare, encode, OrderedSet.empty, List.map_nil, List.mapM_nil, pure_eq_ok, ok_bind,
    encodeSet, sortedParts, List.mergeSort_nil]
  decide

/-- A package and no digest are a set of one element and an empty one. -/
lemma encode_packaged :
    packaged.encode = .ok [48, 12, 49, 8, 48, 6, 4, 1, 98, 2, 1, 1, 49, 0] := by
  have hpackages : packaged.packages.toList = [⟨"b", 1⟩] := by decide +kernel
  have hpackage : Package.encode ⟨"b", 1⟩ = .ok [48, 6, 4, 1, 98, 2, 1, 1] := by decide +kernel
  have hdigests : packaged.digests.toList = [] := rfl
  simp only [encode, hpackages, hdigests, List.map_nil, List.mapM_cons, List.mapM_nil, hpackage,
    pure_eq_ok, ok_bind, encodeSet, sortedParts, List.mergeSort_nil, List.mergeSort_singleton]
  decide

end ApplicationId

namespace AuthorizationList

/-- The list of one blank flag. -/
def blankOnly : AuthorizationList := empty.set .noAuthRequired .blank

/-- The octets in which it is written, and the empty list too. -/
def emptyOctets : Octets := [48, 0]

/-- The list with a blank flag only can be made. -/
lemma constructible_blankOnly : blankOnly.Constructible :=
  .make (eq_ok_of_toOption (by decide +kernel) :
    make [("no_auth_required", .absent)] = .ok blankOnly)

/-- A builder that takes the list over forgets the blank flag. -/
lemma ofList_blankOnly : (Builder.ofList blankOnly).draft = empty := by decide +kernel

/-- The empty list is an empty sequence. -/
lemma encode_empty : empty.encode = .ok emptyOctets := by
  have hread : decode .lenient emptyOctets = .ok empty := eq_ok_of_toOption (by decide +kernel)
  exact encode_of_isCanonical hread (by decide +kernel) (by decide +kernel)

/-- A list with a blank flag only is written as the empty list is. -/
lemma writtenAs_blankOnly : WrittenAs encode blankOnly empty emptyOctets emptyOctets := by
  refine ⟨?_, encode_empty, by decide⟩
  rw [← encode_ofList, ofList_blankOnly]
  exact encode_empty

/-- The list of one blank flag and the empty list are written alike, but they are not equal. -/
theorem blank_ne_empty :
    blankOnly.Constructible ∧ empty.Constructible ∧
      WrittenAs encode blankOnly empty emptyOctets emptyOctets ∧ blankOnly ≠ empty :=
  ⟨constructible_blankOnly, .build .empty, writtenAs_blankOnly, by decide +kernel⟩

end AuthorizationList

namespace KeyDescription

/-- A record of zeros with a list that software enforces. -/
def zeros (software : AuthorizationList) : KeyDescription :=
  ⟨0, .ofCode _ 0, 0, .ofCode _ 0, [], [], software, .empty⟩

/-- The octets in which such a record is written if no flag of its list is raised. -/
def zerosOctets : Octets :=
  [48, 20, 2, 1, 0, 10, 1, 0, 2, 1, 0, 10, 1, 0, 4, 0, 4, 0, 48, 0, 48, 0]

/-- So are two records that differ in such a list only. -/
lemma writtenAs_zeros :
    WrittenAs encode (zeros .blankOnly) (zeros .empty) zerosOctets zerosOctets := by
  have hread : decode .lenient zerosOctets = .ok (zeros .empty) :=
    eq_ok_of_toOption (by decide +kernel)
  have hzeros : (zeros .empty).encode = .ok zerosOctets :=
    encode_of_isCanonical hread (by decide +kernel) (by decide +kernel)
  have hempty : (AuthorizationList.Builder.ofList .empty).draft = .empty := by decide +kernel
  have hlowered : (zeros .blankOnly).lowered = zeros .empty := by
    simp only [lowered, zeros, AuthorizationList.ofList_blankOnly, hempty]
  refine ⟨?_, hzeros, by decide⟩
  rw [← encode_lowered, hlowered]
  exact hzeros

end KeyDescription

/-- Two roots of trust and two application ids are told apart by their octets.  A list and a record
with a blank flag are told apart from those without it by their blank fields only. -/
theorem eq_iff_written_alike_samples :
    (∃ x y, WrittenAs RootOfTrust.encode sampleRoot .sampleUnlocked x y ∧
        (sampleRoot = .sampleUnlocked ↔ x = y)) ∧
      (∃ x y, WrittenAs ApplicationId.encode .packaged .bare x y ∧
        (ApplicationId.packaged = .bare ↔ x = y)) ∧
      (∃ x y, WrittenAs AuthorizationList.encode .blankOnly .empty x y ∧
        (AuthorizationList.blankOnly = .empty ↔
          x = y ∧ AuthorizationList.blankOnly.blankFields = AuthorizationList.empty.blankFields)) ∧
      ∃ x y, WrittenAs KeyDescription.encode (.zeros .blankOnly) (.zeros .empty) x y ∧
        (KeyDescription.zeros .blankOnly = .zeros .empty ↔
          x = y ∧ (KeyDescription.zeros .blankOnly).blankFields =
            (KeyDescription.zeros .empty).blankFields) := by
  have hempty : AuthorizationList.empty.Constructible := .build .empty
  have hblank := AuthorizationList.constructible_blankOnly
  refine ⟨?_, ?_, ?_, ?_⟩
  · obtain ⟨x, y, h⟩ := RootOfTrust.exists_writtenAs_samples
    exact ⟨x, y, h, (eq_iff_written_alike x y).1 _ _ h⟩
  · have h : WrittenAs ApplicationId.encode .packaged .bare _ _ :=
      ⟨ApplicationId.encode_packaged, ApplicationId.encode_bare, by decide⟩
    exact ⟨_, _, h, (eq_iff_written_alike _ _).2.1 _ _ h⟩
  · have h := AuthorizationList.writtenAs_blankOnly
    exact ⟨_, _, h, (eq_iff_written_alike _ _).2.2.1 _ _ hblank hempty h⟩
  · have h := KeyDescription.writtenAs_zeros
    exact ⟨_, _, h, (eq_iff_written_alike _ _).2.2.2 _ _ (.of_lists hblank hempty)
      (.of_lists hempty hempty) h⟩

end AttestedKey
