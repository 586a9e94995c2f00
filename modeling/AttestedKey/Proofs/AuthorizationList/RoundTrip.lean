import AttestedKey.AuthorizationList.Builder
import AttestedKey.Proofs.KeyDescription
import AttestedKey.Proofs.Strictness

/-!
# Reading back what was written

An authorization list comes about in three ways: it is made from arguments, built step by step, or
read (`AuthorizationList.Constructible`).  However it came about it is in normal form
(`Constructible.isNormal`), so whatever can be written of it is read back as it was
(`decode_encode_of_constructible`), unless a flag of it was left blank.
-/

namespace AttestedKey

open Der Outcome

/-! ### Arguments -/

/-- A maker accepts just the numbers of the range. -/
lemma acceptRange_eq_ok_iff {name : String} {maximum : ℕ} {value result : ℤ} :
    acceptRange name maximum value = .ok result ↔
      0 ≤ value ∧ value ≤ maximum ∧ result = value := by
  rw [← @checkRange_eq_ok_iff name]
  unfold acceptRange
  cases checkRange name maximum value <;> simp [Except.mapError]

namespace UnknownTag

/-- Some octets are accepted as a content if they are one element. -/
lemma exists_of_checkContent {number : ℕ} {content : Octets}
    (h : checkContent number content = .ok ()) :
    ∃ i : Item, i.Readable ∧ content = i.octets := by
  obtain ⟨⟨e, after⟩, helement, h⟩ := bind_eq_ok_iff.mp h
  obtain ⟨i, hi, hadv, -⟩ := (Cursor.element_eq_ok_iff rfl).mp helement
  simp only at h
  split at h
  next hend =>
    have hmissing : after.missing = 0 := hadv.missing
    have hafter : after.bytes = [] := (Cursor.atEnd_iff_bytes hmissing).mp hend
    have hbytes : content = i.octets ++ after.bytes := hadv.bytes
    rw [hafter, List.append_nil] at hbytes
    exact ⟨i, hi, hbytes⟩
  · cases h

/-- A tag that was made from arguments is normal. -/
lemma isNormal_of_make {others : List UnknownTag} {number content : Argument} {t : UnknownTag}
    (h : make others number content = .ok t) : t.IsNormal := by
  unfold make at h
  obtain ⟨n, -, hrange⟩ := bind_eq_ok_iff.mp h
  obtain ⟨m, hm, hrest⟩ := bind_eq_ok_iff.mp hrange
  obtain ⟨h0, hmax, rfl⟩ := acceptRange_eq_ok_iff.mp hm
  simp only at hrest
  split at hrest
  · cases hrest
  next hnone =>
    split at hrest
    · cases hrest
    · obtain ⟨octets, -, hcontent⟩ := bind_eq_ok_iff.mp hrest
      obtain ⟨u, hcheck, hmade⟩ := bind_eq_ok_iff.mp hcontent
      obtain rfl : _ = t := Except.ok.inj hmade
      have hok : checkContent m.toNat octets = .ok () := by
        cases hc : checkContent m.toNat octets with
        | ok u => rfl
        | error fault =>
          rw [hc] at hcheck
          cases hcheck
      refine ⟨hnone, ?_, exists_of_checkContent hok⟩
      simp only [maxNumber] at hmax
      change m.toNat < 2 ^ 28
      omega

/-- The tags that a collection describes are normal and in order. -/
lemma isNormal_of_makeAll {a : Argument} {tags : List UnknownTag} (h : makeAll a = .ok tags) :
    Ascending tags ∧ ∀ t ∈ tags, t.IsNormal := by
  obtain ⟨items, -, h⟩ := bind_eq_ok_iff.mp h
  have hstep : ∀ tags' : List UnknownTag, (Ascending tags' ∧ ∀ t ∈ tags', t.IsNormal) →
      ∀ item ∈ items, Ends (fun _ => True)
        (fun tags => Ascending tags ∧ ∀ t ∈ tags, t.IsNormal) (addItem tags' item) := by
    rintro tags' ⟨hascending, hnormal⟩ item -
    cases hadd : addItem tags' item with
    | error refusal => trivial
    | ok tags'' =>
      obtain ⟨⟨number, content⟩, -, hmake⟩ := bind_eq_ok_iff.mp hadd
      obtain ⟨t, ht, hplace⟩ := bind_eq_ok_iff.mp hmake
      obtain rfl : t.place tags' = tags'' := Except.ok.inj hplace
      refine ⟨ascending_place t hascending, fun u hu => ?_⟩
      rcases (mem_place hascending).mp hu with rfl | ⟨hu, -⟩
      · exact isNormal_of_make ht
      · exact hnormal u hu
  have hloop := Ends.foldlM hstep (s := []) ⟨.nil, fun t ht => by cases ht⟩
  rwa [h] at hloop

end UnknownTag

/-- A checked value is normal. -/
lemma Kind.isNormal_of_check {k : Kind} {name : String} {a : Argument} {v : k.Value}
    (h : k.check name a = .ok (some v)) : k.IsNormal v := by
  cases k with
  | authenticators =>
    obtain ⟨items, -, h⟩ := bind_eq_ok_iff.mp h
    obtain ⟨m, -, h⟩ := bind_eq_ok_iff.mp h
    exact ⟨m, (Option.some.inj (Except.ok.inj h)).symm⟩
  | _ => trivial

/-- A blank value is normal. -/
lemma Kind.isNormal_of_blank {k : Kind} {v : k.Value} (h : k.blank? = some v) : k.IsNormal v := by
  cases k with
  | authenticators => cases h
  | _ => trivial

namespace AuthorizationList

/-! ### How lists come about -/

mutual

/-- A list that can be made, built or read. -/
inductive Constructible : AuthorizationList → Prop
  /-- A list that is made from arguments. -/
  | make {arguments : Arguments} {a : AuthorizationList} (h : make arguments = .ok a) :
    Constructible a
  /-- A list that is built. -/
  | build {b : Builder} (h : Builder.Reachable b) : Constructible b.build
  /-- A list that is read from an input of its own. -/
  | decode {rigor : Rigor} {input : Octets} {a : AuthorizationList}
    (h : decode rigor input = .ok a) : Constructible a
  /-- The list that software enforces, of a record that is read. -/
  | software {rigor : Rigor} {input : Octets} {k : KeyDescription}
    (h : KeyDescription.decode rigor input = .ok k) : Constructible k.softwareEnforced
  /-- The list that the secure environment enforces, of a record that is read. -/
  | tee {rigor : Rigor} {input : Octets} {k : KeyDescription}
    (h : KeyDescription.decode rigor input = .ok k) : Constructible k.teeEnforced

/-- A builder that some steps lead to. -/
inductive Builder.Reachable : Builder → Prop
  /-- The builder without a value. -/
  | empty : Builder.Reachable .empty
  /-- A builder made from arguments. -/
  | ofArguments {arguments : Arguments} {b : Builder} (h : Builder.ofArguments arguments = .ok b) :
    Builder.Reachable b
  /-- A builder with the values of a list. -/
  | ofList {a : AuthorizationList} (h : Constructible a) : Builder.Reachable (.ofList a)
  /-- A builder after a field was given a value. -/
  | assign {b b' : Builder} {name : String} {argument : Argument} (h : Builder.Reachable b)
    (hb : b.assign name argument = .ok b') : Builder.Reachable b'
  /-- A builder after a setter was called. -/
  | call {b b' : Builder} {setter : Builder.Setter} {argument : Argument} (h : Builder.Reachable b)
    (hb : b.call setter argument = .ok b') : Builder.Reachable b'
  /-- A builder after a tag outside the table was given its content. -/
  | setUnknown {b b' : Builder} {number content : Argument} (h : Builder.Reachable b)
    (hb : b.setUnknown number content = .ok b') : Builder.Reachable b'

end

/-! ### Normal form -/

/-- The empty list is in normal form. -/
lemma isNormal_empty : empty.IsNormal where
  value := fun f v hv => by cases hv
  ascending := .nil
  unknown := fun t ht => by cases ht

/-- Giving a field a normal value, or none, keeps the normal form. -/
lemma IsNormal.assign {a : AuthorizationList} (h : a.IsNormal) {f : Field} {value : Option f.Value}
    (hvalue : ∀ v ∈ value, f.kind.IsNormal v) : (a.assign f value).IsNormal := by
  refine ⟨fun g v hv => ?_, h.ascending, h.unknown⟩
  by_cases hg : g = f
  · subst hg
    rw [value_assign_self] at hv
    exact hvalue v hv
  · rw [value_assign_of_ne _ _ hg] at hv
    exact h.value g v hv

/-- Giving a normal tag its content keeps the normal form. -/
lemma IsNormal.setUnknown {a : AuthorizationList} (h : a.IsNormal) {t : UnknownTag}
    (ht : t.IsNormal) : (a.setUnknown t).IsNormal := by
  refine ⟨h.value, UnknownTag.ascending_place t h.ascending, fun u hu => ?_⟩
  rcases (UnknownTag.mem_place h.ascending).mp hu with rfl | ⟨hu, -⟩
  · exact ht
  · exact h.unknown u hu

/-- One argument keeps the normal form. -/
lemma isNormal_addArgument (arguments : Arguments) {a : AuthorizationList} (h : a.IsNormal)
    (f : Field) : Ends (fun _ => True) IsNormal (addArgument arguments a f) := by
  unfold addArgument
  split
  · exact h
  · exact h.assign fun v hv => Kind.isNormal_of_blank hv
  next argument _ _ =>
    cases hcheck : f.kind.check f.name argument with
    | error refusal => trivial
    | ok value =>
      refine h.assign fun v hv => ?_
      rw [Option.mem_def.mp hv] at hcheck
      exact Kind.isNormal_of_check hcheck

/-- What a maker makes is in normal form. -/
lemma isNormal_of_make {arguments : Arguments} {a : AuthorizationList}
    (h : make arguments = .ok a) : a.IsNormal := by
  obtain ⟨u, -, h⟩ := bind_eq_ok_iff.mp h
  obtain ⟨a', ha', h⟩ := bind_eq_ok_iff.mp h
  obtain ⟨unknown, hunknown, h⟩ := bind_eq_ok_iff.mp h
  obtain rfl : _ = a := Except.ok.inj h
  have hfields := Ends.foldlM (l := Field.all)
    (fun b hb f _ => isNormal_addArgument arguments hb f) isNormal_empty
  rw [ha'] at hfields
  obtain ⟨hascending, hnormal⟩ := UnknownTag.isNormal_of_makeAll hunknown
  exact ⟨hfields.value, hascending, hnormal⟩

/-- Leaving out the blank flags keeps the normal form. -/
lemma IsNormal.ofList {a : AuthorizationList} (h : a.IsNormal) :
    (Builder.ofList a).draft.IsNormal := by
  refine ⟨fun f v hv => h.value f v ?_, h.ascending, h.unknown⟩
  exact (Option.filter_eq_some_iff.mp hv).1

/-- Without its blank flags, every field of a list that has a value is written. -/
lemma allWritten_ofList (a : AuthorizationList) : (Builder.ofList a).draft.AllWritten := by
  intro f v hv
  exact (Option.filter_eq_some_iff.mp hv).2

/-- Blank flags do not show in what is written. -/
lemma encode_ofList (a : AuthorizationList) : (Builder.ofList a).draft.encode = a.encode := by
  have hentry : (Builder.ofList a).draft.fieldEntry = a.fieldEntry := by
    funext f
    unfold fieldEntry
    change (match (a.value f).filter f.kind.isWritten with
      | none => _
      | some value => _) = _
    cases a.value f with
    | none => rfl
    | some v =>
      rw [Option.filter_some]
      by_cases hwritten : f.kind.isWritten v = true
      · simp only [hwritten, if_true]
      · simp only [hwritten, Bool.false_eq_true, if_false]
  unfold encode entries fieldEntries
  rw [hentry]
  rfl

/-- A step of a builder keeps the normal form. -/
lemma IsNormal.give {b b' : Builder} (h : b.draft.IsNormal) {f : Field} {argument : Argument}
    (hb : b.give f argument = .ok b') : b'.draft.IsNormal := by
  obtain ⟨value, hvalue, hb⟩ := bind_eq_ok_iff.mp hb
  obtain rfl : _ = b' := Except.ok.inj hb
  refine h.assign fun v hv => ?_
  rw [Option.mem_def] at hv
  subst hv
  unfold Builder.valueOf at hvalue
  split at hvalue
  · cases hvalue
  · exact Kind.isNormal_of_check hvalue

/-- An assignment keeps the draft of a builder in normal form. -/
lemma IsNormal.builderAssign {b b' : Builder} (h : b.draft.IsNormal) {name : String}
    {argument : Argument} (hb : b.assign name argument = .ok b') : b'.draft.IsNormal := by
  obtain ⟨f, -, hb⟩ := bind_eq_ok_iff.mp hb
  exact h.give hb

/-- A call of the setter of a field is a step of the builder. -/
lemma IsNormal.call {b b' : Builder} (h : b.draft.IsNormal) {setter : Builder.Setter}
    {argument : Argument} (hb : b.call setter argument = .ok b') : b'.draft.IsNormal := by
  cases setter with
  | field f => exact h.give hb
  | unknown => cases hb

/-- Setting a tag outside the table keeps the draft of a builder in normal form. -/
lemma IsNormal.builderSetUnknown {b b' : Builder} (h : b.draft.IsNormal)
    {number content : Argument} (hb : b.setUnknown number content = .ok b') :
    b'.draft.IsNormal := by
  obtain ⟨t, ht, hb⟩ := bind_eq_ok_iff.mp hb
  obtain rfl : _ = b' := Except.ok.inj hb
  exact h.setUnknown (UnknownTag.isNormal_of_make ht)

/-- A builder that is made of arguments has a draft in normal form. -/
lemma isNormal_of_ofArguments {arguments : Arguments} {b : Builder}
    (h : Builder.ofArguments arguments = .ok b) : b.draft.IsNormal := by
  unfold Builder.ofArguments at h
  split at h
  · cases h
  · have hstep : ∀ c : Builder, c.draft.IsNormal → ∀ argument ∈ arguments,
        Ends (fun _ => True) (fun c : Builder => c.draft.IsNormal)
          (c.assign argument.1 argument.2) := by
      intro c hc argument _
      cases hassign : c.assign argument.1 argument.2 with
      | error refusal => trivial
      | ok c' => exact hc.builderAssign hassign
    have hloop := Ends.foldlM hstep (s := Builder.empty) isNormal_empty
    change Ends _ _ (arguments.foldlM _ _) at hloop
    rw [h] at hloop
    exact hloop

/-- A list that was read in either mode is in normal form. -/
lemma isNormal_of_decode {rigor : Rigor} {input : Octets} {a : AuthorizationList}
    (h : decode rigor input = .ok a) : a.IsNormal := by
  have hlenient := (decode_agrees input).lenient_of_ok (decode · input) h
  obtain ⟨i, -, -, hform⟩ := decode_eq_ok_iff.mp hlenient
  exact isNormal_of_form hform

/-- So are both lists of a record that was read. -/
lemma isNormal_of_decodeRecord {rigor : Rigor} {input : Octets} {k : KeyDescription}
    (h : KeyDescription.decode rigor input = .ok k) : k.IsNormal := by
  have hlenient :=
    (KeyDescription.decode_agrees input).lenient_of_ok (KeyDescription.decode · input) h
  obtain ⟨i, -, -, hform⟩ := KeyDescription.decode_eq_ok_iff.mp hlenient
  exact KeyDescription.isNormal_of_form hform

mutual

/-- However a list came about, it is in normal form. -/
theorem Constructible.isNormal {a : AuthorizationList} : Constructible a → a.IsNormal
  | .make h => isNormal_of_make h
  | .build h => Builder.Reachable.isNormal h
  | .decode h => isNormal_of_decode h
  | .software h => (isNormal_of_decodeRecord h).1
  | .tee h => (isNormal_of_decodeRecord h).2

/-- However a builder came about, it holds a list in normal form. -/
theorem Builder.Reachable.isNormal {b : Builder} : Builder.Reachable b → b.draft.IsNormal
  | .empty => isNormal_empty
  | .ofArguments h => isNormal_of_ofArguments h
  | .ofList h => h.isNormal.ofList
  | .assign h hb => (Builder.Reachable.isNormal h).builderAssign hb
  | .call h hb => (Builder.Reachable.isNormal h).call hb
  | .setUnknown h hb => (Builder.Reachable.isNormal h).builderSetUnknown hb

end

/-! ### The round trip -/

/-- Whatever can be written of a list without blank flags, in as many octets as can be read, is
read back as the same list. -/
theorem decode_encode_of_constructible {a : AuthorizationList} {b : Octets} (h : Constructible a)
    (hwritten : a.AllWritten) (hb : a.encode = .ok b) (hlength : b.length < 2 ^ 32) :
    decode .lenient b = .ok a :=
  h.isNormal.decode_of_encode hwritten hb hlength

/-- Arguments for a list with an empty set, numbers without a name, a mask with bits left over,
empty octets, a root of trust with an empty hash, an application id and a tag outside the table. -/
def mixedArguments : Arguments :=
  [("purpose", .list []), ("algorithm", .integer 77),
    ("digest", .list [.integer 300, .integer 4, .integer 6]),
    ("user_auth_type", .list [.integer 1, .integer 8]), ("no_auth_required", .truth true),
    ("application_id", .octets []),
    ("root_of_trust", .rootOfTrust ⟨[1, 2], true, .ofCode _ 9, some []⟩),
    ("attestation_application_id", .applicationId
      ⟨.ofList [⟨"b", 1⟩, ⟨"aa", 2⟩], .ofList [[], [7, 7], [8]]⟩),
    ("unknown_tags", .list [.list [.integer 1000, .octets [5, 0]]])]

/-- The list that is made of these arguments. -/
def mixed : AuthorizationList :=
  ((((((((empty.set .purpose (.ofList [])).set .algorithm (.ofCode _ 77)).set .digest
    (.ofList [.ofCode _ 4, .ofCode _ 6, .ofCode _ 300])).set .userAuthType
    (.ofList [.known .password, .ofCode _ 8])).set .noAuthRequired .raised).set .applicationId
    []).set .rootOfTrust ⟨[1, 2], true, .ofCode _ 9, some []⟩).set .attestationApplicationId
    ⟨.ofList [⟨"aa", 2⟩, ⟨"b", 1⟩], .ofList [[], [7, 7], [8]]⟩).setUnknown ⟨1000, [5, 0]⟩

/-- The octets in which this list is written. -/
def mixedOctets : Octets :=
  [48, 104, 161, 2, 49, 0, 162, 3, 2, 1, 77, 165, 12, 49, 10, 2, 1, 4, 2, 1, 6, 2, 2, 1, 44, 191,
    131, 119, 2, 5, 0, 191, 131, 120, 3, 2, 1, 9, 191, 132, 89, 2, 4, 0, 191, 133, 64, 14, 48, 12,
    4, 2, 1, 2, 1, 1, 255, 10, 1, 9, 4, 0, 191, 133, 69, 34, 4, 32, 48, 30, 49, 17, 48, 6, 4, 1,
    98, 2, 1, 1, 48, 7, 4, 2, 97, 97, 2, 1, 2, 49, 9, 4, 0, 4, 1, 8, 4, 2, 7, 7, 191, 135, 104, 2,
    5, 0]

/-- The list of many kinds of value is read back from what is written of it. -/
theorem decode_encode_mixed :
    Constructible mixed ∧ mixed.AllWritten ∧ mixed.encode = .ok mixedOctets ∧
      mixedOctets.length < 2 ^ 32 ∧ decode .lenient mixedOctets = .ok mixed := by
  have hmade : make mixedArguments = .ok mixed := eq_ok_of_toOption (by decide +kernel)
  have hread : decode .lenient mixedOctets = .ok mixed := eq_ok_of_toOption (by decide +kernel)
  have hwritten : mixed.AllWritten := by
    have hall : ∀ f ∈ Field.all, (mixed.value f).all f.kind.isWritten = true := by decide +kernel
    intro f v hv
    have hf := hall f (Field.mem_all f)
    rwa [hv] at hf
  have hencode : mixed.encode = .ok mixedOctets :=
    encode_of_isCanonical hread (by decide +kernel) (by decide +kernel)
  have hlength : mixedOctets.length < 2 ^ 32 := by decide
  exact ⟨.make hmade, hwritten, hencode, hlength,
    decode_encode_of_constructible (.make hmade) hwritten hencode hlength⟩

end AuthorizationList

end AttestedKey
