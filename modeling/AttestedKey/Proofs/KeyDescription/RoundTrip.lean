import AttestedKey.Proofs.AuthorizationList.RoundTrip
import AttestedKey.Proofs.Rewriting

/-!
# Reading back a record that was written

A record is made from arguments, either from all eight of them or with defaults for the last four
(`KeyDescription.Constructible`).  Its two lists are then lists that came about in some way, or the
empty list, so the record is in normal form (`Constructible.isNormal`).  Whatever can be written of
it is read back as it was, each list in its own place (`decode_encode_of_arguments`), unless a flag
was left blank.
-/

namespace AttestedKey

open Der Outcome

/-- The argument of a name is one of the arguments, if it was given. -/
lemma Arguments.mem_of_find? {arguments : Arguments} {name : String} {argument : Argument}
    (h : arguments.find? name = some argument) : (name, argument) ∈ arguments := by
  obtain ⟨before, after, rfl, -⟩ := List.lookup_eq_some_iff.mp h
  exact List.mem_append_right _ (List.mem_cons_self ..)

/-- An argument that is a list is one of the arguments. -/
lemma Arguments.mem_of_get_list {arguments : Arguments} {name : String} {a : AuthorizationList}
    (h : arguments.get name = .authorizationList a) :
    (name, Argument.authorizationList a) ∈ arguments := by
  unfold Arguments.get at h
  cases hfind : arguments.find? name with
  | none =>
    rw [hfind] at h
    cases h
  | some argument =>
    rw [hfind] at h
    obtain rfl : argument = .authorizationList a := h
    exact mem_of_find? hfind

namespace KeyDescription

/-- Every list among some arguments came about in some way. -/
def ListsConstructible (arguments : Arguments) : Prop :=
  ∀ (name : String) (a : AuthorizationList), (name, Argument.authorizationList a) ∈ arguments →
    a.Constructible

/-- A record that can be made from arguments. -/
inductive Constructible : KeyDescription → Prop
  /-- A record that is made from its eight arguments. -/
  | make {arguments : Arguments} {k : KeyDescription} (hlists : ListsConstructible arguments)
    (h : make arguments = .ok k) : Constructible k
  /-- A record that is made with defaults. -/
  | create {arguments : Arguments} {k : KeyDescription} (hlists : ListsConstructible arguments)
    (h : create arguments = .ok k) : Constructible k

/-- No flag of either list was left blank. -/
def AllWritten (k : KeyDescription) : Prop :=
  k.softwareEnforced.AllWritten ∧ k.teeEnforced.AllWritten

/-- A maker of records takes just the authorization lists for lists. -/
lemma toList_eq_ok_iff {name : String} {argument : Argument} {a : AuthorizationList} :
    toList name argument = .ok a ↔ argument = .authorizationList a := by
  unfold toList
  split
  · rw [Except.ok.injEq, Argument.authorizationList.injEq]
  next hother => exact iff_of_false (by simp) (hother a)

/-- The lists of a record that was made are among its arguments. -/
lemma lists_of_make {arguments : Arguments} {k : KeyDescription} (h : make arguments = .ok k) :
    arguments.get "software_enforced" = .authorizationList k.softwareEnforced ∧
      arguments.get "tee_enforced" = .authorizationList k.teeEnforced := by
  obtain ⟨_, _, h⟩ := bind_eq_ok_iff.mp h
  obtain ⟨_, _, h⟩ := bind_eq_ok_iff.mp h
  obtain ⟨_, _, h⟩ := bind_eq_ok_iff.mp h
  obtain ⟨_, _, h⟩ := bind_eq_ok_iff.mp h
  obtain ⟨_, _, h⟩ := bind_eq_ok_iff.mp h
  obtain ⟨_, _, h⟩ := bind_eq_ok_iff.mp h
  obtain ⟨_, _, h⟩ := bind_eq_ok_iff.mp h
  obtain ⟨software, hsoftware, h⟩ := bind_eq_ok_iff.mp h
  obtain ⟨tee, htee, h⟩ := bind_eq_ok_iff.mp h
  obtain rfl : _ = k := Except.ok.inj h
  exact ⟨toList_eq_ok_iff.mp hsoftware, toList_eq_ok_iff.mp htee⟩

/-- What a maker makes of lists in normal form is in normal form. -/
lemma isNormal_of_make {arguments : Arguments} {k : KeyDescription}
    (hlists : ListsConstructible arguments) (h : make arguments = .ok k) : k.IsNormal := by
  obtain ⟨hsoftware, htee⟩ := lists_of_make h
  have hsoftware' := hlists _ _ (Arguments.mem_of_get_list hsoftware)
  have htee' := hlists _ _ (Arguments.mem_of_get_list htee)
  exact ⟨hsoftware'.isNormal, htee'.isNormal⟩

/-- An argument for a list is that list, or the empty list stands for it. -/
lemma constructible_of_listOrEmpty {arguments : Arguments} (hlists : ListsConstructible arguments)
    {name : String} {a : AuthorizationList}
    (h : listOrEmpty (arguments.get name) = .authorizationList a) : a.Constructible := by
  unfold listOrEmpty at h
  split at h
  · obtain rfl : AuthorizationList.empty = a := Argument.authorizationList.inj h
    exact .build .empty
  · exact hlists _ _ (Arguments.mem_of_get_list h)

/-- So is what is created with lists left out. -/
lemma isNormal_of_create {arguments : Arguments} {k : KeyDescription}
    (hlists : ListsConstructible arguments) (h : create arguments = .ok k) : k.IsNormal := by
  obtain ⟨_, _, h⟩ := bind_eq_ok_iff.mp h
  obtain ⟨hsoftware, htee⟩ := lists_of_make h
  have hsoftware' : listOrEmpty (arguments.get "software_enforced") =
      .authorizationList k.softwareEnforced := hsoftware
  have htee' : listOrEmpty (arguments.get "tee_enforced") =
      .authorizationList k.teeEnforced := htee
  exact ⟨(constructible_of_listOrEmpty hlists hsoftware').isNormal,
    (constructible_of_listOrEmpty hlists htee').isNormal⟩

/-- However a record was made, it is in normal form. -/
theorem Constructible.isNormal {k : KeyDescription} : Constructible k → k.IsNormal
  | .make hlists h => isNormal_of_make hlists h
  | .create hlists h => isNormal_of_create hlists h

/-- The written form of a record is one of its wire forms, if its numbers fit. -/
lemma IsNormal.form_item {k : KeyDescription} (h : k.IsNormal) (hwritten : k.AllWritten)
    (hrange : k.InRange) (hread : k.item.Readable) : k.Form k.item := by
  obtain ⟨⟨hn₁, hn₃⟩, ⟨hn₂, hn₄⟩, hsoftware, htee⟩ := hrange
  obtain ⟨hread₇, hread₈⟩ := readable_lists hread
  have hnatural : k.IsNatural := ⟨hn₁, hn₂.1, hn₃, hn₄.1⟩
  exact ⟨hnatural, _, _, h.1.form_item hwritten.1 hsoftware hread₇,
    h.2.form_item hwritten.2 htee hread₈, rfl⟩

/-- Whatever can be written of a normal record without blank flags, in as many octets as can be
read, is read back. -/
theorem IsNormal.decode_of_encode {k : KeyDescription} {b : Octets} (h : k.IsNormal)
    (hwritten : k.AllWritten) (hb : k.encode = .ok b) (hlength : b.length < 2 ^ 32) :
    decode .lenient b = .ok k := by
  obtain ⟨hrange, rfl⟩ := h.encode_eq_ok_iff.mp hb
  have hread : k.item.Readable := Item.readable_of_octets (Item.number_lt_of_ofType _ _) hlength
  exact decode_eq_ok_iff.mpr ⟨k.item, hread, rfl, h.form_item hwritten hrange hread⟩

/-- Whatever can be written of a record without blank flags, in as many octets as can be read, is
read back as the same record. -/
theorem decode_encode_of_arguments {k : KeyDescription} {b : Octets} (h : Constructible k)
    (hwritten : k.AllWritten) (hb : k.encode = .ok b) (hlength : b.length < 2 ^ 32) :
    decode .lenient b = .ok k :=
  h.isNormal.decode_of_encode hwritten hb hlength

/-- A canonical form of a record is what is written of the record. -/
lemma encode_of_isCanonical {k : KeyDescription} {input : Octets}
    (h : decode .lenient input = .ok k) (hcodes : k.HasCodes)
    (hcanonical : ∀ i ∈ Item.split input, IsCanonical i) : k.encode = .ok input := by
  obtain ⟨i, hi, rfl, hform⟩ := decode_eq_ok_iff.mp h
  rw [Item.split_octets hi, List.forall_mem_singleton] at hcanonical
  rw [encode_eq_ok_iff_of_form hform, (item_eq_iff hi hform).mpr hcanonical]
  exact ⟨hcodes, rfl⟩

/-- Arguments for a record with a version of 65 bits, a security level without a name, the default
challenge and just one of the two lists. -/
def partialArguments : Arguments :=
  [("attestation_version", .integer 300), ("attestation_security_level", .integer 77),
    ("keymaster_version", .integer 18446744073709551616), ("keymaster_security_level", .integer 1),
    ("unique_id", .octets [7]), ("software_enforced", .authorizationList sampleList)]

/-- The record that is made of these arguments. -/
def partialRecord : KeyDescription :=
  ⟨300, .ofCode _ 77, 18446744073709551616, .ofCode _ 1, [], [7], sampleList, .empty⟩

/-- The octets in which this record is written. -/
def partialOctets : Octets :=
  [48, 52, 2, 2, 1, 44, 10, 1, 77, 2, 9, 1, 0, 0, 0, 0, 0, 0, 0, 0, 10, 1, 1, 4, 0, 4, 1, 7,
    48, 22, 191, 133, 64, 12, 48, 10, 4, 2, 1, 2, 1, 1, 255, 10, 1, 9, 191, 135, 104, 2, 5, 0,
    48, 0]

/-- The record that is made with defaults is read back, with its one list in the place it had. -/
theorem decode_encode_partialRecord :
    Constructible partialRecord ∧ partialRecord.AllWritten ∧
      partialRecord.encode = .ok partialOctets ∧ partialOctets.length < 2 ^ 32 ∧
      decode .lenient partialOctets = .ok partialRecord := by
  have hlists : ListsConstructible partialArguments := by
    intro name a hmem
    simp only [partialArguments, List.mem_cons, Prod.mk.injEq, reduceCtorEq, and_false, false_or,
      Argument.authorizationList.injEq, List.not_mem_nil, or_false] at hmem
    rw [hmem.2]
    exact .decode decode_looseList
  have hcreated : create partialArguments = .ok partialRecord :=
    eq_ok_of_toOption (by decide +kernel)
  have hconstructible : Constructible partialRecord := .create hlists hcreated
  have hread : decode .lenient partialOctets = .ok partialRecord :=
    eq_ok_of_toOption (by decide +kernel)
  have hwritten : partialRecord.AllWritten := by
    obtain ⟨i, -, -, -, software, tee, hsoftware, htee, -⟩ := decode_eq_ok_iff.mp hread
    exact ⟨AuthorizationList.allWritten_of_form hsoftware,
      AuthorizationList.allWritten_of_form htee⟩
  have hencode : partialRecord.encode = .ok partialOctets :=
    encode_of_isCanonical hread (by decide +kernel) (by decide +kernel)
  have hlength : partialOctets.length < 2 ^ 32 := by decide
  exact ⟨hconstructible, hwritten, hencode, hlength,
    decode_encode_of_arguments hconstructible hwritten hencode hlength⟩

end KeyDescription

end AttestedKey
