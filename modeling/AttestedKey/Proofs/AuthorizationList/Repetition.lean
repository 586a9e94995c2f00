import AttestedKey.Proofs.ApplicationId.Grammar
import AttestedKey.Proofs.AuthorizationList.Masks

/-!
# Repeated members of sets

The readers of a field go through the sets in its item (`Kind.sets`): a set of numbers, or the two
sets of an application id.  Whatever was read, the members of each of these sets are distinct, and
the value has as many members as the set (`Kind.sets_of_form`).

A set of authenticators is the exception.  Its numbers are folded into a mask, so a number that
stands twice is neither refused nor counted twice: any two sets of the same numbers are read alike
(`elsewhere_decode_of_mem`).
-/

namespace AttestedKey

open Der Outcome

/-- The sets in an item that the readers of a kind go through. -/
def Kind.sets : Kind → Item → List Item
  | .members _, i => [i]
  | .authenticators, i => if i.tag = Universal.set.tag then [i] else []
  | .applicationId, i => (Item.split i.content).flatMap Item.parts
  | _, _ => []

/-- The numbers of members of the sets that a value is made of. -/
def Kind.sizes : (k : Kind) → k.Value → List ℕ
  | .members _, s => [s.toList.length]
  | .authenticators, s => [s.toList.length]
  | .applicationId, a => [a.packages.toList.length, a.digests.toList.length]
  | _, _ => []

/-- An item is a set of distinct members. -/
def Der.Item.IsDistinctSet (i : Item) : Prop := i = .set i.parts ∧ i.parts.Nodup

/-- A set of the items of some distinct values is one of distinct members, and as many. -/
lemma Der.Item.isDistinctSet_set {α : Type} {form : α → Item} {l : List α} (hnodup : l.Nodup)
    (hread : ∀ a ∈ l, (form a).Readable) (hinj : ∀ a ∈ l, ∀ b ∈ l, form a = form b → a = b) :
    (set (l.map form)).IsDistinctSet ∧ (set (l.map form)).parts.length = l.length := by
  have hparts : (set (l.map form)).parts = l.map form := parts_set (List.forall_mem_map.mpr hread)
  unfold IsDistinctSet
  rw [hparts]
  exact ⟨⟨rfl, hnodup.map_on hinj⟩, List.length_map form⟩

namespace Kind

/-- The sets in an item that is a wire form of a value have distinct members, and the value has as
many, unless it is a set of authenticators. -/
theorem sets_of_form {k : Kind} {v : k.Value} {i : Item} (hi : i.Readable) (h : k.Form v i)
    (hk : k ≠ .authenticators) :
    (∀ s ∈ k.sets i, s.IsDistinctSet) ∧ k.sizes v = (k.sets i).map fun s => s.parts.length := by
  cases k with
  | members w =>
    obtain ⟨slots, hslots, -, rfl⟩ := h
    have hnodup : slots.Nodup := hslots.nodup_iff.mpr (OrderedSet.nodup_toList _)
    have hread : ∀ s ∈ slots, s.item.Readable :=
      Item.readable_of_ofType_map hi fun s _ => Item.number_lt_of_ofType _ _
    obtain ⟨hdistinct, hlength⟩ := Item.isDistinctSet_set hnodup hread
      fun s _ t _ heq => Slot.code_injective (Item.integer_injective heq)
    refine ⟨List.forall_mem_singleton.mpr hdistinct, ?_⟩
    change [List.length _] = [List.length _]
    rw [hlength, hslots.length_eq]
  | authenticators => exact absurd rfl hk
  | applicationId =>
    obtain ⟨j, hj, ⟨packages, digests, hpackages, hdigests, -, rfl⟩, rfl⟩ := h
    obtain ⟨hset, hset', hpread, hdread⟩ := ApplicationId.readable_of_itemOf hj
    have hsets : Kind.applicationId.sets
        (.octetString (ApplicationId.itemOf packages digests).octets) =
        [.set (packages.map Package.item), .set (digests.map Item.octetString)] := by
      change (Item.split (ApplicationId.itemOf packages digests).octets).flatMap Item.parts = _
      rw [Item.split_octets hj, List.flatMap_singleton]
      exact Item.parts_sequence (by simpa using ⟨hset, hset'⟩)
    -- Two packages with the same item have the same octets for their names and the same versions.
    have hpinj : ∀ p ∈ packages, ∀ q ∈ packages, p.item = q.item → p = q := by
      intro p hp q hq heq
      apply Package.raw_injective
      exact ApplicationId.memberItem_injective (hpread p hp) (hpread q hq) heq
    obtain ⟨hpdistinct, hplength⟩ := Item.isDistinctSet_set
      (hpackages.nodup_iff.mpr (OrderedSet.nodup_toList _)) hpread hpinj
    obtain ⟨hddistinct, hdlength⟩ := Item.isDistinctSet_set
      (hdigests.nodup_iff.mpr (OrderedSet.nodup_toList _)) hdread
      fun d _ d' _ => Item.octetString_injective
    rw [hsets]
    refine ⟨by simpa using ⟨hpdistinct, hddistinct⟩, ?_⟩
    change [List.length _, List.length _] = [List.length _, List.length _]
    rw [hplength, hdlength, hpackages.length_eq, hdigests.length_eq]
  | _ => exact ⟨fun s hs => absurd hs List.not_mem_nil, rfl⟩

end Kind

namespace AuthorizationList

open Authenticators

/-- Sets of the same numbers are read alike as authenticators, however often a number stands in
them. -/
theorem elsewhere_decode_of_mem {codes codes' : List ℤ} (hcodes : ∀ c ∈ codes, IsCode c)
    (hmem : ∀ c, c ∈ codes ↔ c ∈ codes') {front : List Item} {rest : Octets} {rigor : Rigor}
    (hfront : ∀ w ∈ front, w.Readable)
    (h : (around front .userAuthType (setItem codes) rest).Readable)
    (h' : (around front .userAuthType (setItem codes') rest).Readable) :
    Elsewhere (decode rigor (around front .userAuthType (setItem codes) rest).octets)
      (decode rigor (around front .userAuthType (setItem codes') rest).octets) := by
  have hcodes' : ∀ c ∈ codes', IsCode c := fun c hc => hcodes c ((hmem c).mpr hc)
  have hi : (setItem codes).Readable := readable_of_around (Item.number_lt_of_ofType _ _) h
  have hi' : (setItem codes').Readable := readable_of_around (Item.number_lt_of_ofType _ _) h'
  have hform : Authenticators.Form (mask codes) (setItem codes') := by
    rw [mask_eq_of_mem hmem]
    exact form_setItem hcodes'
  apply elsewhere_decode_around h h' hfront hi hi'
  exact elsewhere_ofElement hi hi' (form_setItem hcodes) hform rigor _

/-- Of a list that was read, each set in the item of a field has distinct members, as many as the
value of the field, except for the authenticators.  A set of those is read like any other with the
same numbers, and so no repetition is refused in it. -/
theorem distinct_of_decode {rigor : Rigor} {input : Octets} {a : AuthorizationList}
    {entries : List Entry} (ha : decode rigor input = .ok a) (hgrammar : Grammar input entries) :
    (∀ (f : Field) (i : Item), f ≠ .userAuthType → ⟨f.tag, i⟩ ∈ entries →
      (∀ s ∈ f.kind.sets i, s.IsDistinctSet) ∧
        ∃ v, a.value f = some v ∧
          f.kind.sizes v = (f.kind.sets i).map fun s => s.parts.length) ∧
    ∀ (codes codes' : List ℤ) (front : List Item) (rest : Octets), (∀ c ∈ codes, IsCode c) →
      (∀ c, c ∈ codes ↔ c ∈ codes') → (∀ w ∈ front, w.Readable) →
      input = (around front .userAuthType (setItem codes) rest).octets →
      (around front .userAuthType (setItem codes) rest).Readable →
      (around front .userAuthType (setItem codes') rest).Readable →
      decode rigor (around front .userAuthType (setItem codes') rest).octets = .ok a := by
  have hlenient := (decode_agrees input).lenient_of_ok (decode · input) ha
  obtain ⟨entries', hgrammar', hholds⟩ := exists_grammar_of_decode hlenient
  obtain rfl : entries' = entries := hgrammar'.unique hgrammar
  refine ⟨fun f i hf hmem => ?_, ?_⟩
  · obtain ⟨v, hv, hform⟩ := hholds.value_of_mem f i hmem
    have hi : i.Readable := (hgrammar.readable _ hmem).2
    have hk : f.kind ≠ .authenticators := fun hkind => hf (Field.eq_userAuthType hkind)
    obtain ⟨hdistinct, hsizes⟩ := Kind.sets_of_form hi hform hk
    exact ⟨hdistinct, v, hv, hsizes⟩
  · rintro codes codes' front rest hcodes hmem hfront rfl h h'
    exact (elsewhere_decode_of_mem hcodes hmem hfront h h').ok_of_ok ha

/-- A set of two purposes, and a set that has one authenticator twice. -/
def repeatedEntries : List Entry :=
  [⟨1, .set [.integer 2, .integer 3]⟩, ⟨504, setItem [1, 1]⟩]

/-- The input that these entries make up. -/
def repeatedEntriesOctets : Octets :=
  [48, 22, 161, 8, 49, 6, 2, 1, 2, 2, 1, 3, 191, 131, 120, 8, 49, 6, 2, 1, 1, 2, 1, 1]

/-- The entries of the sample make up its octets. -/
lemma grammar_repeatedEntries : Grammar repeatedEntriesOctets repeatedEntries where
  octets := by decide +kernel
  length_lt := by decide +kernel
  nodup := by decide +kernel
  number_lt := by decide +kernel
  accepts := by
    have hpurposes : (Kind.members .keyPurpose).Accepts (.set [.integer 2, .integer 3]) :=
      ⟨[2, 3], by decide, by decide, rfl⟩
    have hauthenticators : Kind.authenticators.Accepts (setItem [1, 1]) :=
      .inr ⟨[1, 1], by decide, rfl⟩
    simp only [repeatedEntries, List.forall_mem_cons]
    refine ⟨fun f hf => ?_, fun f hf => ?_, fun _ hmem => absurd hmem List.not_mem_nil⟩
    · obtain rfl : Field.purpose = f := Option.some.inj hf
      exact hpurposes
    · obtain rfl : Field.userAuthType = f := Option.some.inj hf
      exact hauthenticators

/-- The two purposes are distinct, and the authenticators are read as if the one stood there
once. -/
theorem decode_repeatedEntries :
    Grammar repeatedEntriesOctets repeatedEntries ∧
      ∃ a, decode .strict repeatedEntriesOctets = .ok a ∧
        (∃ v, a.value .purpose = some v ∧ (Kind.members .keyPurpose).sizes v = [2]) ∧
        decode .strict (around [Entry.wrapper ⟨1, .set [.integer 2, .integer 3]⟩] .userAuthType
          (setItem [1]) []).octets = .ok a := by
  have hread : (decode .strict repeatedEntriesOctets).toOption.isSome = true := by decide +kernel
  obtain ⟨a, ha⟩ := Option.isSome_iff_exists.mp hread
  have ha := eq_ok_of_toOption ha
  obtain ⟨hsets, hmask⟩ := distinct_of_decode ha grammar_repeatedEntries
  obtain ⟨-, v, hv, hsizes⟩ := hsets .purpose _ (by decide) (List.mem_cons_self ..)
  refine ⟨grammar_repeatedEntries, a, ha, ⟨v, hv, ?_⟩, ?_⟩
  · exact hsizes.trans (by decide +kernel)
  · refine hmask [1, 1] [1] _ [] (by decide) (by simp) ?_ (by decide +kernel) ?_ ?_
    · exact List.forall_mem_singleton.mpr ⟨by decide +kernel, by decide +kernel⟩
    · exact ⟨by decide +kernel, by decide +kernel⟩
    · exact ⟨by decide +kernel, by decide +kernel⟩

/-- The input of a list with nothing but a set that has one authenticator twice. -/
def repeatedMaskOctets : Octets := [48, 12, 191, 131, 120, 8, 49, 6, 2, 1, 1, 2, 1, 1]

/-- It is read in both modes, as a set with one member. -/
theorem decode_repeatedMask :
    repeatedMaskOctets = (Item.sequence [Entry.wrapper ⟨504, setItem [1, 1]⟩]).octets ∧
      Kind.authenticators.sets (setItem [1, 1]) = [setItem [1, 1]] ∧
      ¬ (setItem [1, 1]).IsDistinctSet ∧ (setItem [1, 1]).parts.length = 2 ∧
      decode .strict repeatedMaskOctets =
        .ok (empty.set .userAuthType (.ofList [.known .password])) ∧
      decode .lenient repeatedMaskOctets =
        .ok (empty.set .userAuthType (.ofList [.known .password])) ∧
      Kind.authenticators.sizes (.ofList [.known .password]) = [1] := by
  have hparts : (setItem [1, 1]).parts = [.integer 1, .integer 1] := by decide +kernel
  refine ⟨by decide +kernel, by decide +kernel, ?_, by decide +kernel,
    eq_ok_of_toOption (by decide +kernel), eq_ok_of_toOption (by decide +kernel),
    by decide +kernel⟩
  rintro ⟨-, hnodup⟩
  rw [hparts] at hnodup
  exact (List.nodup_cons.mp hnodup).1 (List.mem_singleton_self _)

end AuthorizationList

end AttestedKey
