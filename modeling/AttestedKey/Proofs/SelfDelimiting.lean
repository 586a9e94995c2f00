import AttestedKey.Proofs.Location

/-!
# Inputs that tell where they end

An input that a decoder accepts is one element, and the header of this element says where it ends,
whatever is inside.  So octets behind it are always noticed, at the place where they begin, and an
input whose end is cut off is always malformed, wherever it was cut (`SelfDelimiting`).  In
particular no accepted input is the beginning of another one.

All four decoders read one element and check that nothing follows it before they go on
(`decodeSole`); whatever they make of the element, that is what makes their inputs tell where they
end (`decodeSole_selfDelimiting`).
-/

namespace AttestedKey

open Der Outcome

/-- What a decoder accepts tells where it ends. -/
structure SelfDelimiting {α : Type} (structureName : String) (decode : Octets → Except Fault α) :
    Prop where
  /-- Octets behind an accepted input are noticed where they begin. -/
  extended : ∀ {input rest : Octets} {a : α}, decode input = .ok a → rest ≠ [] →
    decode (input ++ rest) = malformedAt input.length (.trailingData structureName)
  /-- The beginning of an accepted input is malformed if it is not all of it. -/
  truncated : ∀ {input front : Octets} {a : α}, decode input = .ok a → front <+: input →
    front ≠ input → ∃ fault, decode front = .error fault ∧ fault.IsMalformed 0 front.length
  /-- No accepted input is the beginning of another one. -/
  prefix_free : ∀ {input input' : Octets} {a a' : α}, decode input = .ok a →
    decode input' = .ok a' → input <+: input' → input = input'

/-- If the end of an item is cut off, no element is read. -/
lemma Der.Cursor.exists_element_error {i : Item} (hi : i.Readable) {front : Octets}
    (hfront : front <+: i.octets) (hne : front ≠ i.octets) :
    ∃ fault, (Cursor.start front).element = .error fault ∧ fault.IsMalformed 0 front.length := by
  have hfails := Cursor.element_ends (Cursor.within_self (c := .start front) rfl)
  rw [Cursor.stop_start] at hfails
  cases hread : (Cursor.start front).element with
  | error fault =>
    rw [hread] at hfails
    exact ⟨fault, rfl, hfails⟩
  | ok taken =>
    -- Another item would begin with the same octets and end before the first one does.
    obtain ⟨e, after⟩ := taken
    obtain ⟨j, hj, hadv, -⟩ := (Cursor.element_eq_ok_iff rfl).mp hread
    obtain ⟨rest, hrest⟩ := hfront
    have hbytes : front = j.octets ++ after.bytes := hadv.bytes
    have hboth : j.octets ++ (after.bytes ++ rest) = i.octets ++ [] := by
      rw [← List.append_assoc, ← hbytes, hrest, List.append_nil]
    obtain ⟨-, hnil⟩ := Item.octets_append_inj hj hi hboth
    obtain ⟨-, rfl⟩ := List.append_eq_nil_iff.mp hnil
    exact absurd ((List.append_nil front).symm.trans hrest) hne

section Sole

variable {α β : Type} (structureName : String) (interpret : Element → Except Fault β)
  (next : β × Cursor → Except Fault α)

/-- Reads the one element of an input, with nothing behind it, and goes on with what was made of
it. -/
def decodeSole (input : Octets) : Except Fault α :=
  (Cursor.start input).read interpret >>= fun p =>
    if p.2.atEnd then next p else malformedAt p.2.offset (.trailingData structureName)

variable {structureName interpret next}

/-- Octets behind what is accepted are trailing data. -/
lemma decodeSole_append {input rest : Octets} {a : α}
    (h : decodeSole structureName interpret next input = .ok a) (hne : rest ≠ []) :
    decodeSole structureName interpret next (input ++ rest) =
      malformedAt input.length (.trailingData structureName) := by
  obtain ⟨i, v, hi, rfl, hv, -⟩ := Cursor.read_last_eq_ok_iff.mp h
  have hend : ¬ (⟨0 + i.octets.length, rest, 0⟩ : Cursor).atEnd = true :=
    mt (Cursor.atEnd_iff_bytes rfl).mp hne
  unfold decodeSole Cursor.start
  rw [Cursor.read_octets_bind hi, hv, ok_bind, if_neg hend, Nat.zero_add]

/-- What is accepted is malformed if its end is cut off. -/
lemma exists_decodeSole_error {input front : Octets} {a : α}
    (h : decodeSole structureName interpret next input = .ok a) (hfront : front <+: input)
    (hne : front ≠ input) :
    ∃ fault, decodeSole structureName interpret next front = .error fault ∧
      fault.IsMalformed 0 front.length := by
  obtain ⟨i, -, hi, rfl, -, -⟩ := Cursor.read_last_eq_ok_iff.mp h
  obtain ⟨fault, helement, hfault⟩ := Cursor.exists_element_error hi hfront hne
  refine ⟨fault, ?_, hfault⟩
  unfold decodeSole Cursor.read
  rw [helement, error_bind, error_bind]

variable (structureName interpret next)

/-- A decoder of one element accepts inputs that tell where they end. -/
lemma decodeSole_selfDelimiting :
    SelfDelimiting structureName (decodeSole structureName interpret next) := by
  refine ⟨decodeSole_append, exists_decodeSole_error, ?_⟩
  intro input input' a a' h h' hprefix
  by_contra hne
  -- Otherwise the shorter input would be the longer one with its end cut off.
  obtain ⟨fault, hfault, -⟩ := exists_decodeSole_error h' hprefix hne
  rw [h] at hfault
  cases hfault

end Sole

/-- Whatever is accepted as a record, an authorization list, a root of trust or an application id
tells where it ends, in both modes. -/
theorem decode_selfDelimiting (rigor : Rigor) :
    SelfDelimiting KeyDescription.structureName (KeyDescription.decode rigor) ∧
      SelfDelimiting AuthorizationList.structureName (AuthorizationList.decode rigor) ∧
      SelfDelimiting RootOfTrust.structureName (RootOfTrust.decode rigor) ∧
      SelfDelimiting ApplicationId.structureName ApplicationId.decode := by
  refine ⟨?_, ?_, ?_, ?_⟩
  · exact decodeSole_selfDelimiting _ (Element.ofType .sequence) _
  · exact decodeSole_selfDelimiting _ Element.toSequence _
  · exact decodeSole_selfDelimiting _ (RootOfTrust.ofElement rigor) _
  · exact decodeSole_selfDelimiting _ Element.toSequence _

namespace AuthorizationList

/-- A list with a key size and a flag. -/
def sizeAndFlag : AuthorizationList :=
  (empty.set .keySize (256 : ℤ)).set .noAuthRequired Flag.raised

/-- Its one form. -/
def sizeAndFlagOctets : Octets := [48, 12, 163, 4, 2, 2, 1, 0, 191, 131, 119, 2, 5, 0]

/-- An octet behind a list is noticed, and so is that the list ends after its first entry. -/
theorem decode_around_sizeAndFlag :
    decode .strict sizeAndFlagOctets = .ok sizeAndFlag ∧
      decode .strict (sizeAndFlagOctets ++ [5]) = malformedAt 14 (.trailingData structureName) ∧
      ∃ fault, decode .strict [48, 12, 163, 4, 2, 2, 1, 0] = .error fault ∧
        fault.IsMalformed 0 8 := by
  obtain ⟨-, hlist, -, -⟩ := decode_selfDelimiting .strict
  have hread : decode .strict sizeAndFlagOctets = .ok sizeAndFlag :=
    eq_ok_of_toOption (by decide +kernel)
  refine ⟨hread, hlist.extended hread (List.cons_ne_nil 5 []), ?_⟩
  exact hlist.truncated hread ⟨[191, 131, 119, 2, 5, 0], rfl⟩ (by decide)

end AuthorizationList

end AttestedKey
