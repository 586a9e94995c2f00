import AttestedKey.Proofs.KeyDescription

/-!
# Writing again what was read

What lenient reading gives can be written again exactly if its security levels and verified boot
states fit into 32 bits, a bound that reading does not check.  Whatever is written of it is read
back as it was (`rewrites_of_decode`): the written form of a record is at most twice as long as the
form it was read from.  A record is written in the very octets it was read from exactly if these
were canonical (`KeyDescription.encode_eq_input_iff`).
-/

namespace AttestedKey

open Der Outcome

/-- A value can be written exactly if it fits, and what is written of it is read as that value. -/
structure Rewrites {α : Type} (decode : Octets → Except Fault α)
    (encode : α → Except RangeError Octets) (fits : α → Prop) (v : α) : Prop where
  /-- The value can be written if it fits, and only then. -/
  encode_iff : (∃ output, encode v = .ok output) ↔ fits v
  /-- What is written is read back. -/
  decode_encode : ∀ output, encode v = .ok output → decode output = .ok v

/-- A value that is written as one item, which is short enough to be read again. -/
lemma Rewrites.of_item {α : Type} {decode : Octets → Except Fault α}
    {encode : α → Except RangeError Octets} {fits : α → Prop} {v : α} {i : Item}
    (hencode : ∀ output, encode v = .ok output ↔ fits v ∧ output = i.octets)
    (hnumber : i.tag.number < 2 ^ 28) (hlength : i.octets.length < 2 ^ 32)
    (hdecode : fits v → i.Readable → decode i.octets = .ok v) : Rewrites decode encode fits v where
  encode_iff := by
    constructor
    · rintro ⟨output, houtput⟩
      exact ((hencode output).mp houtput).1
    · intro hfits
      exact ⟨i.octets, (hencode _).mpr ⟨hfits, rfl⟩⟩
  decode_encode := by
    intro output houtput
    obtain ⟨hfits, rfl⟩ := (hencode output).mp houtput
    exact hdecode hfits (Item.readable_of_octets hnumber hlength)

namespace RootOfTrust

/-- The verified boot state of a root of trust fits into 32 bits. -/
def HasCode (r : RootOfTrust) : Prop := r.verifiedBootState.code ≤ uint32Max

instance : DecidablePred HasCode := fun r =>
  inferInstanceAs (Decidable (r.verifiedBootState.code ≤ uint32Max))

/-- A root of trust that was read is written again if its state fits. -/
lemma rewrites_of_form {r : RootOfTrust} {i : Item} (h : r.Form i)
    (hlength : i.octets.length < 2 ^ 32) : Rewrites (decode .lenient) encode HasCode r := by
  have hnonneg : 0 ≤ r.verifiedBootState.code := h.1
  have hencode : ∀ output, r.encode = .ok output ↔ r.HasCode ∧ output = r.item.octets := by
    intro output
    rw [encode_eq_ok_iff, HasCode]
    simp only [hnonneg, true_and]
  have hsame : r.item.octets.length < 2 ^ 32 := by rwa [length_item h]
  refine Rewrites.of_item hencode (Item.number_lt_of_ofType _ _) hsame fun _ hread => ?_
  exact decode_eq_ok_iff.mpr ⟨r.item, hread, rfl, form_item hnonneg⟩

end RootOfTrust

namespace AuthorizationList

/-- A list that was read is written again if the state in it fits. -/
lemma rewrites_of_form {a : AuthorizationList} {i : Item} (h : a.Form i)
    (hlength : 2 * i.octets.length < 2 ^ 32) :
    Rewrites (decode .lenient) encode HasCodeState a := by
  have hshort : a.item.octets.length < 2 ^ 32 := (length_item_le h).trans_lt hlength
  refine Rewrites.of_item (fun output => encode_eq_ok_iff_of_form h)
    (Item.number_lt_of_ofType _ _) hshort fun hstate hread => ?_
  exact decode_eq_ok_iff.mpr ⟨a.item, hread, rfl, form_item_of_form h hstate hread⟩

end AuthorizationList

namespace KeyDescription

/-- A record that was read is written again if the codes in it fit. -/
lemma rewrites_of_form {k : KeyDescription} {i : Item} (h : k.Form i)
    (hlength : 2 * i.octets.length < 2 ^ 32) : Rewrites (decode .lenient) encode HasCodes k := by
  have hshort : k.item.octets.length < 2 ^ 32 := (length_item_le h).trans_lt hlength
  refine Rewrites.of_item (fun output => encode_eq_ok_iff_of_form h)
    (Item.number_lt_of_ofType _ _) hshort fun hcodes hread => ?_
  exact decode_eq_ok_iff.mpr ⟨k.item, hread, rfl, form_item_of_form h hcodes hread⟩

end KeyDescription

/-- Whatever lenient reading gives of fewer than 2³¹ octets can be written again exactly if its
codes fit, and is read back from what is written. -/
theorem rewrites_of_decode {input : Octets} (hlength : input.length < 2 ^ 31) :
    (∀ k, KeyDescription.decode .lenient input = .ok k →
        Rewrites (KeyDescription.decode .lenient) KeyDescription.encode
          KeyDescription.HasCodes k) ∧
      (∀ a, AuthorizationList.decode .lenient input = .ok a →
        Rewrites (AuthorizationList.decode .lenient) AuthorizationList.encode
          AuthorizationList.HasCodeState a) ∧
      ∀ r, RootOfTrust.decode .lenient input = .ok r →
        Rewrites (RootOfTrust.decode .lenient) RootOfTrust.encode RootOfTrust.HasCode r := by
  refine ⟨fun k hk => ?_, fun a ha => ?_, fun r hr => ?_⟩
  · obtain ⟨i, -, rfl, hform⟩ := KeyDescription.decode_eq_ok_iff.mp hk
    exact KeyDescription.rewrites_of_form hform (by omega)
  · obtain ⟨i, -, rfl, hform⟩ := AuthorizationList.decode_eq_ok_iff.mp ha
    exact AuthorizationList.rewrites_of_form hform (by omega)
  · obtain ⟨i, -, rfl, hform⟩ := RootOfTrust.decode_eq_ok_iff.mp hr
    exact RootOfTrust.rewrites_of_form hform (by omega)

/-! ### Some values, and forms of them that are not canonical -/

/-- A root of trust with a state that has no name. -/
def sampleRoot : RootOfTrust := ⟨[1, 2], true, .ofCode _ 9, none⟩

/-- A list with this root of trust and a tag outside the table. -/
def sampleList : AuthorizationList :=
  (AuthorizationList.empty.set .rootOfTrust sampleRoot).setUnknown ⟨1000, [5, 0]⟩

/-- A record with this list, with a set, and with a security level that has no name. -/
def sampleRecord : KeyDescription :=
  ⟨3, .ofCode _ 1, 4, .ofCode _ 7, [99], [],
    AuthorizationList.empty.set .purpose (.ofList [.ofCode _ 2, .ofCode _ 3]), sampleList⟩

/-- A form of the root of trust whose truth value is the octet 1. -/
def looseRoot : Octets := [48, 10, 4, 2, 1, 2, 1, 1, 1, 10, 1, 9]

/-- A form of the list whose tags descend. -/
def looseList : Octets := [48, 22, 191, 135, 104, 2, 5, 0, 191, 133, 64, 12] ++ looseRoot

/-- A form of the record whose set is not in order either. -/
def looseRecord : Octets :=
  [48, 53, 2, 1, 3, 10, 1, 1, 2, 1, 4, 10, 1, 7, 4, 1, 99, 4, 0,
    48, 10, 161, 8, 49, 6, 2, 1, 3, 2, 1, 2] ++ looseList

/-- The octets in which the record is written. -/
def canonicalRecord : Octets :=
  [48, 53, 2, 1, 3, 10, 1, 1, 2, 1, 4, 10, 1, 7, 4, 1, 99, 4, 0,
    48, 10, 161, 8, 49, 6, 2, 1, 2, 2, 1, 3,
    48, 22, 191, 133, 64, 12, 48, 10, 4, 2, 1, 2, 1, 1, 255, 10, 1, 9, 191, 135, 104, 2, 5, 0]

/-- The loose record is read as the sample. -/
lemma decode_looseRecord : KeyDescription.decode .lenient looseRecord = .ok sampleRecord :=
  eq_ok_of_toOption (by decide +kernel)

/-- The loose list is read as the sample. -/
lemma decode_looseList : AuthorizationList.decode .lenient looseList = .ok sampleList :=
  eq_ok_of_toOption (by decide +kernel)

/-- The loose root of trust is read as the sample. -/
lemma decode_looseRoot : RootOfTrust.decode .lenient looseRoot = .ok sampleRoot :=
  eq_ok_of_toOption (by decide +kernel)

/-- The values that are read from these forms can be written and are then read back. -/
theorem exists_decode_encode_samples :
    (∃ output, sampleRecord.encode = .ok output ∧
        KeyDescription.decode .lenient output = .ok sampleRecord) ∧
      (∃ output, sampleList.encode = .ok output ∧
        AuthorizationList.decode .lenient output = .ok sampleList) ∧
      ∃ output, sampleRoot.encode = .ok output ∧
        RootOfTrust.decode .lenient output = .ok sampleRoot := by
  refine ⟨?_, ?_, ?_⟩
  · have hrewrites := (rewrites_of_decode (by decide)).1 _ decode_looseRecord
    have hcodes : sampleRecord.HasCodes := by decide +kernel
    obtain ⟨output, houtput⟩ := hrewrites.encode_iff.mpr hcodes
    exact ⟨output, houtput, hrewrites.decode_encode output houtput⟩
  · have hrewrites := (rewrites_of_decode (by decide)).2.1 _ decode_looseList
    have hstate : sampleList.HasCodeState := by decide +kernel
    obtain ⟨output, houtput⟩ := hrewrites.encode_iff.mpr hstate
    exact ⟨output, houtput, hrewrites.decode_encode output houtput⟩
  · have hrewrites := (rewrites_of_decode (by decide)).2.2 _ decode_looseRoot
    have hcode : sampleRoot.HasCode := by decide +kernel
    obtain ⟨output, houtput⟩ := hrewrites.encode_iff.mpr hcode
    exact ⟨output, houtput, hrewrites.decode_encode output houtput⟩

namespace RootOfTrust

/-- A root of trust whose verified boot state needs 33 bits. -/
def overflowing : RootOfTrust := ⟨[107, 107, 107, 107], true, .ofCode _ 4294967296, none⟩

/-- Its one canonical form. -/
def overflowingOctets : Octets :=
  [48, 16, 4, 4, 107, 107, 107, 107, 1, 1, 255, 10, 5, 1, 0, 0, 0, 0]

/-- A root of trust whose verified boot state does not fit is read, but cannot be written. -/
theorem encode_overflowing :
    overflowingOctets.length < 2 ^ 31 ∧ decode .lenient overflowingOctets = .ok overflowing ∧
      overflowing.encode = .error (.outside stateField 4294967296 (.above uint32Max)) := by
  have hread : decode .lenient overflowingOctets = .ok overflowing :=
    eq_ok_of_toOption (by decide +kernel)
  exact ⟨by decide, hread, by decide +kernel⟩

end RootOfTrust

namespace KeyDescription

/-! ### Writing the input again -/

/-- A record that was read and fits can be written, namely in the octets that it was read from
exactly if these are canonical. -/
theorem encode_eq_input_iff {input : Octets} {k : KeyDescription}
    (h : decode .lenient input = .ok k) (hcodes : k.HasCodes) :
    ∃ output, k.encode = .ok output ∧
      (output = input ↔ ∀ i ∈ Item.split input, IsCanonical i) := by
  obtain ⟨i, hi, rfl, hform⟩ := decode_eq_ok_iff.mp h
  refine ⟨k.item.octets, (encode_eq_ok_iff_of_form hform).mpr ⟨hcodes, rfl⟩, ?_⟩
  rw [Item.split_octets hi, List.forall_mem_singleton, ← item_eq_iff hi hform]
  constructor
  · intro heq
    obtain ⟨-, software, tee, -, -, rfl⟩ := hform
    have hcontent := Item.content_eq_of_octets_eq heq
    exact congrArg (Item.ofType .sequence) hcontent
  · intro heq
    rw [heq]

/-- Of two forms of one record just the canonical one is written. -/
theorem encode_sampleRecord :
    decode .lenient looseRecord = .ok sampleRecord ∧ sampleRecord.encode = .ok canonicalRecord ∧
      sampleRecord.encode ≠ .ok looseRecord := by
  have hread : decode .lenient canonicalRecord = .ok sampleRecord :=
    eq_ok_of_toOption (by decide +kernel)
  have hcodes : sampleRecord.HasCodes := by decide +kernel
  have hcanonical : ∀ i ∈ Item.split canonicalRecord, IsCanonical i := by decide +kernel
  have hloose : ¬ ∀ i ∈ Item.split looseRecord, IsCanonical i := by decide +kernel
  obtain ⟨output, houtput, hiff⟩ := encode_eq_input_iff hread hcodes
  obtain ⟨output', houtput', hiff'⟩ := encode_eq_input_iff decode_looseRecord hcodes
  refine ⟨decode_looseRecord, ?_, fun heq => ?_⟩
  · rw [houtput, hiff.mpr hcanonical]
  · rw [houtput', Except.ok.injEq] at heq
    exact hloose (hiff'.mp heq)

end KeyDescription

end AttestedKey
