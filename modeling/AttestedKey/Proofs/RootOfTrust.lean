import AttestedKey.Proofs.Der.Collection
import AttestedKey.RootOfTrust

/-!
# The wire form of a root of trust

`RootOfTrust.Form r i` says that `i` is a wire form of `r`: a sequence of a key, a truth value, a
number and possibly a hash.  Lenient reading accepts just these forms (`ofElement_eq_ok_iff`).  A
root of trust has one form for each octet that stands for its truth value, and is written in
`RootOfTrust.item`, the one whose octet is 0 or 255 (`item_eq_iff`).
-/

namespace AttestedKey

open Der Outcome

namespace RootOfTrust

/-- The parts of a root of trust whose truth value has the given octet. -/
def itemsWith (r : RootOfTrust) (octet : UInt8) : List Item :=
  [.octetString r.verifiedBootKey, .boolean octet, .enumerated r.verifiedBootState.code] ++
    r.verifiedBootHash.toList.map Item.octetString

/-- An item is a wire form of a root of trust. -/
def Form (r : RootOfTrust) (i : Item) : Prop :=
  0 ≤ r.verifiedBootState.code ∧
    ∃ octet : UInt8, r.deviceLocked = (octet != 0) ∧ i = Item.sequence (r.itemsWith octet)

/-- The octet that is written for a truth value. -/
def lockedOctet (r : RootOfTrust) : UInt8 := if r.deviceLocked then 255 else 0

/-- The form in which a root of trust is written. -/
def item (r : RootOfTrust) : Item := .sequence (r.itemsWith r.lockedOctet)

/-- The truth value of a root of trust is written as its one canonical octet. -/
def IsCanonical (i : Item) : Prop :=
  ∀ locked ∈ i.parts[1]?, locked.content = [0] ∨ locked.content = [255]

instance : DecidablePred IsCanonical := fun i =>
  inferInstanceAs (Decidable (∀ locked ∈ i.parts[1]?, _))

/-- A hash is read unless the sequence is at its end. -/
lemma readHash_eq_ok_iff {o : ℕ} {a : Octets} {hash : Option Octets} {c : Cursor} :
    readHash ⟨o, a, 0⟩ = .ok (hash, c) ↔
      ∃ rest, (hash = none → rest = []) ∧ (∀ h ∈ hash, (Item.octetString h).Readable) ∧
        a = Item.join (hash.toList.map Item.octetString) ++ rest ∧
        c = ⟨o + (Item.join (hash.toList.map Item.octetString)).length, rest, 0⟩ := by
  unfold readHash
  by_cases hend : (⟨o, a, 0⟩ : Cursor).atEnd = true
  · have ha : a = [] := (Cursor.atEnd_iff_bytes rfl).mp hend
    subst ha
    rw [if_pos hend]
    constructor
    · intro h
      obtain ⟨rfl, rfl⟩ := Prod.mk.inj (Except.ok.inj h)
      exact ⟨[], fun _ => rfl, by simp, rfl, rfl⟩
    · rintro ⟨rest, -, -, ha, rfl⟩
      obtain ⟨hnone, rfl⟩ := List.append_eq_nil_iff.mp ha.symm
      cases hash with
      | none => rfl
      | some h => exact absurd (List.append_eq_nil_iff.mp hnone).1 (Item.octets_ne_nil _)
  · rw [if_neg hend, Cursor.read_bind_eq_ok_iff]
    have ha : a ≠ [] := fun ha => hend ((Cursor.atEnd_iff_bytes rfl).mpr ha)
    constructor
    · intro h
      rcases h with ⟨i, rest, h, hi, rfl, hh, hnext⟩
      rw [Element.toOctets_eq_ok_iff] at hh
      subst hh
      obtain ⟨rfl, rfl⟩ := Prod.mk.inj (Except.ok.inj hnext)
      refine ⟨rest, by simp, by simpa using hi, ?_, ?_⟩
      · simp
      · simp
    · intro h
      rcases h with ⟨rest, hnone, hread, rfl, rfl⟩
      cases hash with
      | none => exact absurd (hnone rfl) (by simpa using ha)
      | some h =>
        refine ⟨.octetString h, rest, h, hread h rfl, by simp, ?_, by simp⟩
        exact Element.toOctets_eq_ok_iff.mpr rfl

/-- A reader can read the tags of the items of a root of trust. -/
lemma number_lt_of_mem_itemsWith {r : RootOfTrust} {octet : UInt8} {i : Item}
    (h : i ∈ r.itemsWith octet) : i.tag.number < 2 ^ 28 := by
  simp only [itemsWith, List.cons_append, List.nil_append, List.mem_cons, List.mem_map] at h
  rcases h with rfl | rfl | rfl | ⟨a, -, rfl⟩ <;> exact Item.number_lt_of_ofType _ _

/-- Lenient reading accepts just the wire forms of a root of trust. -/
theorem ofElement_eq_ok_iff {i : Item} (hi : i.Readable) {o : ℕ} {r : RootOfTrust} :
    ofElement .lenient (i.placed o) = .ok r ↔ r.Form i := by
  unfold ofElement
  rw [bind_eq_ok_iff]
  constructor
  · rintro ⟨c, hc, h⟩
    -- Each reader that has succeeded takes one item, with the next one right behind it.
    obtain ⟨content, rfl, rfl⟩ := Element.toSequence_eq_ok_iff.mp hc
    obtain ⟨_, _, key, -, rfl, hkey, h⟩ := Cursor.read_bind_eq_ok_iff.mp h
    obtain ⟨_, _, locked, -, rfl, hlocked, h⟩ := Cursor.read_bind_eq_ok_iff.mp h
    obtain ⟨_, _, state, -, rfl, hstate, h⟩ := Cursor.read_bind_eq_ok_iff.mp h
    rw [Element.toOctets_eq_ok_iff] at hkey
    rw [Element.toEnumerated_eq_ok_iff] at hstate
    obtain ⟨octet, hboolean, hvalue⟩ := Element.toBoolean_eq_ok_iff.mp hlocked
    subst hkey hboolean hstate
    by_cases hneg : state < 0
    · simp only [if_pos hneg] at h
      cases h
    · simp only [if_neg hneg] at h
      obtain ⟨⟨hash, c⟩, hhash, h⟩ := bind_eq_ok_iff.mp h
      obtain ⟨rest, -, -, rfl, rfl⟩ := readHash_eq_ok_iff.mp hhash
      simp only at h
      split at h
      next hend =>
        obtain rfl : rest = [] := (Cursor.atEnd_iff_bytes rfl).mp hend
        rw [Slot.recognise_lenient, ok_bind, pure_eq_ok, Except.ok.injEq] at h
        subst h
        refine ⟨?_, octet, hvalue, ?_⟩
        · rw [Slot.code_ofCode]
          omega
        · simp [Item.sequence, itemsWith]
      · cases h
  · intro h
    rcases h with ⟨hnonneg, octet, hlocked, rfl⟩
    -- The parts of a readable sequence are readable, and so each reader finds its own in front.
    have hparts : ∀ j ∈ r.itemsWith octet, j.Readable :=
      Item.readable_of_ofType_join hi fun j hj => number_lt_of_mem_itemsWith hj
    simp only [itemsWith, List.cons_append, List.nil_append, List.forall_mem_cons,
      List.forall_mem_map, Option.mem_toList] at hparts
    obtain ⟨hkey, hboolean, hstate, hhash⟩ := hparts
    refine ⟨_, Element.toSequence_eq_ok_iff.mpr ⟨_, rfl, rfl⟩, ?_⟩
    refine Cursor.read_bind_eq_ok_iff.mpr
      ⟨_, _, _, hkey, rfl, Element.toOctets_eq_ok_iff.mpr rfl, ?_⟩
    refine Cursor.read_bind_eq_ok_iff.mpr
      ⟨_, _, _, hboolean, rfl, Element.toBoolean_eq_ok_iff.mpr ⟨octet, rfl, hlocked⟩, ?_⟩
    refine Cursor.read_bind_eq_ok_iff.mpr
      ⟨_, _, _, hstate, rfl, Element.toEnumerated_eq_ok_iff.mpr rfl, ?_⟩
    have hneg : ¬ r.verifiedBootState.code < 0 := by omega
    simp only [if_neg hneg]
    refine bind_eq_ok_iff.mpr ⟨(r.verifiedBootHash, _), readHash_eq_ok_iff.mpr
      ⟨[], fun _ => rfl, hhash, (List.append_nil _).symm, rfl⟩, ?_⟩
    simp only [Cursor.atEnd_nil, if_true, Slot.recognise_lenient, Slot.ofCode_code]
    rfl

/-- An input holds a root of trust if it is one of its wire forms. -/
theorem decode_eq_ok_iff {input : Octets} {r : RootOfTrust} :
    decode .lenient input = .ok r ↔ ∃ i : Item, i.Readable ∧ input = i.octets ∧ r.Form i := by
  refine Cursor.read_last_eq_ok_iff.trans ?_
  constructor
  · rintro ⟨i, r', hi, hinput, hr, h⟩
    obtain rfl : r' = r := Except.ok.inj h
    exact ⟨i, hi, hinput, (ofElement_eq_ok_iff hi).mp hr⟩
  · rintro ⟨i, hi, hinput, hr⟩
    exact ⟨i, r, hi, hinput, (ofElement_eq_ok_iff hi).mpr hr, rfl⟩

/-- A root of trust is written if its state fits into 32 bits. -/
theorem encode_eq_ok_iff {r : RootOfTrust} {b : Octets} :
    r.encode = .ok b ↔ (0 ≤ r.verifiedBootState.code ∧ r.verifiedBootState.code ≤ uint32Max) ∧
      b = r.item.octets := by
  have hparts : [encodeOctets r.verifiedBootKey, encodeBoolean r.deviceLocked,
      encodeEnumerated r.verifiedBootState.code] ++ r.verifiedBootHash.toList.map encodeOctets =
      (r.itemsWith r.lockedOctet).map Item.octets := by
    rw [itemsWith, List.map_append, List.map_map]
    rfl
  unfold encode
  rw [bind_eq_ok_iff]
  constructor
  · rintro ⟨state, hstate, h⟩
    obtain ⟨h0, hmax, rfl⟩ := checkRange_eq_ok_iff.mp hstate
    rw [hparts, Item.encodeSequence_eq] at h
    exact ⟨⟨h0, hmax⟩, (Except.ok.inj h).symm⟩
  · rintro ⟨⟨h0, hmax⟩, rfl⟩
    refine ⟨_, checkRange_eq_ok_iff.mpr ⟨h0, hmax, rfl⟩, ?_⟩
    rw [hparts, Item.encodeSequence_eq]
    rfl

/-- The written form is a wire form. -/
lemma form_item {r : RootOfTrust} (h : 0 ≤ r.verifiedBootState.code) : r.Form r.item := by
  refine ⟨h, r.lockedOctet, ?_, rfl⟩
  cases hlocked : r.deviceLocked <;> simp [lockedOctet, hlocked]

/-- Whatever is written of a root of trust, in as many octets as can be read, is read back. -/
theorem decode_of_encode {r : RootOfTrust} {b : Octets} (hb : r.encode = .ok b)
    (hlength : b.length < 2 ^ 32) : decode .lenient b = .ok r := by
  obtain ⟨hcode, rfl⟩ := encode_eq_ok_iff.mp hb
  have hread : r.item.Readable := Item.readable_of_octets (Item.number_lt_of_ofType _ _) hlength
  exact decode_eq_ok_iff.mpr ⟨r.item, hread, rfl, form_item hcode.1⟩

/-- The octet does not change the length of the parts. -/
lemma length_join_itemsWith (r : RootOfTrust) (octet octet' : UInt8) :
    (Item.join (r.itemsWith octet)).length = (Item.join (r.itemsWith octet')).length := by
  simp only [itemsWith, List.cons_append, Item.join_cons, List.length_append, Item.length_octets]
  rfl

/-- The written form is as long as any other. -/
lemma length_item {r : RootOfTrust} {i : Item} (h : r.Form i) :
    r.item.octets.length = i.octets.length := by
  obtain ⟨-, octet, -, rfl⟩ := h
  exact Item.length_octets_eq (length_join_itemsWith r r.lockedOctet octet)

/-- Of the octets for a truth value, 0 and 255 are written. -/
lemma eq_lockedOctet_iff {r : RootOfTrust} {octet : UInt8} (h : r.deviceLocked = (octet != 0)) :
    r.lockedOctet = octet ↔ octet = 0 ∨ octet = 255 := by
  unfold lockedOctet
  by_cases h0 : octet = 0
  · simp [h, h0]
  · have hlocked : r.deviceLocked = true := by simpa [h] using h0
    rw [hlocked, if_pos rfl]
    constructor
    · intro heq
      exact .inr heq.symm
    · rintro (heq | heq)
      · exact absurd heq h0
      · exact heq.symm

/-- A wire form is the written one exactly if its truth value is canonical. -/
theorem item_eq_iff {r : RootOfTrust} {i : Item} (hi : i.Readable) (h : r.Form i) :
    r.item = i ↔ IsCanonical i := by
  obtain ⟨-, octet, hlocked, rfl⟩ := h
  have hparts : (Item.sequence (r.itemsWith octet)).parts = r.itemsWith octet :=
    Item.parts_sequence (Item.readable_of_ofType_join hi fun j hj => number_lt_of_mem_itemsWith hj)
  have hcanonical : IsCanonical (Item.sequence (r.itemsWith octet)) ↔ octet = 0 ∨ octet = 255 := by
    rw [IsCanonical, hparts]
    simp [itemsWith, Item.boolean]
  rw [hcanonical, ← eq_lockedOctet_iff hlocked]
  constructor
  · intro heq
    have hitem : r.item.Readable := by rwa [heq]
    have hparts' : r.item.parts = r.itemsWith r.lockedOctet :=
      Item.parts_sequence
        (Item.readable_of_ofType_join hitem fun j hj => number_lt_of_mem_itemsWith hj)
    rw [heq, hparts] at hparts'
    simpa [itemsWith, Item.boolean, Item.ofType, eq_comm] using hparts'
  · intro heq
    rw [item, heq]

end RootOfTrust

end AttestedKey
