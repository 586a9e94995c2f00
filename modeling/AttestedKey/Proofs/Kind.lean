import AttestedKey.AuthorizationList.Decode
import AttestedKey.AuthorizationList.Encode
import AttestedKey.Proofs.ApplicationId
import AttestedKey.Proofs.Authenticators
import AttestedKey.Proofs.RootOfTrust

/-!
# The wire forms of field values

`Kind.Form k v i` says that the item `i` is a wire form of the value `v` of the kind `k`.  Lenient
reading accepts just these forms (`Kind.ofElement_eq_ok_iff`), and writing gives one of them,
`Kind.item` (`Kind.encode_eq_ok_iff`, `Kind.form_item`).  A value has other forms where it holds a
set, whose members may stand in any order, a truth value, or a mask of authenticators, which may be
a set of numbers.  `Kind.IsCanonical` picks the written form among them (`Kind.item_eq_iff`).
-/

namespace AttestedKey

open Der Outcome

/-- A number fits into 32 bits. -/
def IsCode (n : ℤ) : Prop := 0 ≤ n ∧ n ≤ uint32Max

instance : DecidablePred IsCode := fun n => inferInstanceAs (Decidable (0 ≤ n ∧ n ≤ uint32Max))

/-- The item of the number of a slot. -/
def Slot.item {v : Vocabulary} (s : Slot v) : Item := .integer s.code

/-- An item is a wire form of a mask: the number itself, or a set of numbers that it is made of. -/
def Authenticators.Form (m : ℤ) (i : Item) : Prop :=
  IsCode m ∧ i = .integer m ∨
    ∃ codes : List ℤ, (∀ c ∈ codes, IsCode c) ∧ m = mask codes ∧ i = .set (codes.map Item.integer)

/-- There is one field that holds a mask. -/
lemma Field.eq_userAuthType {f : Field} (h : f.kind = .authenticators) : f = .userAuthType := by
  cases f <;> first | rfl | cases h

namespace Kind

/-- An item is a wire form of a value of a kind. -/
def Form : (k : Kind) → k.Value → Item → Prop
  | .integer maximum, n, i => (0 ≤ n ∧ n ≤ (maximum : ℤ)) ∧ i = .integer n
  | .member _, s, i => IsCode s.code ∧ i = s.item
  | .members v, s, i => ∃ slots : List (Slot v), slots.Perm s.toList ∧
      (∀ t ∈ slots, IsCode t.code) ∧ i = .set (slots.map Slot.item)
  | .authenticators, s, i => ∃ m : ℤ, s = Authenticators.ofMask m ∧ Authenticators.Form m i
  | .flag, x, i => x = Flag.raised ∧ i = .null
  | .octets, a, i => i = .octetString a
  | .rootOfTrust, r, i => r.Form i
  | .applicationId, a, i => ∃ j : Item, j.Readable ∧ a.Form j ∧ i = .octetString j.octets

/-- The form in which a value is written. -/
def item : (k : Kind) → k.Value → Item
  | .integer _, n => .integer n
  | .member _, s => s.item
  | .members _, s => .set (Item.sort (s.toList.map Slot.item))
  | .authenticators, s => .integer (Authenticators.mask s.codes)
  | .flag, _ => .null
  | .octets, a => .octetString a
  | .rootOfTrust, r => r.item
  | .applicationId, a => .octetString a.item.octets

/-- The numbers of a value fit into their fields. -/
def InRange : (k : Kind) → k.Value → Prop
  | .integer maximum, n => 0 ≤ n ∧ n ≤ (maximum : ℤ)
  | .member _, s => IsCode s.code
  | .members _, s => ∀ t ∈ s.toList, IsCode t.code
  | .authenticators, s => IsCode (Authenticators.mask s.codes)
  | .rootOfTrust, r => IsCode r.verifiedBootState.code
  | .applicationId, a => a.InRange
  | _, _ => True

/-- A set of authenticators is one that a mask stands for. -/
def IsNormal : (k : Kind) → k.Value → Prop
  | .authenticators, s => ∃ m : ℤ, s = Authenticators.ofMask m
  | _, _ => True

/-- The verified boot state of a root of trust fits into 32 bits. -/
def HasCodeState : (k : Kind) → k.Value → Prop
  | .rootOfTrust, r => r.verifiedBootState.code ≤ uint32Max
  | _, _ => True

/-- An item of a kind has its sets in order, its truth value as 0 or 255, and its authenticators
as a mask. -/
def IsCanonical : Kind → Item → Prop
  | .members _, i => Item.Ascending i.parts
  | .authenticators, i => i.tag = Universal.integer.tag
  | .rootOfTrust, i => RootOfTrust.IsCanonical i
  | .applicationId, i => ∀ j ∈ Item.split i.content, ApplicationId.IsCanonical j
  | _, _ => True

instance (k : Kind) : DecidablePred k.IsCanonical := fun i =>
  match k with
  | .members _ => inferInstanceAs (Decidable (Item.Ascending i.parts))
  | .authenticators => inferInstanceAs (Decidable (i.tag = Universal.integer.tag))
  | .rootOfTrust => inferInstanceAs (Decidable (RootOfTrust.IsCanonical i))
  | .applicationId =>
    inferInstanceAs (Decidable (∀ j ∈ Item.split i.content, ApplicationId.IsCanonical j))
  | .integer _ | .member _ | .flag | .octets => .isTrue trivial

end Kind

/-! ### Reading -/

/-- A number is read into its slot. -/
lemma readSlot_eq_ok_iff {v : Vocabulary} {f : Field} {i : Item} {o : ℕ} {s : Slot v} :
    (do
      let code ← (i.placed o).toUnsigned f.name uint32Max
      Slot.recognise v .lenient (.code v code f.name (some f.tag)) (some (o : ℤ)) code) = .ok s ↔
        IsCode s.code ∧ i = s.item := by
  rw [bind_eq_ok_iff]
  constructor
  · rintro ⟨code, hcode, hslot⟩
    obtain ⟨hi, h0, hmax⟩ := Element.toUnsigned_eq_ok_iff.mp hcode
    rw [Slot.recognise_lenient, Except.ok.injEq] at hslot
    subst hslot
    rw [Slot.item, Slot.code_ofCode]
    exact ⟨⟨h0, hmax⟩, hi⟩
  · rintro ⟨⟨h0, hmax⟩, hi⟩
    refine ⟨s.code, Element.toUnsigned_eq_ok_iff.mpr ⟨hi, h0, hmax⟩, ?_⟩
    rw [Slot.recognise_lenient, Slot.ofCode_code]

/-- A member is added if it fits, and has not been met before. -/
lemma addMember_eq_ok_iff {v : Vocabulary} {f : Field} (s t : OrderedSet (Slot v)) (i : Item)
    (o : ℕ) : addMember v .lenient f s (i.placed o) = .ok t ↔
      ∃ a : Slot v, IsCode a.code ∧ i = a.item ∧ a ∉ s.toList ∧ t = s.insert a := by
  unfold addMember
  rw [bind_eq_ok_iff]
  constructor
  · rintro ⟨code, hcode, h⟩
    obtain ⟨hi, h0, hmax⟩ := Element.toUnsigned_eq_ok_iff.mp hcode
    split at h
    · cases h
    next hnew =>
      rw [Slot.recognise_lenient, ok_bind, pure_eq_ok, Except.ok.injEq] at h
      refine ⟨.ofCode v code, ?_, ?_, fun hold => hnew (OrderedSet.contains_iff.mpr hold), h.symm⟩
      · rw [Slot.code_ofCode]
        exact ⟨h0, hmax⟩
      · rw [Slot.item, Slot.code_ofCode]
        exact hi
  · intro h
    rcases h with ⟨a, ⟨h0, hmax⟩, hi, hnew, rfl⟩
    refine ⟨a.code, Element.toUnsigned_eq_ok_iff.mpr ⟨hi, h0, hmax⟩, ?_⟩
    rw [Slot.ofCode_code, if_neg fun hold => hnew (OrderedSet.contains_iff.mp hold),
      Slot.recognise_lenient, Slot.ofCode_code]
    rfl

/-- The numbers of a set of authenticators are read in the order in which they stand. -/
lemma foldlM_addCode_eq_ok_iff {f : Field} {items : List Item} {o : ℕ} {codes codes' : List ℤ} :
    (Item.layout o items).foldlM (addCode f) codes = .ok codes' ↔
      ∃ new : List ℤ, (∀ c ∈ new, IsCode c) ∧ items = new.map Item.integer ∧
        codes' = codes ++ new := by
  induction items generalizing o codes with
  | nil =>
    constructor
    · intro h
      exact ⟨[], by simp, rfl, by simpa [eq_comm] using h⟩
    · rintro ⟨new, -, hnew, rfl⟩
      rw [List.map_eq_nil_iff.mp hnew.symm, List.append_nil]
      rfl
  | cons i items ih =>
    rw [Item.layout_cons, foldlM_cons_eq_ok_iff]
    constructor
    · rintro ⟨codes₁, hstep, hrest⟩
      obtain ⟨c, hc, hpush⟩ := bind_eq_ok_iff.mp hstep
      obtain ⟨hi, h0, hmax⟩ := Element.toUnsigned_eq_ok_iff.mp hc
      obtain rfl : codes ++ [c] = codes₁ := Except.ok.inj hpush
      obtain ⟨new, hnew, rfl, rfl⟩ := ih.mp hrest
      refine ⟨c :: new, List.forall_mem_cons.mpr ⟨⟨h0, hmax⟩, hnew⟩, ?_, ?_⟩
      · rw [List.map_cons, hi]
      · rw [List.append_assoc, List.singleton_append]
    · rintro ⟨new, hnew, hitems, rfl⟩
      obtain ⟨c, new, rfl, rfl, rfl⟩ := List.map_eq_cons_iff.mp hitems.symm
      obtain ⟨⟨h0, hmax⟩, hnew⟩ := List.forall_mem_cons.mp hnew
      refine ⟨codes ++ [c], bind_eq_ok_iff.mpr
        ⟨c, Element.toUnsigned_eq_ok_iff.mpr ⟨rfl, h0, hmax⟩, rfl⟩, ih.mpr ⟨new, hnew, rfl, ?_⟩⟩
      rw [List.append_assoc, List.singleton_append]

/-- A mask is read from a number or from a set of numbers. -/
lemma readMask_eq_ok_iff {f : Field} {i : Item} (hi : i.Readable) {o : ℕ} {m : ℤ} :
    readMask f (i.placed o) = .ok m ↔ Authenticators.Form m i := by
  unfold readMask
  constructor
  · intro h
    split at h
    · obtain ⟨c, hc, h⟩ := bind_eq_ok_iff.mp h
      obtain ⟨content, rfl, rfl⟩ := Element.toSet_eq_ok_iff.mp hc
      obtain ⟨codes, hcodes, hmask⟩ := bind_eq_ok_iff.mp h
      obtain ⟨items, -, rfl, hfold⟩ := (Cursor.foldlM_walk_eq_ok_iff rfl).mp hcodes
      obtain ⟨new, hnew, rfl, heq⟩ := foldlM_addCode_eq_ok_iff.mp hfold
      rw [List.nil_append] at heq
      subst heq
      exact .inr ⟨codes, hnew, (Except.ok.inj hmask).symm, rfl⟩
    · obtain ⟨hi, h0, hmax⟩ := Element.toUnsigned_eq_ok_iff.mp h
      exact .inl ⟨⟨h0, hmax⟩, hi⟩
  · intro h
    rcases h with ⟨⟨h0, hmax⟩, rfl⟩ | ⟨codes, hcodes, rfl, rfl⟩
    · rw [if_neg (by rintro ⟨-, h⟩; cases h)]
      exact Element.toUnsigned_eq_ok_iff.mpr ⟨rfl, h0, hmax⟩
    · rw [if_pos ⟨rfl, rfl⟩]
      have hitems : ∀ c ∈ codes, (Item.integer c).Readable :=
        Item.readable_of_ofType_map hi fun c _ => Item.number_lt_of_ofType _ _
      refine bind_eq_ok_iff.mpr ⟨_, Element.toSet_eq_ok_iff.mpr ⟨_, rfl, rfl⟩, ?_⟩
      refine bind_eq_ok_iff.mpr ⟨codes, (Cursor.foldlM_walk_eq_ok_iff rfl).mpr
        ⟨_, List.forall_mem_map.mpr hitems, rfl,
          foldlM_addCode_eq_ok_iff.mpr ⟨codes, hcodes, rfl, rfl⟩⟩, rfl⟩

namespace Kind

/-- Lenient reading accepts just the wire forms of a value. -/
theorem ofElement_eq_ok_iff {k : Kind} {f : Field} {i : Item} (hi : i.Readable) {o : ℕ}
    {v : k.Value} : k.ofElement .lenient f (i.placed o) = .ok v ↔ k.Form v i := by
  cases k with
  | integer maximum =>
    simp only [ofElement, Form, Element.toUnsigned_eq_ok_iff]
    tauto
  | member w => exact readSlot_eq_ok_iff
  | members w =>
    simp only [ofElement, bind_eq_ok_iff]
    constructor
    · rintro ⟨c, hc, h⟩
      obtain ⟨content, rfl, rfl⟩ := Element.toSet_eq_ok_iff.mp hc
      obtain ⟨slots, hslots, hcode, -, rfl⟩ :=
        (collect_eq_ok_iff fun s t i o _ => addMember_eq_ok_iff s t i o).mp h
      exact ⟨slots, hslots, hcode, rfl⟩
    · intro h
      rcases h with ⟨slots, hslots, hcode, rfl⟩
      have hitems : ∀ s ∈ slots, s.item.Readable :=
        Item.readable_of_ofType_map hi fun s _ => Item.number_lt_of_ofType _ _
      refine ⟨_, Element.toSet_eq_ok_iff.mpr ⟨_, rfl, rfl⟩, ?_⟩
      refine (collect_eq_ok_iff fun s t i o _ => addMember_eq_ok_iff s t i o).mpr
        ⟨slots, hslots, hcode, hitems, rfl⟩
  | authenticators =>
    simp only [ofElement, bind_eq_ok_iff, Authenticators.recognise_lenient, readMask_eq_ok_iff hi,
      Form, Except.ok.injEq]
    constructor
    · rintro ⟨m, hm, rfl⟩
      exact ⟨m, rfl, hm⟩
    · rintro ⟨m, rfl, hm⟩
      exact ⟨m, hm, rfl⟩
  | flag =>
    simp only [ofElement, bind_eq_ok_iff, Form, pure_eq_ok, Except.ok.injEq]
    constructor
    · rintro ⟨u, hu, rfl⟩
      exact ⟨rfl, Element.toNull_eq_ok_iff.mp hu⟩
    · rintro ⟨rfl, hitem⟩
      exact ⟨(), Element.toNull_eq_ok_iff.mpr hitem, rfl⟩
  | octets => exact Element.toOctets_eq_ok_iff
  | rootOfTrust => exact RootOfTrust.ofElement_eq_ok_iff hi
  | applicationId =>
    simp only [ofElement, bind_eq_ok_iff]
    constructor
    · rintro ⟨c, hc, h⟩
      obtain ⟨content, rfl, rfl⟩ := Element.toWrapped_eq_ok_iff.mp hc
      obtain ⟨j, hj, rfl, hform⟩ := ApplicationId.ofRegion_eq_ok_iff.mp h
      exact ⟨j, hj, hform, rfl⟩
    · rintro ⟨j, hj, hform, rfl⟩
      exact ⟨_, Element.toWrapped_eq_ok_iff.mpr ⟨_, rfl, rfl⟩,
        ApplicationId.ofRegion_eq_ok_iff.mpr ⟨j, hj, rfl, hform⟩⟩

/-- An item is a wire form of one value only. -/
lemma form_unique {k : Kind} {v w : k.Value} {i : Item} (hi : i.Readable) (hv : k.Form v i)
    (hw : k.Form w i) : v = w := by
  have hread := (ofElement_eq_ok_iff (f := .purpose) (o := 0) hi).mpr hv
  rw [(ofElement_eq_ok_iff hi).mpr hw] at hread
  exact (Except.ok.inj hread).symm

/-! ### Writing -/

/-- A code is written as an INTEGER if it fits. -/
lemma encodeCode_eq_ok_iff {name : String} {n : ℤ} {b : Octets} :
    encodeCode name n = .ok b ↔ IsCode n ∧ b = (Item.integer n).octets := by
  unfold encodeCode
  rw [bind_eq_ok_iff]
  constructor
  · rintro ⟨code, hcode, h⟩
    obtain ⟨h0, hmax, rfl⟩ := checkRange_eq_ok_iff.mp hcode
    exact ⟨⟨h0, hmax⟩, (Except.ok.inj h).symm⟩
  · rintro ⟨⟨h0, hmax⟩, rfl⟩
    exact ⟨n, checkRange_eq_ok_iff.mpr ⟨h0, hmax, rfl⟩, rfl⟩

/-- A value is written in its one written form, if its numbers are in range. -/
theorem encode_eq_ok_iff {k : Kind} {name : String} {v : k.Value} {b : Octets} :
    k.encode name v = .ok b ↔ k.InRange v ∧ b = (k.item v).octets := by
  cases k with
  | integer maximum =>
    simp only [encode, bind_eq_ok_iff, InRange, item]
    constructor
    · rintro ⟨n, hn, h⟩
      obtain ⟨h0, hmax, rfl⟩ := checkRange_eq_ok_iff.mp hn
      exact ⟨⟨h0, hmax⟩, (Except.ok.inj h).symm⟩
    · rintro ⟨⟨h0, hmax⟩, rfl⟩
      exact ⟨v, checkRange_eq_ok_iff.mpr ⟨h0, hmax, rfl⟩, rfl⟩
  | member w => exact encodeCode_eq_ok_iff
  | members w =>
    have hcodes := @mapM_eq_ok_iff_map _ _ _ (fun s : Slot w => encodeCode name s.code)
      (fun s => IsCode s.code) (fun s => s.item.octets)
      (fun _ _ => encodeCode_eq_ok_iff) v.toList
    have hset : encodeSet (v.toList.map fun s => s.item.octets) = ((members w).item v).octets := by
      rw [item, ← Item.encodeSet_eq, List.map_map]
      rfl
    simp only [encode, bind_eq_ok_iff, InRange]
    constructor
    · rintro ⟨parts, hparts, h⟩
      obtain ⟨hrange, rfl⟩ := hcodes.mp hparts
      exact ⟨hrange, (Except.ok.inj h).symm.trans hset⟩
    · rintro ⟨hrange, rfl⟩
      exact ⟨_, hcodes.mpr ⟨hrange, rfl⟩, congrArg Except.ok hset⟩
  | authenticators => exact encodeCode_eq_ok_iff
  | flag =>
    simp only [encode, InRange, item, pure_eq_ok, Except.ok.injEq, Item.encodeNull_eq, true_and]
    exact eq_comm
  | octets =>
    simp only [encode, InRange, item, pure_eq_ok, Except.ok.injEq, Item.encodeOctets_eq, true_and]
    exact eq_comm
  | rootOfTrust => exact RootOfTrust.encode_eq_ok_iff
  | applicationId =>
    simp only [encode, bind_eq_ok_iff, ApplicationId.encode_eq_ok_iff, InRange, item]
    constructor
    · rintro ⟨inner, ⟨hrange, rfl⟩, h⟩
      exact ⟨hrange, (Except.ok.inj h).symm⟩
    · rintro ⟨hrange, rfl⟩
      exact ⟨_, ⟨hrange, rfl⟩, rfl⟩

/-- A reader can read the tag of every written value. -/
lemma number_lt_item (k : Kind) (v : k.Value) : (k.item v).tag.number < 2 ^ 28 := by
  cases k <;> exact Item.number_lt_of_ofType _ _

/-! ### The written form among the others -/

/-- What can be written is written in a wire form, a blank flag apart. -/
theorem form_item {k : Kind} {v : k.Value} (hread : (k.item v).Readable) (hrange : k.InRange v)
    (hnormal : k.IsNormal v) (hwritten : k.isWritten v = true) : k.Form v (k.item v) := by
  cases k with
  | integer maximum => exact ⟨hrange, rfl⟩
  | member w => exact ⟨hrange, rfl⟩
  | members w =>
    obtain ⟨slots, hslots, hitem⟩ := Item.exists_perm_sort_map Slot.item v.toList
    refine ⟨slots, hslots, fun s hs => hrange s (hslots.mem_iff.mp hs), ?_⟩
    rw [item, hitem]
  | authenticators =>
    obtain ⟨m, rfl⟩ := hnormal
    refine ⟨m, rfl, .inl ?_⟩
    rw [InRange, Authenticators.mask_codes_ofMask] at hrange
    rw [item, Authenticators.mask_codes_ofMask]
    exact ⟨hrange, rfl⟩
  | flag => exact ⟨by simpa [isWritten] using hwritten, rfl⟩
  | octets => exact rfl
  | rootOfTrust => exact RootOfTrust.form_item hrange.1
  | applicationId =>
    exact ⟨v.item, Item.readable_of_octets (Item.number_lt_of_ofType _ _) hread.length_lt,
      ApplicationId.form_item hrange, rfl⟩

/-- What has a wire form can be written, if a boot state in it fits into 32 bits. -/
theorem inRange_iff_of_form {k : Kind} {v : k.Value} {i : Item} (h : k.Form v i) :
    k.InRange v ↔ k.HasCodeState v := by
  cases k with
  | integer maximum => exact iff_of_true h.1 trivial
  | member w => exact iff_of_true h.1 trivial
  | members w =>
    obtain ⟨slots, hslots, hcode, -⟩ := h
    exact iff_of_true (fun s hs => hcode s (hslots.mem_iff.mpr hs)) trivial
  | authenticators =>
    obtain ⟨m, rfl, hm⟩ := h
    refine iff_of_true ?_ trivial
    rw [InRange, Authenticators.mask_codes_ofMask]
    rcases hm with ⟨hm, -⟩ | ⟨codes, hcodes, rfl, -⟩
    · exact hm
    · exact Authenticators.mask_bounds hcodes
  | flag => exact Iff.rfl
  | octets => exact Iff.rfl
  | rootOfTrust => exact and_iff_right h.1
  | applicationId =>
    obtain ⟨j, -, hj, -⟩ := h
    exact iff_of_true (ApplicationId.inRange_of_form hj) trivial

/-- What has a wire form is normal. -/
lemma isNormal_of_form {k : Kind} {v : k.Value} {i : Item} (h : k.Form v i) : k.IsNormal v := by
  cases k with
  | authenticators =>
    obtain ⟨m, rfl, -⟩ := h
    exact ⟨m, rfl⟩
  | _ => trivial

/-- What has a wire form is written. -/
lemma isWritten_of_form {k : Kind} {v : k.Value} {i : Item} (h : k.Form v i) :
    k.isWritten v = true := by
  cases k with
  | flag =>
    obtain ⟨rfl, -⟩ := h
    rfl
  | _ => rfl

/-- A number of 32 bits has at most seven octets. -/
lemma length_integer_le {n : ℤ} (h : IsCode n) : (Item.integer n).octets.length ≤ 7 := by
  obtain ⟨m, rfl⟩ := Int.eq_ofNat_of_zero_le h.1
  have hm : m < 256 ^ 4 := by
    have := h.2
    simp only [uint32Max] at this
    omega
  have hdigits : (Octets.ofNat m).length ≤ 4 := Octets.length_ofNat_le_iff.mpr hm
  have hcontent : (Octets.ofInt m).length ≤ 5 := by
    change (Octets.ofNatSigned m).length ≤ 5
    unfold Octets.ofNatSigned
    split
    · simp
    next first rest hform =>
      rw [hform, List.length_cons] at hdigits
      split <;> simp only [List.length_cons] <;> omega
  have hlength : (Length.encode (Octets.ofInt m).length).length = 1 := by
    rw [Length.encode, if_pos (by omega), List.length_singleton]
  rw [Item.length_octets, Item.header, List.length_append]
  change 1 + (Length.encode (Octets.ofInt m).length).length + (Octets.ofInt m).length ≤ 7
  omega

/-- An INTEGER has an identifier, a length and a content. -/
lemma three_le_length_integer (n : ℤ) : 3 ≤ (Item.integer n).octets.length := by
  have hheader := Item.two_le_length_header (Item.integer n)
  have hcontent := List.length_pos_iff.mpr (Octets.ofInt_ne_nil n)
  rw [Item.length_octets]
  change 3 ≤ _ + (Octets.ofInt n).length
  omega

/-- A mask is at most twice as long as a set of numbers that it is made of. -/
lemma length_mask_le {codes : List ℤ} (h : ∀ c ∈ codes, IsCode c) :
    (Item.integer (Authenticators.mask codes)).octets.length ≤
      2 * (Item.set (codes.map Item.integer)).octets.length := by
  have hheader := Item.two_le_length_header (Item.set (codes.map Item.integer))
  cases codes with
  | nil =>
    have hzero : (Item.integer (Authenticators.mask [])).octets.length = 3 := by decide +kernel
    rw [Item.length_octets (Item.set _)]
    omega
  | cons c codes =>
    have hmask := length_integer_le (Authenticators.mask_bounds h)
    have hfirst := three_le_length_integer c
    have hcontent : (Item.integer c).octets.length ≤
        (Item.set ((c :: codes).map Item.integer)).content.length :=
      Item.length_octets_le_join (List.mem_cons_self ..)
    rw [Item.length_octets (Item.set _)]
    omega

/-- The written form is at most twice as long as any other. -/
theorem length_item_le {k : Kind} {v : k.Value} {i : Item} (h : k.Form v i) :
    (k.item v).octets.length ≤ 2 * i.octets.length := by
  have hsame : (k.item v).octets.length = i.octets.length →
      (k.item v).octets.length ≤ 2 * i.octets.length := by
    intro heq
    omega
  cases k with
  | integer maximum =>
    obtain ⟨-, rfl⟩ := h
    exact hsame rfl
  | member w =>
    obtain ⟨-, rfl⟩ := h
    exact hsame rfl
  | members w =>
    obtain ⟨slots, hslots, -, rfl⟩ := h
    exact hsame (Item.length_set_of_perm ((Item.sort_perm _).trans (hslots.symm.map _)))
  | authenticators =>
    obtain ⟨m, rfl, hm⟩ := h
    rw [item, Authenticators.mask_codes_ofMask] at hsame ⊢
    rcases hm with ⟨-, rfl⟩ | ⟨codes, hcodes, rfl, rfl⟩
    · exact hsame rfl
    · exact length_mask_le hcodes
  | flag =>
    obtain ⟨-, rfl⟩ := h
    exact hsame rfl
  | octets =>
    obtain rfl : i = _ := h
    exact hsame rfl
  | rootOfTrust => exact hsame (RootOfTrust.length_item h)
  | applicationId =>
    obtain ⟨j, -, hform, rfl⟩ := h
    exact hsame (Item.length_octets_eq (ApplicationId.length_item hform))

/-- A wire form is the written one exactly if it is canonical. -/
theorem item_eq_iff {k : Kind} {v : k.Value} {i : Item} (hi : i.Readable) (h : k.Form v i) :
    k.item v = i ↔ k.IsCanonical i := by
  cases k with
  | integer maximum => exact iff_of_true h.2.symm trivial
  | member w => exact iff_of_true h.2.symm trivial
  | members w =>
    obtain ⟨slots, hslots, -, rfl⟩ := h
    have hslot : ∀ s ∈ slots, s.item.Readable :=
      Item.readable_of_ofType_map hi fun s _ => Item.number_lt_of_ofType _ _
    have hitems : ∀ j ∈ slots.map Slot.item, j.Readable := List.forall_mem_map.mpr hslot
    rw [item, IsCanonical, Item.parts_set hitems]
    exact Item.set_sort_eq_iff hitems (hslots.symm.map _)
  | authenticators =>
    obtain ⟨m, rfl, hm⟩ := h
    rw [item, IsCanonical, Authenticators.mask_codes_ofMask]
    rcases hm with ⟨-, rfl⟩ | ⟨codes, -, -, rfl⟩
    · exact iff_of_true rfl rfl
    · refine iff_of_false (fun heq => ?_) (fun htag => ?_)
      · cases congrArg Item.tag heq
      · cases htag
  | flag => exact iff_of_true h.2.symm trivial
  | octets => exact iff_of_true h.symm trivial
  | rootOfTrust => exact RootOfTrust.item_eq_iff hi h
  | applicationId =>
    obtain ⟨j, hj, hform, rfl⟩ := h
    have hitem : item .applicationId v = .octetString j.octets ↔ v.item = j := by
      constructor
      · intro heq
        have hoctets := Item.octetString_injective heq
        refine Item.octets_injective (Item.readable_of_octets ?_ ?_) hj hoctets
        · exact Item.number_lt_of_ofType _ _
        · rw [hoctets]
          exact hi.length_lt
      · rintro rfl
        rfl
    rw [hitem, ApplicationId.item_eq_iff hj hform]
    change _ ↔ ∀ j' ∈ Item.split j.octets, _
    rw [Item.split_octets hj, List.forall_mem_singleton]

end Kind

end AttestedKey
