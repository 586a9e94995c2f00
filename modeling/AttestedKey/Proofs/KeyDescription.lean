import AttestedKey.KeyDescription
import AttestedKey.Proofs.AuthorizationList.Written

/-!
# The wire forms of a key description

A key description is a sequence of eight items: four numbers, two octet strings and the wire forms
of two authorization lists (`KeyDescription.Form`).  Lenient reading accepts just these
(`decode_eq_ok_iff`).  The written form, `KeyDescription.item`, has the written forms of both lists
(`IsNormal.encode_eq_ok_iff`, `IsNormal.form_item`), and any other form of the same record differs
from it in one of the two lists (`item_eq_iff`).
-/

namespace AttestedKey

open Der Outcome

/-- A list of eight items is given by its items. -/
lemma exists_of_length_eight {α : Type} {l : List α} (h : l.length = 8) :
    ∃ a₁ a₂ a₃ a₄ a₅ a₆ a₇ a₈, l = [a₁, a₂, a₃, a₄, a₅, a₆, a₇, a₈] := by
  rcases l with _ | ⟨a₁, _ | ⟨a₂, _ | ⟨a₃, _ | ⟨a₄, _ | ⟨a₅, _ | ⟨a₆, _ | ⟨a₇, _ | ⟨a₈,
    _ | ⟨a₉, rest⟩⟩⟩⟩⟩⟩⟩⟩⟩ <;> simp at h ⊢

namespace KeyDescription

/-- The parts of a record whose lists have the given forms. -/
def itemsWith (k : KeyDescription) (software tee : Item) : List Item :=
  [.integer k.attestationVersion, .enumerated k.attestationSecurityLevel.code,
    .integer k.keymasterVersion, .enumerated k.keymasterSecurityLevel.code,
    .octetString k.attestationChallenge, .octetString k.uniqueId, software, tee]

/-- The versions and the security levels of a record are not negative. -/
def IsNatural (k : KeyDescription) : Prop :=
  0 ≤ k.attestationVersion ∧ 0 ≤ k.attestationSecurityLevel.code ∧
    0 ≤ k.keymasterVersion ∧ 0 ≤ k.keymasterSecurityLevel.code

/-- An item is a wire form of a record. -/
def Form (k : KeyDescription) (i : Item) : Prop :=
  k.IsNatural ∧ ∃ software tee : Item, k.softwareEnforced.Form software ∧
    k.teeEnforced.Form tee ∧ i = .sequence (k.itemsWith software tee)

/-- The form in which a record is written. -/
def item (k : KeyDescription) : Item :=
  .sequence (k.itemsWith k.softwareEnforced.item k.teeEnforced.item)

/-- Both lists of a record are in normal form. -/
def IsNormal (k : KeyDescription) : Prop := k.softwareEnforced.IsNormal ∧ k.teeEnforced.IsNormal

/-- The numbers of a record fit into their fields. -/
def InRange (k : KeyDescription) : Prop :=
  (0 ≤ k.attestationVersion ∧ 0 ≤ k.keymasterVersion) ∧
    (IsCode k.attestationSecurityLevel.code ∧ IsCode k.keymasterSecurityLevel.code) ∧
    k.softwareEnforced.InRange ∧ k.teeEnforced.InRange

/-- The security levels and the verified boot states of a record fit into 32 bits. -/
def HasCodes (k : KeyDescription) : Prop :=
  (k.attestationSecurityLevel.code ≤ uint32Max ∧ k.keymasterSecurityLevel.code ≤ uint32Max) ∧
    k.softwareEnforced.HasCodeState ∧ k.teeEnforced.HasCodeState

instance : DecidablePred HasCodes := fun _ => inferInstanceAs (Decidable ((_ ∧ _) ∧ _ ∧ _))

/-- Both lists of a record are canonical. -/
def IsCanonical (i : Item) : Prop := ∀ list ∈ i.parts.drop 6, AuthorizationList.IsCanonical list

instance : DecidablePred IsCanonical := fun i =>
  inferInstanceAs (Decidable (∀ list ∈ i.parts.drop 6, AuthorizationList.IsCanonical list))

/-- A number passes if it is not negative. -/
lemma checkNatural_eq_ok_iff {field : String} {value : ℤ} {n : ℕ} :
    checkNatural field value = .ok n ↔ 0 ≤ value ∧ (n : ℤ) = value := by
  cases value with
  | ofNat m =>
    rw [checkNatural, Except.ok.injEq, Int.ofNat_eq_natCast]
    omega
  | negSucc m =>
    rw [checkNatural]
    simp only [reduceCtorEq, false_iff]
    omega

/-! ### Reading -/

/-- A number is read as one that is not negative, if it is not. -/
lemma toNatural_eq_ok_iff {interpret : Element → Except Fault ℤ} {field : String} {e : Element}
    {n : ℤ} : toNatural interpret field e = .ok n ↔ interpret e = .ok n ∧ 0 ≤ n := by
  unfold toNatural
  rw [bind_eq_ok_iff]
  constructor
  · rintro ⟨m, hm, h⟩
    split at h
    · cases h
    next hneg =>
      obtain rfl : m = n := Except.ok.inj h
      exact ⟨hm, by omega⟩
  · rintro ⟨hn, hnonneg⟩
    refine ⟨n, hn, ?_⟩
    rw [if_neg (by omega)]
    rfl

/-- A version is read from an INTEGER that is not negative. -/
lemma toVersion_eq_ok_iff {field : String} {i : Item} {o : ℕ} {n : ℤ} :
    toVersion field (i.placed o) = .ok n ↔ i = .integer n ∧ 0 ≤ n := by
  rw [toVersion, toNatural_eq_ok_iff, Element.toInteger_eq_ok_iff]

/-- A security level is read from an ENUMERATED that is not negative. -/
lemma toSecurityLevel_eq_ok_iff {field : String} {i : Item} {o : ℕ} {s : Slot .securityLevel} :
    toSecurityLevel .lenient field (i.placed o) = .ok s ↔ i = .enumerated s.code ∧ 0 ≤ s.code := by
  unfold toSecurityLevel
  rw [bind_eq_ok_iff]
  constructor
  · rintro ⟨code, hcode, h⟩
    obtain ⟨hi, hnonneg⟩ := toNatural_eq_ok_iff.mp hcode
    rw [Slot.recognise_lenient, Except.ok.injEq] at h
    subst h
    rw [Slot.code_ofCode]
    exact ⟨Element.toEnumerated_eq_ok_iff.mp hi, hnonneg⟩
  · rintro ⟨hi, hnonneg⟩
    refine ⟨s.code, toNatural_eq_ok_iff.mpr ⟨Element.toEnumerated_eq_ok_iff.mpr hi, hnonneg⟩, ?_⟩
    rw [Slot.recognise_lenient, Slot.ofCode_code]

/-- A reader can read the tag of every form of a list. -/
lemma number_lt_of_form {a : AuthorizationList} {i : Item} (h : a.Form i) :
    i.tag.number < 2 ^ 28 := by
  obtain ⟨entries, -, -, -, rfl⟩ := h
  exact Item.number_lt_of_ofType _ _

/-- A reader can read each element of a record if it can read the whole. -/
lemma readable_of_itemsWith {k : KeyDescription} {software tee : Item}
    (hi : (Item.sequence (k.itemsWith software tee)).Readable)
    (hsoftware : software.tag.number < 2 ^ 28) (htee : tee.tag.number < 2 ^ 28) :
    ∀ j ∈ k.itemsWith software tee, j.Readable := by
  refine Item.readable_of_ofType_join hi fun j hj => ?_
  simp only [itemsWith, List.mem_cons, List.not_mem_nil, or_false] at hj
  rcases hj with rfl | rfl | rfl | rfl | rfl | rfl | rfl | rfl
  · exact Item.number_lt_of_ofType _ _
  · exact Item.number_lt_of_ofType _ _
  · exact Item.number_lt_of_ofType _ _
  · exact Item.number_lt_of_ofType _ _
  · exact Item.number_lt_of_ofType _ _
  · exact Item.number_lt_of_ofType _ _
  · exact hsoftware
  · exact htee

/-- A list is read from a sequence that is one of its forms. -/
lemma readList_eq_ok_iff {i : Item} {o : ℕ} {a : AuthorizationList} :
    ((i.placed o).toSequence >>= AuthorizationList.ofRegion .lenient) = .ok a ↔ a.Form i := by
  rw [bind_eq_ok_iff]
  constructor
  · rintro ⟨c, hc, h⟩
    obtain ⟨content, rfl, rfl⟩ := Element.toSequence_eq_ok_iff.mp hc
    obtain ⟨entries, hnodup, hread, hholds, rfl⟩ := AuthorizationList.ofRegion_eq_ok_iff.mp h
    exact ⟨entries, hnodup, hread, hholds, rfl⟩
  · intro h
    rcases h with ⟨entries, hnodup, hread, hholds, rfl⟩
    exact ⟨_, Element.toSequence_eq_ok_iff.mpr ⟨_, rfl, rfl⟩,
      AuthorizationList.ofRegion_eq_ok_iff.mpr ⟨entries, hnodup, hread, hholds, rfl⟩⟩

/-- Eight items are read into the record whose parts they are. -/
lemma ofElements_eq_ok_iff {i₁ i₂ i₃ i₄ i₅ i₆ i₇ i₈ : Item} {o₁ o₂ o₃ o₄ o₅ o₆ o₇ o₈ : ℕ}
    {k : KeyDescription} :
    ofElements .lenient (i₁.placed o₁) (i₂.placed o₂) (i₃.placed o₃) (i₄.placed o₄)
        (i₅.placed o₅) (i₆.placed o₆) (i₇.placed o₇) (i₈.placed o₈) = .ok k ↔
      k.IsNatural ∧ k.softwareEnforced.Form i₇ ∧ k.teeEnforced.Form i₈ ∧
        [i₁, i₂, i₃, i₄, i₅, i₆, i₇, i₈] = k.itemsWith i₇ i₈ := by
  unfold ofElements
  constructor
  · intro h
    obtain ⟨attestationVersion, h₁, h⟩ := bind_eq_ok_iff.mp h
    obtain ⟨attestationLevel, h₂, h⟩ := bind_eq_ok_iff.mp h
    obtain ⟨keymasterVersion, h₃, h⟩ := bind_eq_ok_iff.mp h
    obtain ⟨keymasterLevel, h₄, h⟩ := bind_eq_ok_iff.mp h
    obtain ⟨challenge, h₅, h⟩ := bind_eq_ok_iff.mp h
    obtain ⟨uniqueId, h₆, h⟩ := bind_eq_ok_iff.mp h
    obtain ⟨software, h₇, h⟩ := bind_eq_ok_iff.mp h
    obtain ⟨tee, h₈, h⟩ := bind_eq_ok_iff.mp h
    obtain ⟨softwareList, h₇', h⟩ := bind_eq_ok_iff.mp h
    obtain ⟨teeList, h₈', h⟩ := bind_eq_ok_iff.mp h
    obtain rfl : _ = k := Except.ok.inj h
    obtain ⟨rfl, hn₁⟩ := toVersion_eq_ok_iff.mp h₁
    obtain ⟨rfl, hn₂⟩ := toSecurityLevel_eq_ok_iff.mp h₂
    obtain ⟨rfl, hn₃⟩ := toVersion_eq_ok_iff.mp h₃
    obtain ⟨rfl, hn₄⟩ := toSecurityLevel_eq_ok_iff.mp h₄
    rw [Element.toOctets_eq_ok_iff] at h₅ h₆
    subst h₅ h₆
    exact ⟨⟨hn₁, hn₂, hn₃, hn₄⟩, readList_eq_ok_iff.mp (bind_eq_ok_iff.mpr ⟨_, h₇, h₇'⟩),
      readList_eq_ok_iff.mp (bind_eq_ok_iff.mpr ⟨_, h₈, h₈'⟩), rfl⟩
  · intro h
    rcases h with ⟨⟨hn₁, hn₂, hn₃, hn₄⟩, hsoftware, htee, hitems⟩
    simp only [itemsWith, List.cons.injEq, and_true] at hitems
    obtain ⟨h₁, h₂, h₃, h₄, h₅, h₆⟩ := hitems
    obtain ⟨software, h₇, h₇'⟩ := bind_eq_ok_iff.mp (readList_eq_ok_iff (o := o₇) |>.mpr hsoftware)
    obtain ⟨tee, h₈, h₈'⟩ := bind_eq_ok_iff.mp (readList_eq_ok_iff (o := o₈) |>.mpr htee)
    refine bind_eq_ok_iff.mpr ⟨_, toVersion_eq_ok_iff.mpr ⟨h₁, hn₁⟩, ?_⟩
    refine bind_eq_ok_iff.mpr ⟨_, toSecurityLevel_eq_ok_iff.mpr ⟨h₂, hn₂⟩, ?_⟩
    refine bind_eq_ok_iff.mpr ⟨_, toVersion_eq_ok_iff.mpr ⟨h₃, hn₃⟩, ?_⟩
    refine bind_eq_ok_iff.mpr ⟨_, toSecurityLevel_eq_ok_iff.mpr ⟨h₄, hn₄⟩, ?_⟩
    refine bind_eq_ok_iff.mpr ⟨_, Element.toOctets_eq_ok_iff.mpr h₅, ?_⟩
    refine bind_eq_ok_iff.mpr ⟨_, Element.toOctets_eq_ok_iff.mpr h₆, ?_⟩
    refine bind_eq_ok_iff.mpr ⟨software, h₇, bind_eq_ok_iff.mpr ⟨tee, h₈, ?_⟩⟩
    exact bind_eq_ok_iff.mpr ⟨_, h₇', bind_eq_ok_iff.mpr ⟨_, h₈', rfl⟩⟩

/-- A record is made of the eight items of a sequence that reaches to the end of the input. -/
lemma exists_items_of_decode {rigor : Rigor} {input : Octets} {k : KeyDescription}
    (h : decode rigor input = .ok k) :
    ∃ i₁ i₂ i₃ i₄ i₅ i₆ i₇ i₈ : Item, ∃ o₁ o₂ o₃ o₄ o₅ o₆ o₇ o₈ : ℕ,
      (∀ i ∈ [i₁, i₂, i₃, i₄, i₅, i₆, i₇, i₈], i.Readable) ∧
      (Item.sequence [i₁, i₂, i₃, i₄, i₅, i₆, i₇, i₈]).Readable ∧
      input = (Item.sequence [i₁, i₂, i₃, i₄, i₅, i₆, i₇, i₈]).octets ∧
      ofElements rigor (i₁.placed o₁) (i₂.placed o₂) (i₃.placed o₃) (i₄.placed o₄)
        (i₅.placed o₅) (i₆.placed o₆) (i₇.placed o₇) (i₈.placed o₈) = .ok k := by
  obtain ⟨i, e, hi, hinput, he, h⟩ := Cursor.read_last_eq_ok_iff.mp h
  obtain ⟨htag, rfl⟩ := Element.ofType_placed_eq_ok_iff.mp he
  obtain ⟨elements, helements, h⟩ := bind_eq_ok_iff.mp h
  rw [Item.inside_placed] at helements
  obtain ⟨items, hitems, hcontent, rfl⟩ := (Cursor.complete_walk_eq_ok_iff rfl).mp helements
  split at h
  next h₁ =>
    obtain ⟨i₁, _, rfl, rfl, h₂⟩ := Item.layout_eq_cons h₁
    obtain ⟨i₂, _, rfl, rfl, h₃⟩ := Item.layout_eq_cons h₂
    obtain ⟨i₃, _, rfl, rfl, h₄⟩ := Item.layout_eq_cons h₃
    obtain ⟨i₄, _, rfl, rfl, h₅⟩ := Item.layout_eq_cons h₄
    obtain ⟨i₅, _, rfl, rfl, h₆⟩ := Item.layout_eq_cons h₅
    obtain ⟨i₆, _, rfl, rfl, h₇⟩ := Item.layout_eq_cons h₆
    obtain ⟨i₇, _, rfl, rfl, h₈⟩ := Item.layout_eq_cons h₇
    obtain ⟨i₈, _, rfl, rfl, h₉⟩ := Item.layout_eq_cons h₈
    obtain rfl := Item.layout_eq_nil h₉
    have hsequence : i = Item.sequence [i₁, i₂, i₃, i₄, i₅, i₆, i₇, i₈] :=
      (Item.eq_ofType_of_tag htag).trans (congrArg _ hcontent)
    rw [hsequence] at hi hinput
    exact ⟨i₁, i₂, i₃, i₄, i₅, i₆, i₇, i₈, _, _, _, _, _, _, _, _, hitems, hi, hinput, h⟩
  · cases h

/-- An input holds a record if it is one of its wire forms. -/
theorem decode_eq_ok_iff {input : Octets} {k : KeyDescription} :
    decode .lenient input = .ok k ↔ ∃ i : Item, i.Readable ∧ input = i.octets ∧ k.Form i := by
  constructor
  · intro h
    obtain ⟨i₁, i₂, i₃, i₄, i₅, i₆, i₇, i₈, _, _, _, _, _, _, _, _, -, hread, hinput, h⟩ :=
      exists_items_of_decode h
    obtain ⟨hnatural, hsoftware, htee, hitems⟩ := ofElements_eq_ok_iff.mp h
    exact ⟨_, hread, hinput, hnatural, i₇, i₈, hsoftware, htee, congrArg _ hitems⟩
  · intro h
    rcases h with ⟨_, hi, rfl, hnatural, software, tee, hsoftware, htee, rfl⟩
    have hread := readable_of_itemsWith hi (number_lt_of_form hsoftware) (number_lt_of_form htee)
    refine Cursor.read_last_eq_ok_iff.mpr
      ⟨_, _, hi, rfl, Element.ofType_placed_eq_ok_iff.mpr ⟨rfl, rfl⟩, ?_⟩
    rw [Item.inside_placed]
    refine bind_eq_ok_iff.mpr
      ⟨_, (Cursor.complete_walk_eq_ok_iff rfl).mpr ⟨_, hread, rfl, rfl⟩, ?_⟩
    exact ofElements_eq_ok_iff.mpr ⟨hnatural, hsoftware, htee, rfl⟩

/-! ### Writing -/

/-- A record in normal form is written in its written form, if its numbers are in range. -/
theorem IsNormal.encode_eq_ok_iff {k : KeyDescription} (h : k.IsNormal) {b : Octets} :
    k.encode = .ok b ↔ k.InRange ∧ b = k.item.octets := by
  have hitem : encodeSequence
      [encodeInteger k.attestationVersion, encodeEnumerated k.attestationSecurityLevel.code,
        encodeInteger k.keymasterVersion, encodeEnumerated k.keymasterSecurityLevel.code,
        encodeOctets k.attestationChallenge, encodeOctets k.uniqueId,
        k.softwareEnforced.item.octets, k.teeEnforced.item.octets] = k.item.octets :=
    Item.encodeSequence_eq (k.itemsWith k.softwareEnforced.item k.teeEnforced.item)
  unfold encode
  constructor
  · intro henc
    obtain ⟨n₁, h₁, henc⟩ := bind_eq_ok_iff.mp henc
    obtain ⟨n₃, h₃, henc⟩ := bind_eq_ok_iff.mp henc
    obtain ⟨n₂, h₂, henc⟩ := bind_eq_ok_iff.mp henc
    obtain ⟨n₄, h₄, henc⟩ := bind_eq_ok_iff.mp henc
    obtain ⟨software, h₇, henc⟩ := bind_eq_ok_iff.mp henc
    obtain ⟨tee, h₈, henc⟩ := bind_eq_ok_iff.mp henc
    obtain ⟨hn₁, hk₁⟩ := checkNatural_eq_ok_iff.mp h₁
    obtain ⟨hn₃, hk₃⟩ := checkNatural_eq_ok_iff.mp h₃
    obtain ⟨hn₂, hm₂, rfl⟩ := checkRange_eq_ok_iff.mp h₂
    obtain ⟨hn₄, hm₄, rfl⟩ := checkRange_eq_ok_iff.mp h₄
    obtain ⟨hsoftware, rfl⟩ := h.1.encode_eq_ok_iff.mp h₇
    obtain ⟨htee, rfl⟩ := h.2.encode_eq_ok_iff.mp h₈
    refine ⟨⟨⟨hn₁, hn₃⟩, ⟨⟨hn₂, hm₂⟩, hn₄, hm₄⟩, hsoftware, htee⟩, ?_⟩
    rw [hk₁, hk₃, hitem] at henc
    exact (Except.ok.inj henc).symm
  · intro hrange
    rcases hrange with ⟨⟨⟨hn₁, hn₃⟩, ⟨⟨hn₂, hm₂⟩, hn₄, hm₄⟩, hsoftware, htee⟩, rfl⟩
    have hk₁ : (k.attestationVersion.toNat : ℤ) = k.attestationVersion := Int.toNat_of_nonneg hn₁
    have hk₃ : (k.keymasterVersion.toNat : ℤ) = k.keymasterVersion := Int.toNat_of_nonneg hn₃
    refine bind_eq_ok_iff.mpr ⟨_, checkNatural_eq_ok_iff.mpr ⟨hn₁, hk₁⟩, ?_⟩
    refine bind_eq_ok_iff.mpr ⟨_, checkNatural_eq_ok_iff.mpr ⟨hn₃, hk₃⟩, ?_⟩
    refine bind_eq_ok_iff.mpr ⟨_, checkRange_eq_ok_iff.mpr ⟨hn₂, hm₂, rfl⟩, ?_⟩
    refine bind_eq_ok_iff.mpr ⟨_, checkRange_eq_ok_iff.mpr ⟨hn₄, hm₄, rfl⟩, ?_⟩
    refine bind_eq_ok_iff.mpr ⟨_, h.1.encode_eq_ok_iff.mpr ⟨hsoftware, rfl⟩, ?_⟩
    refine bind_eq_ok_iff.mpr ⟨_, h.2.encode_eq_ok_iff.mpr ⟨htee, rfl⟩, ?_⟩
    rw [hk₁, hk₃, hitem]
    rfl

/-! ### The written form among the others -/

/-- What was read is in normal form. -/
lemma isNormal_of_form {k : KeyDescription} {i : Item} (h : k.Form i) : k.IsNormal := by
  obtain ⟨-, software, tee, hsoftware, htee, -⟩ := h
  exact ⟨AuthorizationList.isNormal_of_form hsoftware, AuthorizationList.isNormal_of_form htee⟩

/-- What was read fits into its fields if its security levels and verified boot states do. -/
lemma inRange_iff_of_form {k : KeyDescription} {i : Item} (h : k.Form i) :
    k.InRange ↔ k.HasCodes := by
  obtain ⟨⟨hn₁, hn₂, hn₃, hn₄⟩, software, tee, hsoftware, htee, -⟩ := h
  rw [InRange, HasCodes, AuthorizationList.inRange_iff_of_form hsoftware,
    AuthorizationList.inRange_iff_of_form htee]
  simp [IsCode, hn₁, hn₂, hn₃, hn₄]

/-- What was read is written in its written form if it fits. -/
lemma encode_eq_ok_iff_of_form {k : KeyDescription} {i : Item} (h : k.Form i) {b : Octets} :
    k.encode = .ok b ↔ k.HasCodes ∧ b = k.item.octets := by
  rw [(isNormal_of_form h).encode_eq_ok_iff, inRange_iff_of_form h]

/-- The lists of a record can be read if the record can. -/
lemma readable_lists {k : KeyDescription} (h : k.item.Readable) :
    k.softwareEnforced.item.Readable ∧ k.teeEnforced.item.Readable := by
  have hread := readable_of_itemsWith h (Item.number_lt_of_ofType _ _)
    (Item.number_lt_of_ofType _ _)
  simp only [itemsWith, List.forall_mem_cons] at hread
  obtain ⟨-, -, -, -, -, -, hsoftware, htee, -⟩ := hread
  exact ⟨hsoftware, htee⟩

/-- If what was read can be written, the written form is a wire form too. -/
lemma form_item_of_form {k : KeyDescription} {i : Item} (h : k.Form i) (hcodes : k.HasCodes)
    (hread : k.item.Readable) : k.Form k.item := by
  obtain ⟨hnatural, software, tee, hsoftware, htee, -⟩ := h
  obtain ⟨-, hstate₇, hstate₈⟩ := hcodes
  obtain ⟨hread₇, hread₈⟩ := readable_lists hread
  exact ⟨hnatural, _, _, AuthorizationList.form_item_of_form hsoftware hstate₇ hread₇,
    AuthorizationList.form_item_of_form htee hstate₈ hread₈, rfl⟩

/-- The written form is at most twice as long as any other. -/
theorem length_item_le {k : KeyDescription} {i : Item} (h : k.Form i) :
    k.item.octets.length ≤ 2 * i.octets.length := by
  obtain ⟨-, software, tee, hsoftware, htee, rfl⟩ := h
  have h₇ := AuthorizationList.length_item_le hsoftware
  have h₈ := AuthorizationList.length_item_le htee
  apply Item.length_octets_double
  simp only [itemsWith, Item.join_cons, Item.join_nil, List.length_append, List.length_nil]
  omega

/-- A wire form is the written one exactly if both of its lists are canonical. -/
theorem item_eq_iff {k : KeyDescription} {i : Item} (hi : i.Readable) (h : k.Form i) :
    k.item = i ↔ IsCanonical i := by
  obtain ⟨-, software, tee, hsoftware, htee, rfl⟩ := h
  have hread := readable_of_itemsWith hi (number_lt_of_form hsoftware) (number_lt_of_form htee)
  have hlists : software.Readable ∧ tee.Readable := by
    simp only [itemsWith, List.forall_mem_cons] at hread
    obtain ⟨-, -, -, -, -, -, hsoftware, htee, -⟩ := hread
    exact ⟨hsoftware, htee⟩
  have hcanonical : IsCanonical (Item.sequence (k.itemsWith software tee)) ↔
      AuthorizationList.IsCanonical software ∧ AuthorizationList.IsCanonical tee := by
    rw [IsCanonical, Item.parts_sequence hread]
    simp [itemsWith]
  rw [hcanonical, ← AuthorizationList.item_eq_iff hlists.1 hsoftware,
    ← AuthorizationList.item_eq_iff hlists.2 htee]
  constructor
  · intro heq
    have hread' := readable_of_itemsWith (heq ▸ hi) (Item.number_lt_of_ofType _ _)
      (Item.number_lt_of_ofType _ _)
    have hitems : k.itemsWith k.softwareEnforced.item k.teeEnforced.item =
        k.itemsWith software tee :=
      Item.join_injective hread' hread (Item.ofType_injective heq)
    simpa only [itemsWith, List.cons.injEq, true_and, and_true] using hitems
  · rintro ⟨hsoftware, htee⟩
    rw [item, hsoftware, htee]

end KeyDescription

end AttestedKey
