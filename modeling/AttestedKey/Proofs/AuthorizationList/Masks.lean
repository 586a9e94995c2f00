import AttestedKey.Proofs.AuthorizationList.Grammar
import AttestedKey.Proofs.AuthorizationList.Order
import AttestedKey.Proofs.Elsewhere

/-!
# Masks as numbers and as sets

A mask and the set that stands for it say the same.  The numbers of the set, in any order, have the
mask, and the mask of any numbers is the one for any authenticator if that is among them, and else
the disjunction of all.  Strict reading refuses just the masks with a bit that has no name
(`Authenticators.IsUnknown`).

So the two forms in which a list may have its authenticators, a number and a set of numbers, are
read alike (`Authenticators.ReadsAsMask`).  The whole inputs are compared: one wrapper among
others, of which those behind it stand at different places in the two inputs (`around`).  What is
common to the readers of all fields is shown for any field, and the mask comes in last.
-/

namespace AttestedKey

open Der Outcome

namespace Authenticators

/-! ### Masks with bits that have no name -/

/-- A mask that is neither that of no authenticator nor that of any has a bit without a name. -/
def IsUnknown (m : ℤ) : Prop := m ≠ 0 ∧ m ≠ anyMask ∧ ∃ k, 2 ≤ k ∧ m.testBit k = true

/-- The bits without a name are those above the two lowest. -/
lemma leftover_ne_zero_iff {m : ℤ} : leftover m ≠ 0 ↔ ∃ k, 2 ≤ k ∧ m.testBit k = true := by
  constructor
  · intro hleft
    by_contra hnone
    push Not at hnone
    apply hleft
    apply eq_of_testBit_eq
    intro k
    rw [testBit_leftover, not_testBit_zero]
    by_cases hk : 2 ≤ k
    · rw [Bool.eq_false_iff.mpr (hnone k hk), Bool.and_false]
    · rw [decide_eq_false hk, Bool.false_and]
  · rintro ⟨k, hk, hbit⟩ hzero
    have hleft := testBit_leftover m k
    rw [hzero, not_testBit_zero, hbit, decide_eq_true hk] at hleft
    cases hleft

/-- The test for bits without a name is the one that strict reading makes. -/
lemma hasUnknown_iff {m : ℤ} : hasUnknown m = true ↔ IsUnknown m := by
  unfold hasUnknown IsUnknown
  rw [Bool.and_eq_true, Bool.and_eq_true, bne_iff_ne, bne_iff_ne, bne_iff_ne, leftover_ne_zero_iff,
    and_assoc]

/-- Strict reading refuses a mask with a bit without a name. -/
lemma recognise_strict_of_isUnknown {m : ℤ} (h : IsUnknown m) (tag offset : Option ℤ) :
    recognise .strict tag offset m =
      .error (.unrecognised (.authenticatorBits m (leftover m) tag) offset) := by
  unfold recognise
  rw [hasUnknown_iff.mpr h]

/-- Strict reading takes every other mask. -/
lemma recognise_strict_of_not_isUnknown {m : ℤ} (h : ¬ IsUnknown m) (tag offset : Option ℤ) :
    recognise .strict tag offset m = .ok (ofMask m) := by
  unfold recognise
  rw [Bool.eq_false_iff.mpr fun hunknown => h (hasUnknown_iff.mp hunknown)]

/-- Of a mask, only the place of its refusal depends on where it stands. -/
lemma elsewhere_recognise (rigor : Rigor) (tag offset offset' : Option ℤ) (m : ℤ) :
    Elsewhere (recognise rigor tag offset m) (recognise rigor tag offset' m) := by
  unfold recognise
  split
  · exact .unrecognised _ _ _
  · exact .refl _

end Authenticators

/-! ### One wrapper among others -/

/-- In every form a mask is read as the number that it is. -/
lemma Kind.ofElement_authenticators {m : ℤ} {i : Item} (hi : i.Readable)
    (hform : Authenticators.Form m i) (rigor : Rigor) (f : Field) (o : ℕ) :
    Kind.authenticators.ofElement rigor f (i.placed o) =
      Authenticators.recognise rigor (some f.tag) (some o) m := by
  have hmask : readMask f (i.placed o) = .ok m := (readMask_eq_ok_iff hi).mpr hform
  change (readMask f (i.placed o) >>= Authenticators.recognise rigor (some f.tag) (some o)) = _
  rw [hmask, ok_bind]

namespace AuthorizationList

/-- What a wrapper around a readable item holds is read as the item is. -/
lemma sole_explicit {α : Type} {i : Item} (hi : i.Readable) (number o : ℕ) (expected : String)
    (interpret : Element → Except Fault α) :
    sole ((Item.explicit number i).placed o) expected interpret =
      interpret (i.placed (o + (Item.explicit number i).header.length)) := by
  have hcontent : (Item.explicit number i).content = i.octets ++ [] := (List.append_nil _).symm
  unfold sole
  rw [Item.inside_placed, hcontent, Cursor.read_octets_bind hi]
  exact bind_pure _

/-- The wrapper of a field is read if its tag is new, and gives the field the value of the item that
it holds. -/
lemma addWrapper_explicit {f : Field} {i : Item} (hi : i.Readable) (rigor : Rigor) (p : Progress)
    (o : ℕ) :
    addWrapper rigor p ((Item.explicit f.tag i).placed o) =
      if p.seen.contains f.tag then malformedAt o (.repeatedTag f.tag)
      else f.kind.ofElement rigor f (i.placed (o + (Item.explicit f.tag i).header.length)) >>=
        fun v => .ok ⟨p.list.set f v, f.tag :: p.seen⟩ := by
  have htag : ((Item.explicit f.tag i).placed o).tag.number = f.tag := rfl
  have hexplicit : ((Item.explicit f.tag i).placed o).tag.isExplicit = true :=
    (Tag.isExplicit_iff _).mpr rfl
  rw [addWrapper_eq, hexplicit, Bool.not_true, if_neg Bool.false_ne_true, htag]
  unfold addByTag addField
  rw [htag, Field.ofTag?_tag]
  simp only [sole_explicit hi, bind_assoc]
  rfl

/-- Each wrapper that is read leaves its number behind. -/
lemma seen_of_addWrapper {rigor : Rigor} {p p' : Progress} {wrapper : Element}
    (h : addWrapper rigor p wrapper = .ok p') : p'.seen = wrapper.tag.number :: p.seen := by
  rw [addWrapper_eq] at h
  split at h
  · cases h
  · split at h
    · cases h
    · obtain ⟨list, -, hlist⟩ := bind_eq_ok_iff.mp h
      rw [← Except.ok.inj hlist]

/-- The numbers that a loop has seen are those of the wrappers. -/
lemma mem_seen_of_foldlM {rigor : Rigor} {items : List Item} {o number : ℕ} {p p' : Progress}
    (h : (Item.layout o items).foldlM (addWrapper rigor) p = .ok p') (hmem : number ∈ p'.seen) :
    number ∈ p.seen ∨ ∃ w ∈ items, w.tag.number = number := by
  induction items generalizing o p with
  | nil =>
    rw [← Except.ok.inj h] at hmem
    exact .inl hmem
  | cons w items ih =>
    obtain ⟨p₁, hstep, hrest⟩ := foldlM_cons_eq_ok_iff.mp h
    rcases ih hrest with hseen | ⟨w', hw', hnumber⟩
    · rw [seen_of_addWrapper hstep, Item.tag_placed] at hseen
      rcases List.mem_cons.mp hseen with rfl | hseen
      · exact .inr ⟨w, List.mem_cons_self .., rfl⟩
      · exact .inl hseen
    · exact .inr ⟨w', List.mem_cons_of_mem _ hw', hnumber⟩

/-- A list with the wrapper of a field between some items and some octets. -/
def around (front : List Item) (f : Field) (i : Item) (rest : Octets) : Item :=
  .ofType .sequence (Item.join front ++ ((Item.explicit f.tag i).octets ++ rest))

/-- The place of the wrapper in such a list. -/
def wrapperPlace (front : List Item) (f : Field) (i : Item) (rest : Octets) : ℕ :=
  (around front f i rest).header.length + (Item.join front).length

/-- The place of the item in the wrapper. -/
def innerPlace (front : List Item) (f : Field) (i : Item) (rest : Octets) : ℕ :=
  wrapperPlace front f i rest + (Item.explicit f.tag i).header.length

section Around

variable {front : List Item} {f : Field} {i i' : Item} {rest : Octets} {rigor : Rigor}

/-- The wrapper in a list that can be read can be read. -/
lemma readable_explicit_of_around (h : (around front f i rest).Readable) :
    (Item.explicit f.tag i).Readable := by
  have hlength := h.length_lt
  refine Item.readable_of_octets f.tag_lt ?_
  unfold around at hlength
  rw [Item.content_ofType, List.length_append, List.length_append] at hlength
  omega

/-- The items in front of the wrapper are read first, then the wrapper and then the octets behind
it. -/
lemma decode_around (h : (around front f i rest).Readable) (hfront : ∀ w ∈ front, w.Readable) :
    decode rigor (around front f i rest).octets =
      (Item.layout (around front f i rest).header.length front).foldlM (addWrapper rigor) .start >>=
        fun p => addWrapper rigor p
          ((Item.explicit f.tag i).placed (wrapperPlace front f i rest)) >>=
        fun p => (⟨wrapperPlace front f i rest + (Item.explicit f.tag i).octets.length, rest, 0⟩ :
          Cursor).walk.foldlM (addWrapper rigor) p >>= fun p => .ok p.list := by
  have hregion : ((around front f i rest).placed 0).toSequence =
      .ok ⟨(around front f i rest).header.length, _, 0⟩ :=
    Element.toSequence_eq_ok_iff.mpr ⟨_, rfl, by rw [Nat.zero_add]⟩
  rw [decode_octets h, hregion, ok_bind]
  unfold ofRegion
  rw [Cursor.foldlM_walk_append hfront, bind_assoc]
  congr 1
  funext p
  rw [Cursor.foldlM_walk_octets_append (readable_explicit_of_around h), bind_assoc]
  rfl

/-- Items that are read alike make lists that are read alike. -/
theorem elsewhere_decode_around (h : (around front f i rest).Readable)
    (h' : (around front f i' rest).Readable) (hfront : ∀ w ∈ front, w.Readable)
    (hi : i.Readable) (hi' : i'.Readable)
    (halike : ∀ o o', Elsewhere (f.kind.ofElement rigor f (i.placed o))
      (f.kind.ofElement rigor f (i'.placed o'))) :
    Elsewhere (decode rigor (around front f i rest).octets)
      (decode rigor (around front f i' rest).octets) := by
  have hwalk := fun s => Moves.addWrapper s rigor
  rw [decode_around h hfront, decode_around h' hfront]
  refine (Elsewhere.foldlM_layout hwalk hfront _ _ _).bind fun p => Elsewhere.bind ?_ fun p => ?_
  · rw [addWrapper_explicit hi, addWrapper_explicit hi']
    split
    · exact rfl
    · exact (halike _ _).bind fun v => .refl _
  · exact (Elsewhere.foldlM_walk hwalk _ _ _ _).bind fun p => .refl _

/-- The item in a list that can be read can be read, if its tag can. -/
lemma readable_of_around (hnumber : i.tag.number < 2 ^ 28) (h : (around front f i rest).Readable) :
    i.Readable :=
  Item.readable_of_octets hnumber (readable_explicit_of_around h).length_lt

/-- The field of the wrapper has a value of which the item is a form. -/
lemma exists_form_of_decode_around (h : (around front f i rest).Readable)
    (hfront : ∀ w ∈ front, w.Readable) (hi : i.Readable) {a : AuthorizationList}
    (ha : decode rigor (around front f i rest).octets = .ok a) :
    ∃ v, a.value f = some v ∧ f.kind.Form v i := by
  have hlenient := (decode_agrees _).lenient_of_ok (decode · _) ha
  obtain ⟨j, hj, hoctets, entries, -, hread, hholds, rfl⟩ := decode_eq_ok_iff.mp hlenient
  have hjoin : Item.join (entries.map Entry.wrapper) =
      Item.join front ++ ((Item.explicit f.tag i).octets ++ rest) :=
    (Item.ofType_injective (Item.octets_injective h hj hoctets)).symm
  have hwrappers : ∀ w ∈ entries.map Entry.wrapper, w.Readable :=
    List.forall_mem_map.mpr fun e he => (hread e he).1
  obtain ⟨back, hback, hrest⟩ := Item.exists_of_join_eq hwrappers hfront hjoin
  have hmem : Item.explicit f.tag i ∈ entries.map Entry.wrapper := by
    -- Behind the wrappers in front there is one more, since its octets are not empty.
    cases back with
    | nil => exact absurd (List.append_eq_nil_iff.mp hrest.symm).1 (Item.octets_ne_nil _)
    | cons w back =>
      rw [hback] at hwrappers ⊢
      have hw : w.Readable := hwrappers w (List.mem_append_right _ (List.mem_cons_self ..))
      obtain ⟨rfl, -⟩ := Item.octets_append_inj hw (readable_explicit_of_around h) hrest
      exact List.mem_append_right _ (List.mem_cons_self ..)
  obtain ⟨e, he, hwrapper⟩ := List.mem_map.mp hmem
  obtain ⟨hnumber, hinner⟩ := Item.explicit_injective (hread e he).2 hi hwrapper
  obtain rfl : e = ⟨f.tag, i⟩ := congrArg₂ Entry.mk hnumber hinner
  exact hholds.value_of_mem f i he

/-- A list is refused for its one bad wrapper, if those in front of it are read and have other
tags. -/
lemma decode_around_of_refused (h : (around front f i rest).Readable)
    (hfront : ∀ w ∈ front, w.Readable) (hi : i.Readable) (hnew : ∀ w ∈ front, w.tag.number ≠ f.tag)
    {a : AuthorizationList} (ha : decode rigor (Item.sequence front).octets = .ok a) {fault : Fault}
    (hrefused :
      f.kind.ofElement rigor f (i.placed (innerPlace front f i rest)) = .error fault) :
    decode rigor (around front f i rest).octets = .error fault := by
  have hsequence : (Item.sequence front).Readable := by
    refine ⟨Item.number_lt_of_ofType _ _, lt_of_le_of_lt ?_ h.length_lt⟩
    exact (List.prefix_append (Item.join front) _).length_le
  have hregion : ((Item.sequence front).placed 0).toSequence =
      .ok ⟨(Item.sequence front).header.length, Item.join front, 0⟩ :=
    Element.toSequence_eq_ok_iff.mpr ⟨_, rfl, by rw [Nat.zero_add]⟩
  rw [decode_octets hsequence, hregion, ok_bind] at ha
  obtain ⟨p, hp, -⟩ := bind_eq_ok_iff.mp ha
  rw [Cursor.foldlM_walk_join hfront] at hp
  -- The same run, at the place where these wrappers stand in the longer list.
  have hrun := (Elsewhere.foldlM_layout (fun s => Moves.addWrapper s rigor) hfront _
    (around front f i rest).header.length _).ok_of_ok hp
  have hunseen : ¬ p.seen.contains f.tag = true := by
    intro hseen
    rcases mem_seen_of_foldlM hrun (List.contains_iff_mem.mp hseen) with hstart | ⟨w, hw, hnumber⟩
    · cases hstart
    · exact hnew w hw hnumber
  rw [decode_around h hfront, hrun, ok_bind, addWrapper_explicit hi, if_neg hunseen]
  unfold innerPlace at hrefused
  rw [hrefused]
  rfl

end Around

end AuthorizationList

/-! ### Authenticators in both forms -/

namespace Authenticators

open AuthorizationList

/-- The item of a set of numbers. -/
def setItem (codes : List ℤ) : Item := .set (codes.map Item.integer)

/-- The item of the mask of some numbers. -/
def maskItem (codes : List ℤ) : Item := .integer (mask codes)

/-- A set of numbers is read as the number that is their mask. -/
structure ReadsAsMask (codes : List ℤ) : Prop where
  /-- At the same place both items are read alike, with the same fault at the same place. -/
  element : (setItem codes).Readable → ∀ (rigor : Rigor) (o : ℕ),
    Kind.authenticators.ofElement rigor .userAuthType ((setItem codes).placed o) =
      Kind.authenticators.ofElement rigor .userAuthType ((maskItem codes).placed o)
  /-- In the same list both items are read alike, apart from the places of what follows them. -/
  list : ∀ (rigor : Rigor) (front : List Item) (rest : Octets), (∀ w ∈ front, w.Readable) →
    (around front .userAuthType (setItem codes) rest).Readable →
    (around front .userAuthType (maskItem codes) rest).Readable →
    Elsewhere (decode rigor (around front .userAuthType (setItem codes) rest).octets)
      (decode rigor (around front .userAuthType (maskItem codes) rest).octets)
  /-- The value that is read is the set that the mask stands for. -/
  value : ∀ (rigor : Rigor) (front : List Item) (rest : Octets) (a : AuthorizationList),
    (∀ w ∈ front, w.Readable) → ∀ i ∈ [setItem codes, maskItem codes],
    (around front .userAuthType i rest).Readable →
    decode rigor (around front .userAuthType i rest).octets = .ok a →
    a.value .userAuthType = some (ofMask (mask codes))
  /-- Strict reading refuses a mask with a bit without a name in either form, at the start of the
  item in the wrapper. -/
  refused : IsUnknown (mask codes) →
    ∀ (front : List Item) (rest : Octets) (a : AuthorizationList), (∀ w ∈ front, w.Readable) →
    (∀ w ∈ front, w.tag.number ≠ Field.userAuthType.tag) →
    decode .strict (Item.sequence front).octets = .ok a → ∀ i ∈ [setItem codes, maskItem codes],
    (around front .userAuthType i rest).Readable →
    decode .strict (around front .userAuthType i rest).octets =
      .error (.unrecognised (.authenticatorBits (mask codes) (leftover (mask codes))
        (some Field.userAuthType.tag)) (some (innerPlace front .userAuthType i rest)))

/-- The set of the numbers is a form of their mask. -/
lemma form_setItem {codes : List ℤ} (hcodes : ∀ c ∈ codes, IsCode c) :
    Form (mask codes) (setItem codes) :=
  .inr ⟨codes, hcodes, rfl, rfl⟩

/-- The mask of numbers of 32 bits is a form of itself. -/
lemma form_maskItem {codes : List ℤ} (hcodes : ∀ c ∈ codes, IsCode c) :
    Form (mask codes) (maskItem codes) :=
  .inl ⟨mask_bounds hcodes, rfl⟩

/-- In either form the item is one of a mask, with a tag that can be read. -/
lemma form_of_mem {codes : List ℤ} (hcodes : ∀ c ∈ codes, IsCode c) {i : Item}
    (hi : i ∈ [setItem codes, maskItem codes]) :
    Form (mask codes) i ∧ i.tag.number < 2 ^ 28 := by
  rcases List.mem_cons.mp hi with rfl | hi
  · exact ⟨form_setItem hcodes, Item.number_lt_of_ofType _ _⟩
  · rw [List.mem_singleton.mp hi]
    exact ⟨form_maskItem hcodes, Item.number_lt_of_ofType _ _⟩

/-- Items that are forms of one mask are read alike, wherever they stand. -/
lemma elsewhere_ofElement {m : ℤ} {i i' : Item} (hi : i.Readable) (hi' : i'.Readable)
    (hform : Form m i) (hform' : Form m i') (rigor : Rigor) (f : Field) (o o' : ℕ) :
    Elsewhere (Kind.authenticators.ofElement rigor f (i.placed o))
      (Kind.authenticators.ofElement rigor f (i'.placed o')) := by
  rw [Kind.ofElement_authenticators hi hform, Kind.ofElement_authenticators hi' hform']
  exact elsewhere_recognise _ _ _ _ _

/-- The mask of numbers of 32 bits is short enough to be read. -/
lemma readable_maskItem {codes : List ℤ} (hcodes : ∀ c ∈ codes, IsCode c) :
    (maskItem codes).Readable := by
  have hlength := Kind.length_integer_le (mask_bounds hcodes)
  exact Item.readable_of_octets (Item.number_lt_of_ofType _ _) (hlength.trans_lt (by decide))

/-- Sets of numbers of 32 bits are read as their masks. -/
lemma readsAsMask {codes : List ℤ} (hcodes : ∀ c ∈ codes, IsCode c) : ReadsAsMask codes where
  element := by
    intro hset rigor o
    rw [Kind.ofElement_authenticators hset (form_setItem hcodes),
      Kind.ofElement_authenticators (readable_maskItem hcodes) (form_maskItem hcodes)]
  list := by
    intro rigor front rest hfront hset hmask
    have hi : (setItem codes).Readable := readable_of_around (Item.number_lt_of_ofType _ _) hset
    have hi' : (maskItem codes).Readable := readable_maskItem hcodes
    apply elsewhere_decode_around hset hmask hfront hi hi'
    exact elsewhere_ofElement hi hi' (form_setItem hcodes) (form_maskItem hcodes) rigor _
  value := by
    intro rigor front rest a hfront i hmem hread ha
    obtain ⟨hform, hnumber⟩ := form_of_mem hcodes hmem
    have hi := readable_of_around hnumber hread
    obtain ⟨v, hv, hformed⟩ := exists_form_of_decode_around hread hfront hi ha
    rw [hv]
    exact congrArg some (Kind.form_unique hi hformed ⟨_, rfl, hform⟩)
  refused := by
    intro hunknown front rest a hfront hnew ha i hmem hread
    obtain ⟨hform, hnumber⟩ := form_of_mem hcodes hmem
    have hi := readable_of_around hnumber hread
    apply decode_around_of_refused hread hfront hi hnew ha
    change Kind.authenticators.ofElement .strict .userAuthType _ = _
    rw [Kind.ofElement_authenticators hi hform, recognise_strict_of_isUnknown hunknown]
    rfl

/-- Masks and sets say the same.  The numbers of the set that a mask stands for have that mask
again, in any order.  The mask of any numbers is the number for any authenticator if that is among
them, and else their disjunction, as is what a loop ends with that stops at that number, and so
depends on which numbers they are only.  Strict reading refuses just the masks with a bit without a
name, and makes the same set of all others.  And in a list a set of numbers is read as its mask. -/
theorem masks_and_sets_agree :
    (∀ (m : ℤ) (listed : List (Slot .userAuthType)), listed.Perm (ofMask m).toList →
      mask (listed.map Slot.code) = m) ∧
    (∀ codes : List ℤ,
      mask codes = (if 2 ^ 32 - 1 ∈ codes then 2 ^ 32 - 1 else codes.foldl Int.lor 0) ∧
      fold 0 codes = mask codes) ∧
    (∀ codes codes' : List ℤ, (∀ c, c ∈ codes ↔ c ∈ codes') → mask codes = mask codes') ∧
    (∀ (m : ℤ) (tag offset : Option ℤ),
      recognise .lenient tag offset m = .ok (ofMask m) ∧
      (IsUnknown m → recognise .strict tag offset m =
        .error (.unrecognised (.authenticatorBits m (leftover m) tag) offset)) ∧
      (¬ IsUnknown m → recognise .strict tag offset m = .ok (ofMask m))) ∧
    ∀ codes : List ℤ, (∀ c ∈ codes, IsCode c) → ReadsAsMask codes := by
  refine ⟨fun m listed hperm => ?_, fun codes => ⟨?_, fold_eq codes 0⟩,
    fun codes codes' hmem => mask_eq_of_mem hmem, fun m tag offset => ?_,
    fun codes hcodes => readsAsMask hcodes⟩
  · have hcodes : (listed.map Slot.code).Perm (ofMask m).codes := hperm.map Slot.code
    calc mask (listed.map Slot.code) = mask (ofMask m).codes :=
          mask_eq_of_mem fun c => hcodes.mem_iff
      _ = m := mask_codes_ofMask m
  · have hlor : bitOr = Int.lor := funext₂ bitOr_eq_lor
    rw [mask, hlor]
    rfl
  · exact ⟨rfl, fun h => recognise_strict_of_isUnknown h tag offset,
      fun h => recognise_strict_of_not_isUnknown h tag offset⟩

/-- A wrapper that holds one purpose. -/
def purposeWrapper : Item := .explicit 1 (.set [.integer 2])

/-- Behind a purpose, the mask with a bit without a name is refused in both forms, at the same place
and with the same number. -/
theorem decode_unknownMask :
    decode .strict [48, 19, 161, 5, 49, 3, 2, 1, 2, 191, 131, 120, 8, 49, 6, 2, 1, 1, 2, 1, 8] =
        .error (.unrecognised (.authenticatorBits 9 8 (some 504)) (some 13)) ∧
      decode .strict [48, 14, 161, 5, 49, 3, 2, 1, 2, 191, 131, 120, 3, 2, 1, 9] =
        .error (.unrecognised (.authenticatorBits 9 8 (some 504)) (some 13)) := by
  have hcodes : ∀ c ∈ ([1, 8] : List ℤ), IsCode c := by decide
  have hunknown : IsUnknown (mask [1, 8]) := ⟨by decide, by decide, 3, by decide, by decide⟩
  have hfront : ∀ w ∈ [purposeWrapper], w.Readable :=
    List.forall_mem_singleton.mpr ⟨by decide +kernel, by decide +kernel⟩
  have hnew : ∀ w ∈ [purposeWrapper], w.tag.number ≠ Field.userAuthType.tag := by decide
  have hpurpose : (decode .strict (Item.sequence [purposeWrapper]).octets).toOption.isSome = true :=
    by decide +kernel
  obtain ⟨a, ha⟩ := Option.isSome_iff_exists.mp hpurpose
  obtain ⟨-, -, -, -, hreads⟩ := masks_and_sets_agree
  have hrefused := (hreads [1, 8] hcodes).refused hunknown [purposeWrapper] [] a hfront hnew
    (eq_ok_of_toOption ha)
  have hset := hrefused (setItem [1, 8]) (List.mem_cons_self ..)
    ⟨by decide +kernel, by decide +kernel⟩
  have hmask := hrefused (maskItem [1, 8]) (List.mem_cons_of_mem _ (List.mem_cons_self ..))
    ⟨by decide +kernel, by decide +kernel⟩
  have hplace : ∀ i ∈ [setItem [1, 8], maskItem [1, 8]],
      innerPlace [purposeWrapper] .userAuthType i [] = 13 := by decide +kernel
  rw [hplace _ (List.mem_cons_self ..)] at hset
  rw [hplace _ (List.mem_cons_of_mem _ (List.mem_cons_self ..))] at hmask
  have hsetOctets : (around [purposeWrapper] .userAuthType (setItem [1, 8]) []).octets =
      [48, 19, 161, 5, 49, 3, 2, 1, 2, 191, 131, 120, 8, 49, 6, 2, 1, 1, 2, 1, 8] := by
    decide +kernel
  have hmaskOctets : (around [purposeWrapper] .userAuthType (maskItem [1, 8]) []).octets =
      [48, 14, 161, 5, 49, 3, 2, 1, 2, 191, 131, 120, 3, 2, 1, 9] := by
    decide +kernel
  rw [hsetOctets] at hset
  rw [hmaskOctets] at hmask
  exact ⟨hset, hmask⟩

end Authenticators

end AttestedKey
