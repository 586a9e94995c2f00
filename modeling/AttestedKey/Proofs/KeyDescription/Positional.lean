import AttestedKey.Proofs.KeyDescription

/-!
# The eight parts of a record

A record can be read in two passes: the first counts the elements of the sequence, and the second
reads eight parts one after another, each where the one before ended, and does not ask what follows
the last one (`KeyDescription.decodeByPosition`).  Both passes cut the content at the same places,
so the second one stops at the very end of the input, and the two passes read what `decode` reads
(`decodeByPosition_eq`).  Every octet of an accepted input belongs to the header or to one of the
eight parts, in one way only, and the parts make up the record (`decode_ok_iff_parts`).
-/

namespace AttestedKey

open Der Outcome

namespace KeyDescription

/-! ### Two passes -/

/-- Reads the eight parts of a record one after another.  Both lists are checked to be sequences
before the first of them is read. -/
def readParts (rigor : Rigor) (c : Cursor) : Except Fault (KeyDescription × Cursor) := do
  let (attestationVersion, c) ← c.read (toVersion attestationVersionField)
  let (attestationLevel, c) ← c.read (toSecurityLevel rigor attestationSecurityLevelField)
  let (keymasterVersion, c) ← c.read (toVersion keymasterVersionField)
  let (keymasterLevel, c) ← c.read (toSecurityLevel rigor keymasterSecurityLevelField)
  let (challenge, c) ← c.read Element.toOctets
  let (uniqueId, c) ← c.read Element.toOctets
  let (software, c) ← c.read Element.toSequence
  let (tee, c) ← c.read Element.toSequence
  let software ← AuthorizationList.ofRegion rigor software
  let tee ← AuthorizationList.ofRegion rigor tee
  return (⟨attestationVersion, attestationLevel, keymasterVersion, keymasterLevel, challenge,
    uniqueId, software, tee⟩, c)

/-- Counts the elements of a record and then reads its parts, and says where it stopped. -/
def decodeByPosition (rigor : Rigor) (input : Octets) :
    Except Fault (KeyDescription × Cursor) := do
  let (sequence, after) ← (Cursor.start input).read (Element.ofType .sequence)
  if after.atEnd then
    let elements ← sequence.inside.walk.complete
    if elements.length = 8 then
      readParts rigor sequence.inside
    else
      malformedAt sequence.offset (.elementCount elements.length)
  else
    malformedAt after.offset (.trailingData structureName)

/-- The parts are read from the places where the walk over the elements has found them, and nothing
is left after the eighth. -/
lemma readParts_join (rigor : Rigor) {i₁ i₂ i₃ i₄ i₅ i₆ i₇ i₈ : Item}
    (h : ∀ i ∈ [i₁, i₂, i₃, i₄, i₅, i₆, i₇, i₈], i.Readable) {o stop : ℕ}
    {e₁ e₂ e₃ e₄ e₅ e₆ e₇ e₈ : Element}
    (hlayout : Item.layout o [i₁, i₂, i₃, i₄, i₅, i₆, i₇, i₈] = [e₁, e₂, e₃, e₄, e₅, e₆, e₇, e₈])
    (hstop : o + (Item.join [i₁, i₂, i₃, i₄, i₅, i₆, i₇, i₈]).length = stop) :
    readParts rigor ⟨o, Item.join [i₁, i₂, i₃, i₄, i₅, i₆, i₇, i₈], 0⟩ =
      ofElements rigor e₁ e₂ e₃ e₄ e₅ e₆ e₇ e₈ >>= fun k => .ok (k, ⟨stop, [], 0⟩) := by
  simp only [List.forall_mem_cons] at h
  obtain ⟨h₁, h₂, h₃, h₄, h₅, h₆, h₇, h₈, -⟩ := h
  simp only [Item.layout_cons, Item.layout_nil, List.cons.injEq, and_true] at hlayout
  obtain ⟨rfl, rfl, rfl, rfl, rfl, rfl, rfl, rfl⟩ := hlayout
  simp only [Item.join_cons, Item.join_nil, List.length_append, List.length_nil] at hstop
  unfold readParts ofElements
  simp only [Item.join_cons, Cursor.read_octets_bind h₁, Cursor.read_octets_bind h₂,
    Cursor.read_octets_bind h₃, Cursor.read_octets_bind h₄, Cursor.read_octets_bind h₅,
    Cursor.read_octets_bind h₆, Cursor.read_octets_bind h₇, Cursor.read_octets_bind h₈, bind_assoc,
    Item.join_nil, pure_eq_ok, ok_bind]
  rw [← hstop]
  simp only [Nat.add_assoc, Nat.add_zero]

/-- Counting the elements tells whether there are eight of them, which are then the parts. -/
lemma readParts_of_count (rigor : Rigor) {items : List Item} (h : ∀ i ∈ items, i.Readable)
    (o place : ℕ) :
    (if (Item.layout o items).length = 8 then readParts rigor ⟨o, Item.join items, 0⟩
      else malformedAt place (.elementCount (Item.layout o items).length)) =
      (match Item.layout o items with
        | [e₁, e₂, e₃, e₄, e₅, e₆, e₇, e₈] => ofElements rigor e₁ e₂ e₃ e₄ e₅ e₆ e₇ e₈
        | elements => malformedAt place (.elementCount elements.length)) >>= fun k =>
          .ok (k, ⟨o + (Item.join items).length, [], 0⟩) := by
  by_cases hcount : items.length = 8
  · obtain ⟨i₁, i₂, i₃, i₄, i₅, i₆, i₇, i₈, rfl⟩ := exists_of_length_eight hcount
    exact readParts_join rigor h rfl rfl
  · have hlength : (Item.layout o items).length ≠ 8 := by rwa [Item.length_layout]
    rw [if_neg hlength]
    split
    next heq => exact absurd (congrArg List.length heq) hlength
    · rfl

/-- In two passes the same record is read, or the same fault is found, and the second pass stops at
the end of the input. -/
theorem decodeByPosition_eq (rigor : Rigor) (input : Octets) :
    decodeByPosition rigor input =
      decode rigor input >>= fun k => .ok (k, ⟨input.length, [], 0⟩) := by
  unfold decodeByPosition decode
  rw [bind_assoc]
  cases hread : (Cursor.start input).read (Element.ofType .sequence) with
  | error fault => rfl
  | ok read =>
    obtain ⟨sequence, after⟩ := read
    obtain ⟨i, hi, hadv, hsequence⟩ := (Cursor.read_eq_ok_iff rfl).mp hread
    obtain ⟨-, rfl⟩ := Element.ofType_eq_ok_iff.mp hsequence
    simp only [ok_bind]
    split
    next hend =>
      have hnil : after.bytes = [] := (Cursor.atEnd_iff_bytes hadv.missing).mp hend
      have hbytes : input = i.octets ++ after.bytes := hadv.bytes
      have hlength : input.length = 0 + i.header.length + i.content.length := by
        rw [hbytes, hnil, List.append_nil, Item.length_octets, Nat.zero_add]
      have hstart : (Cursor.start input).offset = 0 := rfl
      rw [bind_assoc, hstart, Item.inside_placed]
      cases helements : (⟨0 + i.header.length, i.content, 0⟩ : Cursor).walk.complete with
      | error fault => rfl
      | ok elements =>
        obtain ⟨items, hitems, hcontent, rfl⟩ := (Cursor.complete_walk_eq_ok_iff rfl).mp helements
        have hcontent : i.content = Item.join items := hcontent
        rw [hlength, hcontent, ok_bind, ok_bind]
        exact readParts_of_count rigor hitems (0 + i.header.length) 0
    · rfl

/-! ### The parts and the record -/

/-- What stands in the eight elements of a record: four numbers, two contents, and the octets of two
lists. -/
structure Parts where
  /-- The number in the first element. -/
  attestationVersion : ℕ
  /-- The number in the second element. -/
  attestationLevel : ℕ
  /-- The number in the third element. -/
  keymasterVersion : ℕ
  /-- The number in the fourth element. -/
  keymasterLevel : ℕ
  /-- The content of the fifth element. -/
  challenge : Octets
  /-- The content of the sixth element. -/
  uniqueId : Octets
  /-- The seventh element. -/
  software : Octets
  /-- The eighth element. -/
  tee : Octets

namespace Parts

/-- The octets of the eight elements, in their order. -/
def octets (p : Parts) : List Octets :=
  [encodeInteger p.attestationVersion, encodeEnumerated p.attestationLevel,
    encodeInteger p.keymasterVersion, encodeEnumerated p.keymasterLevel, encodeOctets p.challenge,
    encodeOctets p.uniqueId, p.software, p.tee]

/-- The parts are the content of one sequence, which is the whole input. -/
structure Fill (p : Parts) (input : Octets) : Prop where
  /-- The input is the sequence of the parts. -/
  input_eq : input = encodeSequence p.octets
  /-- The length of the content has at most four digits. -/
  length_lt : p.octets.flatten.length < 2 ^ 32

/-- The values of the parts are the fields of a record, in their order, where each of the last two
parts is read as a list of its own. -/
structure MakeUp (p : Parts) (k : KeyDescription) : Prop where
  /-- The first number is the version of the attestation. -/
  attestationVersion : k.attestationVersion = p.attestationVersion
  /-- The second number is where the attestation was made. -/
  attestationSecurityLevel : k.attestationSecurityLevel = .ofCode _ p.attestationLevel
  /-- The third number is the version of the keystore. -/
  keymasterVersion : k.keymasterVersion = p.keymasterVersion
  /-- The fourth number is where the keystore runs. -/
  keymasterSecurityLevel : k.keymasterSecurityLevel = .ofCode _ p.keymasterLevel
  /-- The first content is the challenge. -/
  attestationChallenge : k.attestationChallenge = p.challenge
  /-- The second content is the identifier. -/
  uniqueId : k.uniqueId = p.uniqueId
  /-- The first list is what software enforces. -/
  softwareEnforced : AuthorizationList.decode .lenient p.software = .ok k.softwareEnforced
  /-- The second list is what the secure environment enforces. -/
  teeEnforced : AuthorizationList.decode .lenient p.tee = .ok k.teeEnforced

/-- The parts with the numbers and contents of a record and given lists. -/
def ofRecord (k : KeyDescription) (software tee : Octets) : Parts :=
  ⟨k.attestationVersion.toNat, k.attestationSecurityLevel.code.toNat, k.keymasterVersion.toNat,
    k.keymasterSecurityLevel.code.toNat, k.attestationChallenge, k.uniqueId, software, tee⟩

/-- The parts of a record are the octets of its items. -/
lemma octets_ofRecord {k : KeyDescription} (h : k.IsNatural) (software tee : Item) :
    (ofRecord k software.octets tee.octets).octets =
      (k.itemsWith software tee).map Item.octets := by
  obtain ⟨h₁, h₂, h₃, h₄⟩ := h
  simp only [octets, ofRecord, Int.toNat_of_nonneg h₁, Int.toNat_of_nonneg h₂,
    Int.toNat_of_nonneg h₃, Int.toNat_of_nonneg h₄]
  rfl

/-- Parts that make up a record have its numbers and contents. -/
lemma MakeUp.eq_ofRecord {p : Parts} {k : KeyDescription} (h : p.MakeUp k) :
    k.IsNatural ∧ p = ofRecord k p.software p.tee := by
  obtain ⟨v₁, v₂, v₃, v₄, challenge, uniqueId, software, tee⟩ := p
  obtain ⟨h₁, h₂, h₃, h₄, h₅, h₆, -, -⟩ := h
  simp only [IsNatural, ofRecord, h₁, h₂, h₃, h₄, h₅, h₆, Slot.code_ofCode, Int.toNat_natCast]
  exact ⟨⟨by omega, by omega, by omega, by omega⟩, trivial⟩

/-- Parts that fill an input and make up a record are those of one of its wire forms. -/
lemma MakeUp.exists_form {p : Parts} {k : KeyDescription} {input : Octets} (h : p.MakeUp k)
    (hfill : p.Fill input) :
    ∃ software tee : Item, k.softwareEnforced.Form software ∧ k.teeEnforced.Form tee ∧
      (Item.sequence (k.itemsWith software tee)).Readable ∧
        input = (Item.sequence (k.itemsWith software tee)).octets ∧
          p = ofRecord k software.octets tee.octets := by
  obtain ⟨hnatural, hp⟩ := h.eq_ofRecord
  obtain ⟨software, -, hsoftware, hform₇⟩ :=
    AuthorizationList.decode_eq_ok_iff.mp h.softwareEnforced
  obtain ⟨tee, -, htee, hform₈⟩ := AuthorizationList.decode_eq_ok_iff.mp h.teeEnforced
  rw [hsoftware, htee] at hp
  have hoctets : p.octets = (k.itemsWith software tee).map Item.octets := by
    rw [hp, octets_ofRecord hnatural]
  have hlength := hfill.length_lt
  have hinput := hfill.input_eq
  rw [hoctets] at hlength
  rw [hoctets, Item.encodeSequence_eq] at hinput
  exact ⟨software, tee, hform₇, hform₈, ⟨Item.number_lt_of_ofType _ _, hlength⟩, hinput, hp⟩

/-- An input is cut into the parts of a record in one way only. -/
lemma MakeUp.unique {p q : Parts} {k : KeyDescription} {input : Octets} (hp : p.MakeUp k)
    (hpfill : p.Fill input) (hq : q.MakeUp k) (hqfill : q.Fill input) : p = q := by
  obtain ⟨software, tee, h₇, h₈, hread, hinput, rfl⟩ := hp.exists_form hpfill
  obtain ⟨software', tee', h₇', h₈', hread', hinput', rfl⟩ := hq.exists_form hqfill
  have hsequence := Item.octets_injective hread hread' (hinput.symm.trans hinput')
  have hitems : k.itemsWith software tee = k.itemsWith software' tee' :=
    Item.join_injective
      (readable_of_itemsWith hread (number_lt_of_form h₇) (number_lt_of_form h₈))
      (readable_of_itemsWith hread' (number_lt_of_form h₇') (number_lt_of_form h₈'))
      (Item.ofType_injective hsequence)
  simp only [itemsWith, List.cons.injEq, true_and, and_true] at hitems
  rw [hitems.1, hitems.2]

/-- A wire form of a record is cut into parts that make up the record. -/
lemma exists_of_form {k : KeyDescription} {i : Item} (hi : i.Readable) (h : k.Form i) :
    ∃ p : Parts, p.Fill i.octets ∧ p.MakeUp k := by
  obtain ⟨hnatural, software, tee, h₇, h₈, rfl⟩ := h
  obtain ⟨hn₁, hn₂, hn₃, hn₄⟩ := hnatural
  have hread := readable_of_itemsWith hi (number_lt_of_form h₇) (number_lt_of_form h₈)
  have hsoftware : software.Readable := hread software (by simp [itemsWith])
  have htee : tee.Readable := hread tee (by simp [itemsWith])
  have hoctets := octets_ofRecord ⟨hn₁, hn₂, hn₃, hn₄⟩ software tee
  refine ⟨ofRecord k software.octets tee.octets, ⟨?_, ?_⟩, ?_⟩
  · rw [hoctets, Item.encodeSequence_eq]
  · rw [hoctets]
    exact hi.length_lt
  · refine ⟨(Int.toNat_of_nonneg hn₁).symm, ?_, (Int.toNat_of_nonneg hn₃).symm, ?_, rfl, rfl,
      ?_, ?_⟩
    · rw [ofRecord, Int.toNat_of_nonneg hn₂, Slot.ofCode_code]
    · rw [ofRecord, Int.toNat_of_nonneg hn₄, Slot.ofCode_code]
    · exact AuthorizationList.decode_eq_ok_iff.mpr ⟨software, hsoftware, rfl, h₇⟩
    · exact AuthorizationList.decode_eq_ok_iff.mpr ⟨tee, htee, rfl, h₈⟩

end Parts

/-- An input holds a record exactly if it is one sequence of eight parts that make up the record,
and nothing else; it is then cut into them in one way.  A reader that has counted the elements and
reads the parts by position stops at the end of the input. -/
theorem decode_ok_iff_parts (input : Octets) :
    (∀ k, decode .lenient input = .ok k ↔ ∃! p : Parts, p.Fill input ∧ p.MakeUp k) ∧
      ∀ rigor, decodeByPosition rigor input =
        decode rigor input >>= fun k => .ok (k, ⟨input.length, [], 0⟩) := by
  refine ⟨fun k => ⟨fun h => ?_, ?_⟩, fun rigor => decodeByPosition_eq rigor input⟩
  · obtain ⟨i, hi, rfl, hform⟩ := decode_eq_ok_iff.mp h
    obtain ⟨p, hfill, hmake⟩ := Parts.exists_of_form hi hform
    exact ⟨p, ⟨hfill, hmake⟩, fun q hq => hq.2.unique hq.1 hmake hfill⟩
  · rintro ⟨p, ⟨hfill, hmake⟩, -⟩
    obtain ⟨software, tee, h₇, h₈, hread, rfl, -⟩ := hmake.exists_form hfill
    obtain ⟨hnatural, -⟩ := hmake.eq_ofRecord
    exact decode_eq_ok_iff.mpr ⟨_, hread, rfl, hnatural, software, tee, h₇, h₈, rfl⟩

end KeyDescription

end AttestedKey
