import AttestedKey.Proofs.Der.Header

/-!
# Headers tell where they end

No identifier is the beginning of another one, however large its number is, and so it can be told
apart from the octets behind it (`Tag.encode_append_inj`).  The same holds of the lengths whose
digits are counted by the first octet (`Length.encode_append_inj`).  It has seven bits for that,
which is enough for any string that a machine can hold: the first length with more digits is
`256 ^ 127`.
-/

namespace AttestedKey.Der

namespace Tag

/-- The digits of a number tell where they end. -/
lemma marked_digits_append_inj {m n : ℕ} (hm : digits m ≠ []) (hn : digits n ≠ []) {a b : Octets}
    (h : marked (digits m) ++ a = marked (digits n) ++ b) : m = n ∧ a = b := by
  -- With a limit that is large enough for it, each number is read from its digits.
  have hread (k limit : ℕ) (rest : Octets) (hk : digits k ≠ [])
      (hlimit : (digits k).length ≤ limit) :
      readDigits 0 limit 0 ⟨0, marked (digits k) ++ rest, 0⟩ =
        .ok (k, ⟨0 + (marked (digits k)).length, rest, 0⟩) := by
    rw [readDigits_of_advances hk (fun _ => digits_lt) hlimit (Cursor.Advances.ofAppend ..),
      digitsValue_digits]
  have hfirst := hread m _ a hm (le_max_left _ (digits n).length)
  have hsecond := hread n _ b hn (le_max_right (digits m).length _)
  rw [h, hsecond] at hfirst
  obtain ⟨hnumber, hafter⟩ := Prod.mk.inj (Except.ok.inj hfirst)
  exact ⟨hnumber.symm, (congrArg Cursor.bytes hafter).symm⟩

/-- An identifier consists of a first octet and of the digits of a number that does not fit into
it. -/
lemma exists_encode_eq (t : Tag) : ∃ low more, low < 32 ∧
    t.encode = UInt8.ofNat
      (t.tagClass.code * 64 + (if t.constructed then 32 else 0) + low) :: more ∧
    (t.number < 31 ∧ low = t.number ∧ more = [] ∨
      31 ≤ t.number ∧ low = 31 ∧ more = marked (digits t.number)) := by
  unfold encode
  by_cases hshort : t.number < 31
  · refine ⟨t.number, [], by omega, ?_, .inl ⟨hshort, rfl, rfl⟩⟩
    rw [if_pos hshort]
  · refine ⟨31, marked (digits t.number), by omega, ?_, .inr ⟨not_lt.mp hshort, rfl, rfl⟩⟩
    rw [if_neg hshort]

/-- An identifier tells where it ends. -/
theorem encode_append_inj {s t : Tag} {a b : Octets} (h : s.encode ++ a = t.encode ++ b) :
    s = t ∧ a = b := by
  obtain ⟨low, more, hlow, hs, hmore⟩ := s.exists_encode_eq
  obtain ⟨low', more', hlow', ht, hmore'⟩ := t.exists_encode_eq
  rw [hs, ht, List.cons_append, List.cons_append] at h
  obtain ⟨hfirst, hrest⟩ := List.cons.inj h
  obtain ⟨hbits, hclass, hform⟩ := s.first_parts low hlow
  obtain ⟨hbits', hclass', hform'⟩ := t.first_parts low' hlow'
  rw [hfirst] at hbits hclass hform
  have hsame : low = low' := hbits.symm.trans hbits'
  have hnumber : s.number = t.number ∧ a = b := by
    rcases hmore with ⟨hshort, rfl, rfl⟩ | ⟨hlong, rfl, rfl⟩
    · rcases hmore' with ⟨-, rfl, rfl⟩ | ⟨-, rfl, -⟩
      · exact ⟨hsame, hrest⟩
      · omega
    · rcases hmore' with ⟨hshort', rfl, -⟩ | ⟨hlong', -, rfl⟩
      · omega
      · exact marked_digits_append_inj (digits_ne_nil (by omega)) (digits_ne_nil (by omega)) hrest
  refine ⟨?_, hnumber.2⟩
  cases s
  cases t
  rw [Tag.mk.injEq]
  exact ⟨hclass.symm.trans hclass', hform.symm.trans hform', hnumber.1⟩

end Tag

namespace Length

/-- A length consists of a first octet and of the digits that this octet counts. -/
lemma exists_encode_eq {n : ℕ} (hn : (Octets.ofNat n).length < 128) : ∃ first more, first < 256 ∧
    encode n = UInt8.ofNat first :: more ∧
    (first = n ∧ first < 128 ∧ more = [] ∨ first = 128 + more.length ∧ more = Octets.ofNat n) := by
  unfold encode
  by_cases hshort : n < 128
  · refine ⟨n, [], by omega, ?_, .inl ⟨rfl, hshort, rfl⟩⟩
    rw [if_pos hshort]
  · refine ⟨128 + (Octets.ofNat n).length, Octets.ofNat n, by omega, ?_, .inr ⟨rfl, rfl⟩⟩
    rw [if_neg hshort]
    simp only [Nat.mod_eq_of_lt hn]

/-- A length tells where it ends. -/
theorem encode_append_inj {m n : ℕ} (hm : (Octets.ofNat m).length < 128)
    (hn : (Octets.ofNat n).length < 128) {a b : Octets} (h : encode m ++ a = encode n ++ b) :
    m = n ∧ a = b := by
  obtain ⟨first, more, hlt, hfirst, hmore⟩ := exists_encode_eq hm
  obtain ⟨first', more', hlt', hfirst', hmore'⟩ := exists_encode_eq hn
  rw [hfirst, hfirst', List.cons_append, List.cons_append] at h
  obtain ⟨hoctet, hrest⟩ := List.cons.inj h
  have hsame : first = first' := by
    rw [← Tag.toNat_ofNat_of_lt hlt, hoctet, Tag.toNat_ofNat_of_lt hlt']
  rcases hmore with ⟨rfl, hlow, rfl⟩ | ⟨rfl, hdigits⟩
  · rcases hmore' with ⟨rfl, -, rfl⟩ | ⟨rfl, -⟩
    · exact ⟨hsame, hrest⟩
    · omega
  · rcases hmore' with ⟨rfl, hlow', -⟩ | ⟨rfl, hdigits'⟩
    · omega
    · obtain ⟨hmore, hrest⟩ := List.append_inj hrest (by omega)
      rw [hdigits, hdigits'] at hmore
      exact ⟨by rw [← Octets.toNat_ofNat m, hmore, Octets.toNat_ofNat], hrest⟩

end Length

end AttestedKey.Der
