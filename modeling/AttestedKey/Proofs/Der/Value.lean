import AttestedKey.Proofs.Der.Item

/-!
# The items of the universal types

`Item.integer`, `Item.octetString`, `Item.sequence` and their like are the items that the writers
produce.  Each interpreter of an element accepts exactly the items of its type, and of each value
exactly one: `toNumber_eq_ok_iff`, `toOctets_eq_ok_iff` and so on.  Only a BOOLEAN has several
items for one value, namely one for each octet but zero that stands for true.

The members of a set are written in ascending order of their octets, whatever order they are given
in (`encodeSet_eq_of_perm`).  `Item.sort` puts items into that order, and `Item.Ascending` says that
they stand in it.
-/

namespace AttestedKey.Der

open Outcome

/-! ### Sorted parts -/

/-- Sorted parts stand in ascending order. -/
lemma sortedParts_ascending (parts : List Octets) :
    (sortedParts parts).Pairwise fun a b => (compare a b).isLE = true := by
  refine List.pairwise_mergeSort (fun a b c => ?_) (fun a b => ?_) parts
  · exact Std.TransOrd.isLE_trans (a := a) (b := b) (c := c)
  rw [Bool.or_eq_true]
  by_cases hab : (compare a b).isLE = true
  · exact .inl hab
  · exact .inr (Ordering.isLE_of_eq_lt (Std.OrientedCmp.lt_of_not_isLE hab))

/-- Sorting parts forgets the order in which they were given. -/
lemma encodeSet_eq_of_perm {parts parts' : List Octets} (h : parts.Perm parts') :
    encodeSet parts = encodeSet parts' := by
  have hperm : (sortedParts parts).Perm (sortedParts parts') :=
    (sortedParts_perm parts).trans (h.trans (sortedParts_perm parts').symm)
  have heq : sortedParts parts = sortedParts parts' := by
    refine hperm.eq_of_pairwise (fun a b _ _ hab hba => ?_) (sortedParts_ascending parts)
      (sortedParts_ascending parts')
    exact Std.LawfulEqOrd.eq_of_compare (Std.OrientedCmp.isLE_antisymm hab hba)
  rw [encodeSet, encodeSet, heq]

/-! ### The items -/

namespace Item

/-- The item of a universal type with a given content. -/
def ofType (type : Universal) (content : Octets) : Item := ⟨type.tag, content⟩

/-- The item of a number of the given type. -/
def number (type : Universal) (n : ℤ) : Item := ofType type (Octets.ofInt n)

/-- The item of an INTEGER. -/
def integer (n : ℤ) : Item := number .integer n

/-- The item of an ENUMERATED. -/
def enumerated (n : ℤ) : Item := number .enumerated n

/-- The item of an OCTET STRING. -/
def octetString (content : Octets) : Item := ofType .octetString content

/-- An item of a BOOLEAN. -/
def boolean (octet : UInt8) : Item := ofType .boolean [octet]

/-- The item of a NULL. -/
def null : Item := ofType .null []

/-- The item of a SEQUENCE of some items. -/
def sequence (items : List Item) : Item := ofType .sequence (join items)

/-- The item of a SET of some items, in the given order. -/
def set (items : List Item) : Item := ofType .set (join items)

/-- An explicit wrapper around an item. -/
def explicit (number : ℕ) (inner : Item) : Item := ⟨.explicit number, inner.octets⟩

/-- The tag of an item of a universal type is the one of the type. -/
@[simp] lemma tag_ofType (type : Universal) (content : Octets) :
    (ofType type content).tag = type.tag := rfl

/-- The content of such an item is the given one. -/
@[simp] lemma content_ofType (type : Universal) (content : Octets) :
    (ofType type content).content = content := rfl

/-- A reader can read the tag of every universal type. -/
lemma number_lt_of_ofType (type : Universal) (content : Octets) :
    (ofType type content).tag.number < 2 ^ 28 := by
  rw [tag_ofType]
  cases type <;> decide

/-- An item with the tag of a universal type is one of that type. -/
lemma eq_ofType_of_tag {i : Item} {type : Universal} (h : i.tag = type.tag) :
    i = ofType type i.content := by
  cases i
  cases h
  rfl

/-- Items of one universal type differ in their contents only. -/
lemma ofType_injective {type : Universal} {a b : Octets} (h : ofType type a = ofType type b) :
    a = b := (Item.mk.inj h).2

/-- The item of some octets tells which octets they are. -/
lemma octetString_injective {a b : Octets} (h : octetString a = octetString b) : a = b :=
  ofType_injective h

/-- A wrapper tells its number and what it holds, if that can be read. -/
lemma explicit_injective {m n : ℕ} {i j : Item} (hi : i.Readable) (hj : j.Readable)
    (h : explicit m i = explicit n j) : m = n ∧ i = j := by
  obtain ⟨htag, hcontent⟩ := Item.mk.inj h
  exact ⟨congrArg Tag.number htag, octets_injective hi hj hcontent⟩

/-! ### What the writers produce -/

/-- Octets are written as an OCTET STRING. -/
lemma encodeOctets_eq (a : Octets) : encodeOctets a = (octetString a).octets := rfl

/-- A null is written as the one item without content. -/
lemma encodeNull_eq : encodeNull = null.octets := rfl

/-- Written elements are written as a sequence of the items. -/
lemma encodeSequence_eq (items : List Item) :
    encodeSequence (items.map octets) = (sequence items).octets := rfl

/-! ### Ascending order -/

/-- One item does not stand behind another in the order of their octets. -/
def le (i j : Item) : Bool := (compare i.octets j.octets).isLE

/-- The items stand in ascending order of their octets. -/
def Ascending (items : List Item) : Prop := items.Pairwise fun i j => le i j = true

instance : DecidablePred Ascending := fun items =>
  inferInstanceAs (Decidable (items.Pairwise fun i j => le i j = true))

/-- The items in ascending order of their octets. -/
def sort (items : List Item) : List Item := items.mergeSort le

/-- Sorting some items loses and adds none. -/
lemma sort_perm (items : List Item) : (sort items).Perm items := List.mergeSort_perm ..

/-- The sorted items are the same ones. -/
lemma mem_sort {i : Item} {items : List Item} : i ∈ sort items ↔ i ∈ items :=
  (sort_perm items).mem_iff

/-- The octets of the sorted items are the sorted octets of the items. -/
lemma map_octets_sort (items : List Item) :
    (sort items).map octets = sortedParts (items.map octets) :=
  List.map_mergeSort fun _ _ _ _ => rfl

/-- The sorted items stand in ascending order. -/
lemma sort_ascending (items : List Item) : Ascending (sort items) := by
  have hparts := sortedParts_ascending (items.map octets)
  rw [← map_octets_sort, List.pairwise_map] at hparts
  exact hparts

/-- Items stand in ascending order if consecutive ones do. -/
lemma ascending_iff_isChain {items : List Item} :
    Ascending items ↔ items.IsChain fun i j => le i j = true := by
  have : Trans (fun i j : Item => le i j = true) (fun i j => le i j = true)
      (fun i j => le i j = true) := ⟨fun hij hjk => Std.TransOrd.isLE_trans hij hjk⟩
  exact List.isChain_iff_pairwise.symm

/-- Items have one ascending order. -/
lemma eq_of_perm_of_ascending {items items' : List Item} (h : ∀ i ∈ items, i.Counted)
    (hperm : items.Perm items') (ha : Ascending items) (ha' : Ascending items') :
    items = items' := by
  refine hperm.eq_of_pairwise (fun i j hi hj hij hji => ?_) ha ha'
  apply (h i hi).octets_injective (h j (hperm.mem_iff.mpr hj))
  exact Std.LawfulEqOrd.eq_of_compare (Std.OrientedCmp.isLE_antisymm hij hji)

/-- Sorting the items of some values lists the values in another order. -/
lemma exists_perm_sort_map {α : Type} (f : α → Item) (l : List α) :
    ∃ l' : List α, l'.Perm l ∧ sort (l.map f) = l'.map f := by
  have hmap : (l.mergeSort fun a b => le (f a) (f b)).map f = (l.map f).mergeSort le :=
    List.map_mergeSort fun _ _ _ _ => rfl
  exact ⟨_, List.mergeSort_perm .., hmap.symm⟩

/-- Sorting gives some items in their own order exactly if that order is ascending. -/
lemma sort_eq_iff {items items' : List Item} (h : ∀ i ∈ items', i.Counted)
    (hperm : items.Perm items') : sort items = items' ↔ Ascending items' := by
  constructor
  · rintro rfl
    exact sort_ascending items
  · intro ha
    have hperm' : (sort items).Perm items' := (sort_perm items).trans hperm
    exact eq_of_perm_of_ascending (fun i hi => h i (hperm'.mem_iff.mp hi)) hperm'
      (sort_ascending items) ha

/-- Written elements are written as a set of the items in order. -/
lemma encodeSet_eq (items : List Item) :
    encodeSet (items.map octets) = (set (sort items)).octets := by
  rw [encodeSet, ← map_octets_sort]
  rfl

/-- The order of the items does not change the length of their octets. -/
lemma length_join_of_perm {items items' : List Item} (h : items.Perm items') :
    (join items).length = (join items').length := by
  rw [join, join, List.length_flatten, List.length_flatten]
  exact ((h.map octets).map List.length).sum_eq

end Item

/-! ### What the interpreters accept -/

namespace Element

variable {i : Item} {o : ℕ}

/-- An item has a required type if it has the tag of that type. -/
lemma ofType_placed_eq_ok_iff {type : Universal} {e : Element} :
    (i.placed o).ofType type = .ok e ↔ i.tag = type.tag ∧ e = i.placed o :=
  ofType_eq_ok_iff

/-- A number is read from its one item. -/
theorem toNumber_eq_ok_iff {type : Universal} {n : ℤ} :
    (i.placed o).toNumber type = .ok n ↔ i = Item.number type n := by
  unfold toNumber
  constructor
  · intro h
    obtain ⟨e, he, h⟩ := bind_eq_ok_iff.mp h
    obtain ⟨htag, rfl⟩ := ofType_placed_eq_ok_iff.mp he
    rw [Item.content_placed] at h
    split at h
    · cases h
    next hne =>
      split at h
      · cases h
      next hpad =>
        have hvalue : Octets.toInt i.content = n := Except.ok.inj h
        rw [List.isEmpty_iff] at hne
        rw [Bool.not_eq_true] at hpad
        rw [Item.eq_ofType_of_tag htag, ← Octets.ofInt_toInt hne hpad, hvalue]
        rfl
  · rintro rfl
    have hne : ¬ (Octets.ofInt n).isEmpty = true := by
      rw [List.isEmpty_iff]
      exact Octets.ofInt_ne_nil n
    have hpad : ¬ isPadded (Octets.ofInt n) = true := by
      rw [Octets.isPadded_ofInt]
      decide
    rw [ofType_placed_eq_ok_iff.mpr ⟨rfl, rfl⟩, ok_bind]
    change (if (Octets.ofInt n).isEmpty = true then _ else
      if isPadded (Octets.ofInt n) = true then _ else
        Except.ok (Octets.toInt (Octets.ofInt n))) = _
    rw [if_neg hne, if_neg hpad, Octets.toInt_ofInt]

/-- An INTEGER is read from the one item that it is written as. -/
lemma toInteger_eq_ok_iff {n : ℤ} :
    (i.placed o).toInteger = .ok n ↔ i = Item.integer n := toNumber_eq_ok_iff

/-- An ENUMERATED is read from the one item that it is written as. -/
lemma toEnumerated_eq_ok_iff {n : ℤ} :
    (i.placed o).toEnumerated = .ok n ↔ i = Item.enumerated n := toNumber_eq_ok_iff

/-- A number within a range is read from its one item. -/
lemma toUnsigned_eq_ok_iff {field : String} {maximum : ℕ} {n : ℤ} :
    (i.placed o).toUnsigned field maximum = .ok n ↔
      i = Item.integer n ∧ 0 ≤ n ∧ n ≤ maximum := by
  unfold toUnsigned
  rw [bind_eq_ok_iff]
  constructor
  · rintro ⟨m, hm, h⟩
    split at h
    · cases h
    next hrange =>
      obtain rfl : m = n := Except.ok.inj h
      exact ⟨toInteger_eq_ok_iff.mp hm, by omega, by omega⟩
  · rintro ⟨hi, h0, hmax⟩
    refine ⟨n, toInteger_eq_ok_iff.mpr hi, ?_⟩
    rw [if_neg (by omega)]
    rfl

/-- Octets are read from their one item. -/
lemma toOctets_eq_ok_iff {a : Octets} :
    (i.placed o).toOctets = .ok a ↔ i = Item.octetString a := by
  unfold toOctets
  rw [bind_eq_ok_iff]
  constructor
  · rintro ⟨e, he, h⟩
    obtain ⟨htag, rfl⟩ := ofType_placed_eq_ok_iff.mp he
    obtain rfl : i.content = a := Except.ok.inj h
    exact Item.eq_ofType_of_tag htag
  · rintro rfl
    exact ⟨_, ofType_placed_eq_ok_iff.mpr ⟨rfl, rfl⟩, rfl⟩

/-- A truth value is read from an item with one octet, which is zero for false. -/
lemma toBoolean_eq_ok_iff {b : Bool} :
    (i.placed o).toBoolean = .ok b ↔ ∃ octet, i = Item.boolean octet ∧ b = (octet != 0) := by
  unfold toBoolean
  rw [bind_eq_ok_iff]
  constructor
  · rintro ⟨e, he, h⟩
    obtain ⟨htag, rfl⟩ := ofType_placed_eq_ok_iff.mp he
    split at h
    next hlen =>
      rw [Item.length_placed, List.length_eq_one_iff] at hlen
      obtain ⟨octet, hcontent⟩ := hlen
      simp only [Item.content_placed, hcontent] at h
      refine ⟨octet, ?_, (Except.ok.inj h).symm⟩
      rw [Item.eq_ofType_of_tag htag, hcontent]
      rfl
    · cases h
  · rintro ⟨octet, rfl, rfl⟩
    exact ⟨_, ofType_placed_eq_ok_iff.mpr ⟨rfl, rfl⟩, rfl⟩

/-- A null is read from its one item. -/
lemma toNull_eq_ok_iff {u : Unit} : (i.placed o).toNull = .ok u ↔ i = Item.null := by
  unfold toNull
  rw [bind_eq_ok_iff]
  constructor
  · rintro ⟨e, he, h⟩
    obtain ⟨htag, rfl⟩ := ofType_placed_eq_ok_iff.mp he
    split at h
    next hlen =>
      rw [Item.length_placed, List.length_eq_zero_iff] at hlen
      rw [Item.eq_ofType_of_tag htag, hlen]
      rfl
    · cases h
  · rintro rfl
    exact ⟨_, ofType_placed_eq_ok_iff.mpr ⟨rfl, rfl⟩, rfl⟩

/-- The region inside an item of a universal type. -/
lemma inside_of_type_eq_ok_iff {type : Universal} {c : Cursor} :
    ((i.placed o).ofType type >>= fun e => (.ok e.inside : Except Fault Cursor)) = .ok c ↔
      ∃ a, i = Item.ofType type a ∧ c = ⟨o + i.header.length, a, 0⟩ := by
  rw [bind_eq_ok_iff]
  constructor
  · rintro ⟨e, he, h⟩
    obtain ⟨htag, rfl⟩ := ofType_placed_eq_ok_iff.mp he
    rw [Item.inside_placed, Except.ok.injEq] at h
    exact ⟨i.content, Item.eq_ofType_of_tag htag, h.symm⟩
  · rintro ⟨a, hi, hc⟩
    refine ⟨_, ofType_placed_eq_ok_iff.mpr ⟨by rw [hi]; rfl, rfl⟩, ?_⟩
    rw [Item.inside_placed, hc, hi]
    rfl

/-- A sequence is opened, whatever its content is. -/
lemma toSequence_eq_ok_iff {c : Cursor} :
    (i.placed o).toSequence = .ok c ↔
      ∃ a, i = Item.ofType .sequence a ∧ c = ⟨o + i.header.length, a, 0⟩ :=
  inside_of_type_eq_ok_iff

/-- A set is opened, whatever its content is. -/
lemma toSet_eq_ok_iff {c : Cursor} :
    (i.placed o).toSet = .ok c ↔
      ∃ a, i = Item.ofType .set a ∧ c = ⟨o + i.header.length, a, 0⟩ :=
  inside_of_type_eq_ok_iff

/-- Octets are opened as a region, whatever they are. -/
lemma toWrapped_eq_ok_iff {c : Cursor} :
    (i.placed o).toWrapped = .ok c ↔
      ∃ a, i = Item.octetString a ∧ c = ⟨o + i.header.length, a, 0⟩ :=
  inside_of_type_eq_ok_iff

end Element

end AttestedKey.Der
