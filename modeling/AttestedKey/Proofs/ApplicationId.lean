import AttestedKey.ApplicationId
import AttestedKey.Proofs.Der.Collection

/-!
# The wire form of an application id

`ApplicationId.Form a i` says that `i` is a wire form of `a`: a sequence of two sets, one of the
packages and one of the digests, each in any order.  Reading accepts just these forms
(`ofRegion_eq_ok_iff`).  The forms of one application id differ in the order of the two sets alone,
and `ApplicationId.item`, in which it is written, has them both in ascending order (`item_eq_iff`).
-/

namespace AttestedKey

open Der Outcome

namespace Package

/-- The form in which a package is written, which is its only one. -/
def item (p : Package) : Item :=
  .sequence [.octetString (Octets.ofString p.name), .integer p.version]

/-- The version of a package fits into 64 bits. -/
def InRange (p : Package) : Prop := 0 ≤ p.version ∧ p.version ≤ uint64Max

/-- A package is read from its one form. -/
theorem ofElement_eq_ok_iff {i : Item} (hi : i.Readable) {o : ℕ} {p : Package} :
    ofElement (i.placed o) = .ok p ↔ p.InRange ∧ i = p.item := by
  unfold ofElement
  rw [bind_eq_ok_iff]
  constructor
  · rintro ⟨c, hc, h⟩
    obtain ⟨content, rfl, rfl⟩ := Element.toSequence_eq_ok_iff.mp hc
    obtain ⟨_, _, octets, -, rfl, hoctets, h⟩ := Cursor.read_bind_eq_ok_iff.mp h
    obtain ⟨_, rest, version, -, rfl, hversion, h⟩ := Cursor.read_bind_eq_ok_iff.mp h
    rw [Element.toOctets_eq_ok_iff] at hoctets
    obtain ⟨hitem, h0, hmax⟩ := Element.toUnsigned_eq_ok_iff.mp hversion
    subst hoctets hitem
    simp only at h
    split at h
    next hend =>
      obtain rfl : rest = [] := (Cursor.atEnd_iff_bytes rfl).mp hend
      split at h
      next name hname =>
        obtain rfl : _ = p := Except.ok.inj h
        rw [Octets.toString?_eq_some_iff] at hname
        subst hname
        exact ⟨⟨h0, hmax⟩, rfl⟩
      · cases h
    · cases h
  · rintro ⟨⟨h0, hmax⟩, rfl⟩
    obtain ⟨hname, hversion⟩ := Item.readable_of_ofType_pair hi
    refine ⟨_, Element.toSequence_eq_ok_iff.mpr ⟨_, rfl, rfl⟩, ?_⟩
    refine Cursor.read_bind_eq_ok_iff.mpr
      ⟨_, _, _, hname, rfl, Element.toOctets_eq_ok_iff.mpr rfl, ?_⟩
    refine Cursor.read_bind_eq_ok_iff.mpr
      ⟨_, [], _, hversion, rfl,
        Element.toUnsigned_eq_ok_iff.mpr ⟨rfl, h0, hmax⟩, ?_⟩
    have htext := Octets.toString?_ofString p.name
    simp only [Cursor.atEnd_nil, if_true, htext]
    rfl

/-- A package is written if its version is in range. -/
lemma encode_eq_ok_iff (p : Package) (b : Octets) :
    p.encode = .ok b ↔ p.InRange ∧ b = p.item.octets := by
  unfold encode
  rw [bind_eq_ok_iff]
  constructor
  · rintro ⟨version, hversion, h⟩
    obtain ⟨h0, hmax, rfl⟩ := checkRange_eq_ok_iff.mp hversion
    exact ⟨⟨h0, hmax⟩, (Except.ok.inj h).symm⟩
  · rintro ⟨⟨h0, hmax⟩, rfl⟩
    exact ⟨_, checkRange_eq_ok_iff.mpr ⟨h0, hmax, rfl⟩, rfl⟩

end Package

namespace ApplicationId

/-- The items of an application id whose sets are listed in the given orders. -/
def itemOf (packages : List Package) (digests : List Octets) : Item :=
  .sequence [.set (packages.map Package.item), .set (digests.map Item.octetString)]

/-- An item is a wire form of an application id. -/
def Form (a : ApplicationId) (i : Item) : Prop :=
  ∃ packages digests, packages.Perm a.packages.toList ∧ digests.Perm a.digests.toList ∧
    (∀ p ∈ packages, p.InRange) ∧ i = itemOf packages digests

/-- The form in which an application id is written. -/
def item (a : ApplicationId) : Item :=
  .sequence [.set (Item.sort (a.packages.toList.map Package.item)),
    .set (Item.sort (a.digests.toList.map Item.octetString))]

/-- The two sets of an application id are in ascending order. -/
def IsCanonical (i : Item) : Prop := ∀ s ∈ i.parts, Item.Ascending s.parts

instance : DecidablePred IsCanonical := fun i =>
  inferInstanceAs (Decidable (∀ s ∈ i.parts, Item.Ascending s.parts))

/-- Every package of an application id is in range. -/
def InRange (a : ApplicationId) : Prop := ∀ p ∈ a.packages.toList, p.InRange

/-! ### Reading -/

/-- A package is added if its version fits, and it has not been met before. -/
lemma addPackage_eq_ok_iff (s t : OrderedSet Package) (i : Item) (o : ℕ) (hi : i.Readable) :
    addPackage s (i.placed o) = .ok t ↔
      ∃ p : Package, p.InRange ∧ i = p.item ∧ p ∉ s.toList ∧ t = s.insert p := by
  unfold addPackage
  rw [bind_eq_ok_iff]
  constructor
  · rintro ⟨p, hp, h⟩
    obtain ⟨hrange, hform⟩ := (Package.ofElement_eq_ok_iff hi).mp hp
    split at h
    · cases h
    next hnew =>
      exact ⟨p, hrange, hform, fun hold => hnew (OrderedSet.contains_iff.mpr hold),
        (Except.ok.inj h).symm⟩
  · intro h
    rcases h with ⟨p, hrange, hform, hnew, rfl⟩
    refine ⟨p, (Package.ofElement_eq_ok_iff hi).mpr ⟨hrange, hform⟩, ?_⟩
    rw [if_neg fun hold => hnew (OrderedSet.contains_iff.mp hold)]
    rfl

/-- A digest is added if it has not been met before. -/
lemma addDigest_eq_ok_iff (s t : OrderedSet Octets) (i : Item) (o : ℕ) :
    addDigest s (i.placed o) = .ok t ↔
      ∃ d : Octets, True ∧ i = Item.octetString d ∧ d ∉ s.toList ∧ t = s.insert d := by
  unfold addDigest
  rw [bind_eq_ok_iff]
  constructor
  · rintro ⟨d, hd, h⟩
    split at h
    · cases h
    next hnew =>
      exact ⟨d, trivial, Element.toOctets_eq_ok_iff.mp hd,
        fun hold => hnew (OrderedSet.contains_iff.mpr hold), (Except.ok.inj h).symm⟩
  · rintro ⟨d, -, hform, hnew, rfl⟩
    refine ⟨d, Element.toOctets_eq_ok_iff.mpr hform, ?_⟩
    rw [if_neg fun hold => hnew (OrderedSet.contains_iff.mp hold)]
    rfl

/-- The two sets of a readable form are readable, and so are their members. -/
lemma readable_of_itemOf {packages : List Package} {digests : List Octets}
    (h : (itemOf packages digests).Readable) :
    (Item.set (packages.map Package.item)).Readable ∧
      (Item.set (digests.map Item.octetString)).Readable ∧
      (∀ p ∈ packages, p.item.Readable) ∧ ∀ d ∈ digests, (Item.octetString d).Readable := by
  obtain ⟨hpackages, hdigests⟩ := Item.readable_of_ofType_pair h
  refine ⟨hpackages, hdigests, ?_, ?_⟩
  · exact Item.readable_of_ofType_map hpackages fun p _ => Item.number_lt_of_ofType _ _
  · exact Item.readable_of_ofType_map hdigests fun d _ => Item.number_lt_of_ofType _ _

/-- A region holds an application id if it is one of its wire forms. -/
theorem ofRegion_eq_ok_iff {o : ℕ} {content : Octets} {a : ApplicationId} :
    ofRegion ⟨o, content, 0⟩ = .ok a ↔
      ∃ i : Item, i.Readable ∧ content = i.octets ∧ a.Form i := by
  refine Cursor.read_last_eq_ok_iff.trans ?_
  constructor
  · rintro ⟨i, c, hi, hcontent, hc, h⟩
    obtain ⟨parts, rfl, rfl⟩ := Element.toSequence_eq_ok_iff.mp hc
    obtain ⟨_, _, packages, -, rfl, hpackages, h⟩ := Cursor.read_bind_eq_ok_iff.mp h
    obtain ⟨_, rest, digests, -, rfl, hdigests, h⟩ := Cursor.read_bind_eq_ok_iff.mp h
    obtain ⟨_, rfl, rfl⟩ := Element.toSet_eq_ok_iff.mp hpackages
    obtain ⟨_, rfl, rfl⟩ := Element.toSet_eq_ok_iff.mp hdigests
    simp only at h
    split at h
    next hend =>
      obtain rfl : rest = [] := (Cursor.atEnd_iff_bytes rfl).mp hend
      obtain ⟨packages, hpackages, h⟩ := bind_eq_ok_iff.mp h
      obtain ⟨digests, hdigests, h⟩ := bind_eq_ok_iff.mp h
      obtain rfl : _ = a := Except.ok.inj h
      obtain ⟨ps, hps, hrange, -, rfl⟩ := (collect_eq_ok_iff addPackage_eq_ok_iff).mp hpackages
      obtain ⟨ds, hds, -, -, rfl⟩ :=
        (collect_eq_ok_iff fun s t i o _ => addDigest_eq_ok_iff s t i o).mp hdigests
      exact ⟨_, hi, hcontent, ps, ds, hps, hds, hrange, rfl⟩
    · cases h
  · rintro ⟨_, hi, hcontent, ps, ds, hps, hds, hrange, rfl⟩
    obtain ⟨hpackages, hdigests, hp, hd⟩ := readable_of_itemOf hi
    refine ⟨_, _, hi, hcontent, Element.toSequence_eq_ok_iff.mpr ⟨_, rfl, rfl⟩, ?_⟩
    refine Cursor.read_bind_eq_ok_iff.mpr
      ⟨_, _, _, hpackages, rfl, Element.toSet_eq_ok_iff.mpr ⟨_, rfl, rfl⟩, ?_⟩
    refine Cursor.read_bind_eq_ok_iff.mpr
      ⟨_, [], _, hdigests, rfl, Element.toSet_eq_ok_iff.mpr ⟨_, rfl, rfl⟩, ?_⟩
    simp only [Cursor.atEnd_nil, if_true]
    refine bind_eq_ok_iff.mpr ⟨a.packages,
      (collect_eq_ok_iff addPackage_eq_ok_iff).mpr ⟨ps, hps, hrange, hp, rfl⟩, ?_⟩
    refine bind_eq_ok_iff.mpr ⟨a.digests,
      (collect_eq_ok_iff fun s t i o _ => addDigest_eq_ok_iff s t i o).mpr
        ⟨ds, hds, fun _ _ => trivial, hd, rfl⟩, rfl⟩

/-! ### Writing -/

/-- An application id is written if its packages are in range. -/
theorem encode_eq_ok_iff {a : ApplicationId} {b : Octets} :
    a.encode = .ok b ↔ a.InRange ∧ b = a.item.octets := by
  have hparts : encodeSequence [encodeSet ((a.packages.toList.map Package.item).map Item.octets),
      encodeSet (a.digests.toList.map encodeOctets)] = a.item.octets := by
    have hdigests : a.digests.toList.map encodeOctets =
        (a.digests.toList.map Item.octetString).map Item.octets := by
      rw [List.map_map]
      rfl
    rw [hdigests, Item.encodeSet_eq, Item.encodeSet_eq]
    rfl
  unfold encode
  rw [bind_eq_ok_iff]
  constructor
  · rintro ⟨packages, hpackages, h⟩
    obtain ⟨hrange, rfl⟩ := (mapM_eq_ok_iff_map Package.encode_eq_ok_iff).mp hpackages
    refine ⟨hrange, ?_⟩
    rw [← hparts, List.map_map]
    exact (Except.ok.inj h).symm
  · rintro ⟨hrange, rfl⟩
    refine ⟨_, (mapM_eq_ok_iff_map Package.encode_eq_ok_iff).mpr ⟨hrange, rfl⟩, ?_⟩
    rw [← hparts, List.map_map]
    rfl

/-- The written form is a wire form. -/
lemma form_item {a : ApplicationId} (h : a.InRange) : a.Form a.item := by
  obtain ⟨ps, hps, hpackages⟩ := Item.exists_perm_sort_map Package.item a.packages.toList
  obtain ⟨ds, hds, hdigests⟩ := Item.exists_perm_sort_map Item.octetString a.digests.toList
  refine ⟨ps, ds, hps, hds, fun p hp => h p (hps.mem_iff.mp hp), ?_⟩
  rw [item, hpackages, hdigests]
  rfl

/-- What has a wire form can be written. -/
lemma inRange_of_form {a : ApplicationId} {i : Item} (h : a.Form i) : a.InRange := by
  obtain ⟨ps, -, hps, -, hrange, -⟩ := h
  exact fun p hp => hrange p (hps.mem_iff.mpr hp)

/-- Whatever is written of an application id, in as many octets as can be read, is read back. -/
theorem decode_of_encode {a : ApplicationId} {b : Octets} (hb : a.encode = .ok b)
    (hlength : b.length < 2 ^ 32) : decode b = .ok a := by
  obtain ⟨hrange, rfl⟩ := encode_eq_ok_iff.mp hb
  have hread : a.item.Readable := Item.readable_of_octets (Item.number_lt_of_ofType _ _) hlength
  exact ofRegion_eq_ok_iff.mpr ⟨a.item, hread, rfl, form_item hrange⟩

/-- The written form is as long as any other. -/
lemma length_item {a : ApplicationId} {i : Item} (h : a.Form i) :
    a.item.octets.length = i.octets.length := by
  obtain ⟨ps, ds, hps, hds, -, rfl⟩ := h
  have hpackages := Item.length_set_of_perm
    ((Item.sort_perm (a.packages.toList.map Package.item)).trans (hps.symm.map _))
  have hdigests := Item.length_set_of_perm
    ((Item.sort_perm (a.digests.toList.map Item.octetString)).trans (hds.symm.map _))
  apply Item.length_octets_eq
  simp only [Item.join_cons, Item.join_nil, List.length_append, hpackages, hdigests]

/-- A wire form is the written one exactly if both of its sets are in order. -/
theorem item_eq_iff {a : ApplicationId} {i : Item} (hi : i.Readable) (h : a.Form i) :
    a.item = i ↔ IsCanonical i := by
  obtain ⟨ps, ds, hps, hds, -, rfl⟩ := h
  obtain ⟨hpackages, hdigests, hp, hd⟩ := readable_of_itemOf hi
  have hsets : ∀ s ∈ [Item.set (ps.map Package.item), Item.set (ds.map Item.octetString)],
      s.Readable := by
    simpa using ⟨hpackages, hdigests⟩
  have hparts : (itemOf ps ds).parts =
      [.set (ps.map Package.item), .set (ds.map Item.octetString)] := Item.parts_sequence hsets
  have hpmembers : ∀ j ∈ ps.map Package.item, j.Readable := by
    simpa only [List.forall_mem_map] using hp
  have hdmembers : ∀ j ∈ ds.map Item.octetString, j.Readable := by
    simpa only [List.forall_mem_map] using hd
  have hcanonical : IsCanonical (itemOf ps ds) ↔
      Item.Ascending (ps.map Package.item) ∧ Item.Ascending (ds.map Item.octetString) := by
    rw [IsCanonical, hparts, List.forall_mem_cons, List.forall_mem_singleton,
      Item.parts_set hpmembers, Item.parts_set hdmembers]
  rw [hcanonical, ← Item.set_sort_eq_iff hpmembers (hps.symm.map _),
    ← Item.set_sort_eq_iff hdmembers (hds.symm.map _)]
  constructor
  · intro heq
    have hitem : a.item.Readable := by rwa [heq]
    obtain ⟨hpackages', hdigests'⟩ := Item.readable_of_ofType_pair hitem
    have hparts' : a.item.parts = [.set (Item.sort (a.packages.toList.map Package.item)),
        .set (Item.sort (a.digests.toList.map Item.octetString))] :=
      Item.parts_sequence (by simpa using ⟨hpackages', hdigests'⟩)
    rw [heq, hparts] at hparts'
    simpa [eq_comm] using hparts'
  · rintro ⟨hpackages, hdigests⟩
    rw [item, hpackages, hdigests]
    rfl

end ApplicationId

end AttestedKey
