import AttestedKey.Proofs.AuthorizationList.RoundTrip

/-!
# The tags on the wire

`AuthorizationList.tags` says which tags the encoding of a list has, without writing the list: it
selects the written fields and sorts their tags with those outside the table.  The writer makes the
same selection in another way, and sorts wrappers.  Here both are compared through
`AuthorizationList.written`, whose numbers are the tags (`tags_eq_map_written`) and whose wrappers
are what a reader meets (`IsNormal.meets_placed`).  So the tags of a list that came about in any
way are those that are read from its encoding, in the same order and strictly ascending
(`exists_meets_of_constructible`).
-/

namespace AttestedKey

open Der Outcome

namespace AuthorizationList

/-- A field is written exactly if it has an entry. -/
lemma map_number_fieldItem (a : AuthorizationList) (f : Field) :
    (a.fieldItem f).map Entry.number = if a.has f then some f.tag else none := by
  unfold fieldItem has
  cases a.value f with
  | none => rfl
  | some v => cases hwritten : f.kind.isWritten v <;> simp [hwritten]

/-- The written fields are those with an entry, in the same order. -/
lemma map_number_fieldItems (a : AuthorizationList) (fields : List Field) :
    (fields.filterMap a.fieldItem).map Entry.number = (fields.filter a.has).map Field.tag := by
  induction fields with
  | nil => rfl
  | cons f rest ih =>
    have hfirst := a.map_number_fieldItem f
    rw [List.filterMap_cons, List.filter_cons]
    cases hitem : a.fieldItem f with
    | none =>
      have hblank : ¬ a.has f = true := by
        intro hhas
        rw [hitem, if_pos hhas] at hfirst
        cases hfirst
      rw [if_neg hblank]
      exact ih
    | some e =>
      rw [hitem] at hfirst
      split at hfirst
      next hhas =>
        rw [if_pos hhas, List.map_cons, List.map_cons, ih, Option.some.inj hfirst]
      · cases hfirst

/-- The tags of a list are the numbers of its entries: sorting numbers is sorting entries by
their numbers. -/
theorem tags_eq_map_written (a : AuthorizationList) : a.tags = a.written.map Entry.number := by
  have hnumbers : (Field.all.filter a.has).map Field.tag ++ a.unknown.map UnknownTag.number =
      (Field.all.filterMap a.fieldItem ++ a.unknown.map unknownItem).map Entry.number := by
    rw [List.map_append, map_number_fieldItems, List.map_map]
    rfl
  unfold tags written
  rw [hnumbers]
  exact (List.map_mergeSort (f := Entry.number) fun _ _ _ _ => rfl).symm

/-- What a reader meets inside an element are wrappers up to its end, one for each tag of a list, in
ascending order.  The wrapper of a known tag holds the encoding of its field, and that of any other
tag the octets that the list keeps for it. -/
structure Meets (a : AuthorizationList) (e : Element) : Prop where
  /-- The walk through the content ends without a fault. -/
  fault : e.inside.walk.fault = none
  /-- Each element on the way is constructed and context-specific. -/
  explicit : ∀ w ∈ e.inside.walk.elements, w.tag.constructed = true ∧ w.tag.tagClass = .context
  /-- Their numbers are the tags of the list. -/
  tags : (e.inside.walk.elements.map fun w => w.tag.number) = a.tags
  /-- No tag stands behind a greater or an equal one. -/
  ascending : a.tags.Pairwise (· < ·)
  /-- A wrapper with the tag of a field holds the encoding of the value of that field. -/
  known : ∀ w ∈ e.inside.walk.elements, ∀ f : Field, Field.ofTag? w.tag.number = some f →
    ∃ v, a.value f = some v ∧ f.kind.encode f.name v = .ok w.content
  /-- A wrapper with another tag holds what the list keeps for it. -/
  unknown : ∀ w ∈ e.inside.walk.elements, Field.ofTag? w.tag.number = none →
    ⟨w.tag.number, w.content⟩ ∈ a.unknown

/-- The walk through the written form of a normal list meets the wrappers of its entries. -/
lemma IsNormal.walk_placed {a : AuthorizationList} (h : a.IsNormal) (hread : a.item.Readable)
    (o : ℕ) : ∃ o', (a.item.placed o).inside.walk =
      ⟨Item.layout o' (a.written.map Entry.wrapper), none⟩ := by
  have hwrappers : ∀ i ∈ a.written.map Entry.wrapper, i.Readable := by
    intro i hi
    obtain ⟨e, he, rfl⟩ := List.mem_map.mp hi
    exact (h.readable_of_mem_written hread e he).1
  rw [Item.inside_placed]
  exact ⟨_, Cursor.walk_join hwrappers _⟩

/-- A normal list that can be written meets its own tags in its written form. -/
theorem IsNormal.meets_placed {a : AuthorizationList} (h : a.IsNormal) (hrange : a.InRange)
    (hread : a.item.Readable) (o : ℕ) : a.Meets (a.item.placed o) := by
  obtain ⟨o', hwalk⟩ := h.walk_placed hread o
  have hmet : ∀ w ∈ (a.item.placed o).inside.walk.elements,
      ∃ e ∈ a.written, w.tag = .explicit e.number ∧ w.content = e.inner.octets := by
    intro w hw
    rw [hwalk] at hw
    obtain ⟨_, hi, p, rfl⟩ := Item.exists_of_mem_layout hw
    obtain ⟨e, he, rfl⟩ := List.mem_map.mp hi
    exact ⟨e, he, rfl, rfl⟩
  refine ⟨by rw [hwalk], ?_, ?_, ?_, ?_, ?_⟩
  · intro w hw
    obtain ⟨e, -, htag, -⟩ := hmet w hw
    rw [htag]
    exact ⟨rfl, rfl⟩
  · rw [hwalk, tags_eq_map_written, Item.map_layout (g := fun i => i.tag.number) fun _ _ => rfl,
      List.map_map]
    rfl
  · rw [tags_eq_map_written, List.pairwise_map]
    exact h.ascending_written
  · intro w hw f hf
    obtain ⟨e, he, htag, hcontent⟩ := hmet w hw
    rw [htag] at hf
    rcases mem_written.mp he with ⟨g, v, hv, hwritten, rfl⟩ | ⟨t, ht, rfl⟩
    · obtain rfl : g = f := Option.some.inj ((Field.ofTag?_tag g).symm.trans hf)
      exact ⟨v, hv, Kind.encode_eq_ok_iff.mpr ⟨hrange g v hv hwritten, hcontent⟩⟩
    · exact absurd ((h.unknown t ht).1.symm.trans hf) (by simp)
  · intro w hw hnone
    obtain ⟨e, he, htag, hcontent⟩ := hmet w hw
    rw [htag] at hnone
    rcases mem_written.mp he with ⟨g, v, -, -, rfl⟩ | ⟨t, ht, rfl⟩
    · exact absurd ((Field.ofTag?_tag g).symm.trans hnone) (by simp)
    · rw [htag, hcontent, (h.octets_unknownItem ht).2]
      exact ht

/-- However a list came about, blank flags included: if it can be written in as many octets as can
be read, these are one sequence, and what is met in it are the tags of the list. -/
theorem exists_meets_of_constructible {a : AuthorizationList} {b : Octets} (h : Constructible a)
    (hb : a.encode = .ok b) (hlength : b.length < 2 ^ 32) :
    ∃ e after, (Cursor.start b).element = .ok (e, after) ∧ after.atEnd = true ∧
      e.tag = Universal.sequence.tag ∧ a.Meets e := by
  obtain ⟨hrange, rfl⟩ := h.isNormal.encode_eq_ok_iff.mp hb
  have hread : a.item.Readable :=
    Item.readable_of_octets (Item.number_lt_of_ofType _ _) hlength
  have helement := Cursor.element_octets_append hread 0 []
  rw [List.append_nil] at helement
  exact ⟨_, _, helement, rfl, rfl, h.isNormal.meets_placed hrange hread 0⟩

/-- Arguments for a list with a blank flag, a raised one, and tags outside the table around it that
are given in descending order. -/
def gappedArguments : Arguments :=
  [("purpose", .list [.integer 2]), ("early_boot_only", .absent),
    ("unlocked_device_required", .truth true),
    ("unknown_tags", .list
      [.list [.integer 1000, .octets [5, 0]], .list [.integer 100, .octets [4, 1, 9]]])]

/-- The list that is made of these arguments. -/
def gapped : AuthorizationList :=
  ((((empty.set .purpose (.ofList [.ofCode _ 2])).set .earlyBootOnly .blank).set
    .unlockedDeviceRequired .raised).setUnknown ⟨1000, [5, 0]⟩).setUnknown ⟨100, [4, 1, 9]⟩

/-- The octets in which this list is written. -/
def gappedOctets : Octets :=
  [48, 25, 161, 5, 49, 3, 2, 1, 2, 191, 100, 3, 4, 1, 9, 191, 131, 125, 2, 5, 0, 191, 135, 104, 2,
    5, 0]

/-- The sample is made of its arguments. -/
lemma make_gappedArguments : make gappedArguments = .ok gapped :=
  eq_ok_of_toOption (by decide +kernel)

/-- The sample is written in its octets. -/
lemma encode_gapped : gapped.encode = .ok gappedOctets := by
  have hread : decode .lenient gappedOctets = .ok (Builder.ofList gapped).draft :=
    eq_ok_of_toOption (by decide +kernel)
  rw [← encode_ofList]
  exact encode_of_isCanonical hread (by decide +kernel) (by decide +kernel)

/-- The tags of this list are met in its encoding. -/
theorem exists_meets_gapped :
    Constructible gapped ∧ gapped.encode = .ok gappedOctets ∧ gappedOctets.length < 2 ^ 32 ∧
      ∃ e after, (Cursor.start gappedOctets).element = .ok (e, after) ∧ after.atEnd = true ∧
        e.tag = Universal.sequence.tag ∧ gapped.Meets e := by
  have hconstructible : Constructible gapped := .make make_gappedArguments
  have hlength : gappedOctets.length < 2 ^ 32 := by decide
  exact ⟨hconstructible, encode_gapped, hlength,
    exists_meets_of_constructible hconstructible encode_gapped hlength⟩

end AuthorizationList

end AttestedKey
