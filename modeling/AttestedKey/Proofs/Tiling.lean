import AttestedKey.Proofs.Der.Value
import AttestedKey.Proofs.OneForm

/-!
# Walks tile their region

Elements tile the octets between two places (`Tiles`) if the first one begins at the first place,
each begins with its header where the one before it ends, the content follows the header, and the
last one ends at the second place.  Then each place in between lies in just one of them
(`Tiles.existsUnique`).

Items that stand one after another are such tiles (`tiles_layout`).  What a walk sees are items one
after another up to some place, whatever the octets are, and the walk ends without a fault exactly
if this place is the end of the region (`WalkTiles`).  Since an item takes two octets or more, there
are at most half as many elements as octets.  Conversely, items are found again wherever they stand
one after another, and so are the parts of a SEQUENCE (`WalkRecovers`).
-/

namespace AttestedKey

open Der Outcome

/-- Elements lie one behind the other between two places of an input, with nothing left between
them. -/
inductive Tiles (data : Octets) : ℕ → ℕ → List Element → Prop
  /-- Nothing lies between a place and itself. -/
  | nil (o : ℕ) : Tiles data o o []
  /-- The first element begins at the first place and ends where the others begin. -/
  | cons {e : Element} {es : List Element} {stop : ℕ} (offset_lt : e.offset < e.start)
      (start_le : e.start ≤ e.stop)
      (header : data.slice e.offset e.start = e.tag.encode ++ Length.encode e.length)
      (content : data.slice e.start e.stop = e.content) (rest : Tiles data e.stop stop es) :
      Tiles data e.offset stop (e :: es)

namespace Tiles

variable {data : Octets} {start stop : ℕ} {es : List Element}

/-- No tile begins before the first place. -/
lemma le_offset (h : Tiles data start stop es) {e : Element} (he : e ∈ es) :
    start ≤ e.offset := by
  induction h with
  | nil o => cases he
  | @cons first es stop offset_lt start_le _ _ _ ih =>
    rcases List.mem_cons.mp he with rfl | he
    · exact le_rfl
    · have hlater := ih he
      omega

/-- Each place lies in just one tile. -/
theorem existsUnique (h : Tiles data start stop es) {place : ℕ} (hstart : start ≤ place)
    (hstop : place < stop) : ∃! e, e ∈ es ∧ e.offset ≤ place ∧ place < e.stop := by
  induction h with
  | nil o => exact absurd hstart (not_le.mpr hstop)
  | @cons first es stop _ _ _ _ hrest ih =>
    by_cases hfirst : place < first.stop
    · refine ⟨first, ⟨List.mem_cons_self .., hstart, hfirst⟩, ?_⟩
      rintro e ⟨he, hoffset, -⟩
      rcases List.mem_cons.mp he with rfl | he
      · rfl
      · exact absurd (hrest.le_offset he) (not_le.mpr (hoffset.trans_lt hfirst))
    · obtain ⟨e, ⟨he, hin⟩, hunique⟩ := ih (not_lt.mp hfirst) hstop
      refine ⟨e, ⟨List.mem_cons_of_mem _ he, hin⟩, ?_⟩
      rintro e' ⟨he', hoffset, hlt⟩
      rcases List.mem_cons.mp he' with rfl | he'
      · exact absurd hlt hfirst
      · exact hunique e' ⟨he', hoffset, hlt⟩

end Tiles

/-! ### Items as tiles -/

/-- Items that stand one after another tile the octets that they take. -/
theorem tiles_layout {data : Octets} {items : List Item} {start : ℕ}
    (h : data.slice start (start + (Item.join items).length) = Item.join items) :
    Tiles data start (start + (Item.join items).length) (Item.layout start items) := by
  induction items generalizing start with
  | nil => exact .nil start
  | cons i items ih =>
    rw [Item.join_cons] at h ⊢
    obtain ⟨hfirst, hothers⟩ := Octets.slice_eq_append h
    obtain ⟨hheader, hcontent⟩ := Octets.slice_eq_append (a := i.header) hfirst
    rw [List.length_append, ← Nat.add_assoc] at hothers ⊢
    have hplaced := i.stop_placed start
    have htwo := i.two_le_length_header
    -- A tile is not empty, since its header is not, and the next one begins where it stops.
    refine Tiles.cons (e := i.placed start) ?_ (Nat.le_add_right ..) hheader ?_ ?_
    · change start < start + i.header.length
      omega
    · rw [hplaced]
      exact hcontent
    · rw [hplaced]
      exact ih hothers

/-! ### Walks -/

/-- A walk over a region of an input sees tiles, and it sees all of them or something malformed. -/
structure WalkTiles (data : Octets) (start stop : ℕ) (w : Walk) : Prop where
  /-- There are at most half as many elements as octets. -/
  count : 2 * w.elements.length ≤ stop - start
  /-- A walk that ends before the end of its region has met something malformed. -/
  fault : ∀ fault ∈ w.fault, fault.IsMalformed start stop
  /-- The elements tile the octets up to some place, which is the end of the region if there is no
  fault and only then. -/
  tiles : ∃ last ≤ stop, Tiles data start last w.elements ∧ (w.fault = none ↔ last = stop)
  /-- Without a fault, each place of the region lies in just one element. -/
  covers : w.fault = none → ∀ place, start ≤ place → place < stop →
    ∃! e, e ∈ w.elements ∧ e.offset ≤ place ∧ place < e.stop

/-- Every walk between two places of an input sees tiles. -/
lemma Der.Cursor.walkTiles {data : Octets} {start stop : ℕ} (hstart : start ≤ stop)
    (hstop : stop ≤ data.length) :
    WalkTiles data start stop (Cursor.between data start stop).walk := by
  obtain ⟨items, after, -, hadv, hlayout, hfault⟩ :=
    Cursor.exists_items_of_walk (Cursor.between_missing hstop)
  obtain ⟨hle, hslice, rfl⟩ := (Cursor.advances_between_iff hstart hstop).mp hadv
  have htiles := tiles_layout hslice
  have helements : (Cursor.between data start stop).walk.elements = Item.layout start items :=
    hlayout
  have hend : (Cursor.between data start stop).walk.fault = none ↔
      start + (Item.join items).length = stop := by
    rw [hfault, ← Cursor.atEnd_between hle hstop]
    exact (Cursor.atEnd_iff_bytes (Cursor.between_missing hstop)).symm
  refine ⟨?_, ?_, ⟨_, hle, ?_, hend⟩, ?_⟩
  · have hcount := Item.two_mul_length_le_join items
    rw [helements, Item.length_layout]
    omega
  · intro fault h
    have hregion := Cursor.partOf_self (c := .between data start stop)
      (Cursor.between_missing hstop)
    obtain ⟨-, hmalformed⟩ := Cursor.walk_ends hregion
    rw [Cursor.stop_between hstart hstop] at hmalformed
    exact hmalformed fault h
  · rw [helements]
    exact htiles
  · intro hnone place hplace hlt
    rw [helements]
    exact htiles.existsUnique hplace (hlt.trans_eq (hend.mp hnone).symm)

/-! ### Items found again -/

/-- The region between both ends of some octets consists of them. -/
lemma Der.Cursor.between_append (front a rest : Octets) :
    Cursor.between (front ++ (a ++ rest)) front.length (front.length + a.length) =
      ⟨front.length, a, 0⟩ := by
  have hbytes : (Cursor.between (front ++ (a ++ rest)) front.length
      (front.length + a.length)).bytes = a := Octets.slice_append front a rest
  have hmissing : (Cursor.between (front ++ (a ++ rest)) front.length
      (front.length + a.length)).missing = 0 := by
    apply Cursor.between_missing
    simp
  have hregion := congrArg₂ (Cursor.mk front.length) hbytes hmissing
  exact hregion

/-- The region inside a SEQUENCE of some items consists of them. -/
lemma Der.Cursor.between_sequence (front : Octets) (items : List Item) (rest : Octets) :
    let start := front.length + (Item.sequence items).header.length
    Cursor.between (front ++ (encodeSequence (items.map Item.octets) ++ rest)) start
      (start + (Item.join items).length) = ⟨start, Item.join items, 0⟩ := by
  intro start
  have hdata : front ++ (encodeSequence (items.map Item.octets) ++ rest) =
      front ++ (Item.sequence items).header ++ (Item.join items ++ rest) := by
    rw [Item.encodeSequence_eq, Item.octets_eq, List.append_assoc, List.append_assoc]
    rfl
  have hstart : start = (front ++ (Item.sequence items).header).length := List.length_append.symm
  rw [hdata, hstart, Cursor.between_append]

/-- Some items are found again where they stand one after another, and where they are the parts of a
SEQUENCE. -/
structure WalkRecovers (items : List Item) : Prop where
  /-- The elements are the items in their order, each at its place. -/
  joined : ∀ front rest : Octets,
    (Cursor.between (front ++ (Item.join items ++ rest)) front.length
      (front.length + (Item.join items).length)).walk = ⟨Item.layout front.length items, none⟩
  /-- They have the tags and the contents of the items. -/
  same : ∀ place : ℕ,
    (Item.layout place items).map (fun e => Item.mk e.tag e.content) = items
  /-- The content of a SEQUENCE of the items consists of them. -/
  parts : ∀ front rest : Octets,
    let start := front.length + (Item.sequence items).header.length
    (Cursor.between (front ++ (encodeSequence (items.map Item.octets) ++ rest)) start
      (start + (Item.join items).length)).walk = ⟨Item.layout start items, none⟩
  /-- If it is short enough, a reader of the SEQUENCE opens just this content. -/
  opened : ∀ (front rest : Octets) {stop : ℕ}, (Item.join items).length < 2 ^ 32 →
    let data := front ++ (encodeSequence (items.map Item.octets) ++ rest)
    let start := front.length + (Item.sequence items).header.length
    let behind := start + (Item.join items).length
    behind ≤ stop → stop ≤ data.length →
      (Cursor.between data front.length stop).read Element.toSequence =
        .ok (Cursor.between data start behind, Cursor.between data behind stop)

/-- Every walk over readable items finds them again. -/
lemma Der.Item.walkRecovers {items : List Item} (h : ∀ i ∈ items, i.Readable) :
    WalkRecovers items := by
  refine ⟨?_, fun place => map_mk_layout place items, ?_, ?_⟩
  · intro front rest
    rw [Cursor.between_append, Cursor.walk_join h]
  · intro front rest start
    rw [Cursor.between_sequence, Cursor.walk_join h]
  · intro front rest stop hshort data start behind hbehind hstop
    have hbound : front.length + (sequence items).octets.length = behind := by
      rw [octets_eq, List.length_append, ← Nat.add_assoc]
      rfl
    have hslice : data.slice front.length (front.length + (sequence items).octets.length) =
        (sequence items).octets := Octets.slice_append front (sequence items).octets rest
    have hadv := (Cursor.advances_between_iff (by omega) hstop).mpr
      ⟨hbound.trans_le hbehind, hslice, rfl⟩
    rw [hbound] at hadv
    rw [Cursor.read_eq_ok_iff (Cursor.between_missing hstop)]
    refine ⟨sequence items, ⟨number_lt_of_ofType .sequence _, hshort⟩, hadv, ?_⟩
    rw [Element.toSequence_eq_ok_iff]
    exact ⟨join items, rfl, Cursor.between_sequence front items rest⟩

/-- A walk tiles its region, whatever the octets are, and finds items that stand one after
another. -/
theorem walks_tile :
    (∀ {data : Octets} {start stop : ℕ}, start ≤ stop → stop ≤ data.length →
      WalkTiles data start stop (Cursor.between data start stop).walk) ∧
      ∀ {items : List Item}, (∀ i ∈ items, i.Readable) → WalkRecovers items :=
  ⟨Cursor.walkTiles, Item.walkRecovers⟩

/-- Two items in the middle of an input tile the octets that they take, and are found again. -/
theorem walks_tile_between :
    WalkTiles [7, 2, 1, 5, 5, 0, 7] 1 6 (Cursor.between [7, 2, 1, 5, 5, 0, 7] 1 6).walk ∧
      WalkRecovers [Item.ofType .integer [5], Item.null] := by
  obtain ⟨htiles, hrecovers⟩ := walks_tile
  constructor
  · exact htiles (by decide) (by decide)
  · apply hrecovers
    rw [List.forall_mem_cons, List.forall_mem_singleton]
    exact ⟨⟨by decide, by decide⟩, ⟨by decide, by decide⟩⟩

end AttestedKey
