import AttestedKey.Der.Primitive
import AttestedKey.Proofs.Der.PrefixFree

/-!
# Elements without a place

An `Item` is a tag with a content: an element wherever it stands.  `Item.octets` is its encoding
and `Item.placed` the element that a reader sees at a given place.  If the first octet of its length
counts the digits (`Item.Counted`), the octets of an item tell where it ends
(`Item.Counted.append_inj`), and those of several such items tell the items apart.

A reader accepts the items whose tag number and length fit into four digits (`Item.Readable`), and
sees each of them exactly where its octets stand (`Cursor.element_eq_ok_iff`).  So a whole region is
walked to its end exactly if it is a concatenation of items, which are then what the walk sees
(`Cursor.walk_eq_iff`).
-/

namespace AttestedKey.Der

open Outcome

/-- A tag with a content. -/
structure Item where
  /-- What the item is. -/
  tag : Tag
  /-- The octets after the header. -/
  content : Octets
  deriving DecidableEq

namespace Item

/-- The encoding of an item. -/
def octets (i : Item) : Octets := encode i.tag i.content

/-- The octets in front of the content. -/
def header (i : Item) : Octets := i.tag.encode ++ Length.encode i.content.length

/-- The element that an item is at a place. -/
def placed (i : Item) (offset : ℕ) : Element :=
  ⟨i.tag, offset, offset + i.header.length, i.content.length, i.content⟩

/-- The tag number and the length of an item fit into the digits that a reader takes. -/
structure Readable (i : Item) : Prop where
  /-- The tag number has at most four digits. -/
  number_lt : i.tag.number < 2 ^ 28
  /-- The length has at most four digits. -/
  length_lt : i.content.length < 2 ^ 32

/-- The seven bits that the first octet of a length has for the number of its digits are enough for
the length of an item. -/
def Counted (i : Item) : Prop := (Octets.ofNat i.content.length).length < 128

instance : DecidablePred Counted := fun i =>
  inferInstanceAs (Decidable ((Octets.ofNat i.content.length).length < 128))

/-- A reader takes far fewer digits than can be counted. -/
lemma Readable.counted {i : Item} (h : i.Readable) : i.Counted := by
  have hdigits : (Octets.ofNat i.content.length).length ≤ 4 :=
    Octets.length_ofNat_le_iff.mpr (by simpa using h.length_lt)
  exact hdigits.trans_lt (by decide)

/-- The octets of an item are its header and its content. -/
lemma octets_eq (i : Item) : i.octets = i.header ++ i.content := rfl

/-- A placed item has its tag. -/
@[simp] lemma tag_placed (i : Item) (o : ℕ) : (i.placed o).tag = i.tag := rfl

/-- A placed item has its content. -/
@[simp] lemma content_placed (i : Item) (o : ℕ) : (i.placed o).content = i.content := rfl

/-- A placed item states the length of its content. -/
@[simp] lemma length_placed (i : Item) (o : ℕ) : (i.placed o).length = i.content.length := rfl

/-- The region inside an item has all its bytes. -/
@[simp] lemma inside_placed (i : Item) (o : ℕ) :
    (i.placed o).inside = ⟨o + i.header.length, i.content, 0⟩ := by
  simp [Element.inside, Item.placed]

/-- An item ends as much further on as it has octets. -/
lemma stop_placed (i : Item) (o : ℕ) : (i.placed o).stop = o + i.octets.length := by
  rw [octets_eq, List.length_append, ← Nat.add_assoc]
  rfl

/-- A header has an identifier and a length. -/
lemma two_le_length_header (i : Item) : 2 ≤ i.header.length := by
  have htag := i.tag.length_encode_pos
  have hlength := Length.length_encode_pos i.content.length
  rw [header, List.length_append]
  omega

/-- No item is without octets. -/
lemma octets_ne_nil (i : Item) : i.octets ≠ [] := by
  have h := two_le_length_header i
  rw [octets_eq, Ne, ← List.length_eq_zero_iff, List.length_append]
  omega

/-- The octets of some items, one after another. -/
def join (items : List Item) : Octets := (items.map octets).flatten

/-- No items have no octets. -/
@[simp] lemma join_nil : join [] = [] := rfl

/-- The octets of some items begin with those of the first one. -/
@[simp] lemma join_cons (i : Item) (items : List Item) :
    join (i :: items) = i.octets ++ join items := rfl

/-- The octets of an item tell where it ends. -/
theorem Counted.append_inj {i j : Item} (hi : i.Counted) (hj : j.Counted) {a b : Octets}
    (h : i.octets ++ a = j.octets ++ b) : i = j ∧ a = b := by
  simp only [octets_eq, header, List.append_assoc] at h
  obtain ⟨htag, h⟩ := Tag.encode_append_inj h
  obtain ⟨hlength, h⟩ := Length.encode_append_inj hi hj h
  obtain ⟨hcontent, hrest⟩ := List.append_inj h hlength
  refine ⟨?_, hrest⟩
  cases i
  cases j
  rw [Item.mk.injEq]
  exact ⟨htag, hcontent⟩

/-- No item is the beginning of another one. -/
theorem Counted.eq_of_isPrefix {i j : Item} (hi : i.Counted) (hj : j.Counted)
    (h : i.octets <+: j.octets) : i = j := by
  obtain ⟨rest, hrest⟩ := h
  rw [← List.append_nil j.octets] at hrest
  exact (hi.append_inj hj hrest).1

/-- Items with the same octets are the same. -/
lemma Counted.octets_injective {i j : Item} (hi : i.Counted) (hj : j.Counted)
    (h : i.octets = j.octets) : i = j :=
  hi.eq_of_isPrefix hj (h ▸ List.prefix_rfl)

/-- The octets of several items tell the items apart. -/
theorem Counted.join_injective {items items' : List Item} (h : ∀ i ∈ items, i.Counted)
    (h' : ∀ i ∈ items', i.Counted) (heq : join items = join items') : items = items' := by
  induction items generalizing items' with
  | nil =>
    cases items' with
    | nil => rfl
    | cons j items' => exact absurd (List.append_eq_nil_iff.mp heq.symm).1 (octets_ne_nil j)
  | cons i items ih =>
    cases items' with
    | nil => exact absurd (List.append_eq_nil_iff.mp heq).1 (octets_ne_nil i)
    | cons j items' =>
      obtain ⟨rfl, hrest⟩ :=
        (h i (List.mem_cons_self ..)).append_inj (h' j (List.mem_cons_self ..)) heq
      rw [ih (fun k hk => h k (List.mem_cons_of_mem _ hk))
        (fun k hk => h' k (List.mem_cons_of_mem _ hk)) hrest]

/-- The octets of a readable item tell where it ends. -/
theorem octets_append_inj {i j : Item} (hi : i.Readable) (hj : j.Readable) {a b : Octets}
    (h : i.octets ++ a = j.octets ++ b) : i = j ∧ a = b :=
  hi.counted.append_inj hj.counted h

/-- Readable items with the same octets are the same. -/
lemma octets_injective {i j : Item} (hi : i.Readable) (hj : j.Readable)
    (h : i.octets = j.octets) : i = j :=
  hi.counted.octets_injective hj.counted h

/-- The octets of several readable items tell the items apart. -/
theorem join_injective {items items' : List Item} (h : ∀ i ∈ items, i.Readable)
    (h' : ∀ i ∈ items', i.Readable) (heq : join items = join items') : items = items' :=
  Counted.join_injective (fun i hi => (h i hi).counted) (fun i hi => (h' i hi).counted) heq

end Item

namespace Cursor

/-- An element is read exactly where the octets of a readable item stand. -/
theorem element_eq_ok_iff {c c' : Cursor} (hc : c.missing = 0) {e : Element} :
    c.element = .ok (e, c') ↔
      ∃ i : Item, i.Readable ∧ c.Advances i.octets c' ∧ e = i.placed c.offset := by
  constructor
  · intro h
    obtain ⟨⟨t, c₁⟩, htag, h⟩ := bind_eq_ok_iff.mp h
    obtain ⟨⟨n, c₂⟩, hlength, h⟩ := bind_eq_ok_iff.mp h
    obtain ⟨hnumber, hadv₁⟩ := Tag.read_eq_ok_iff.mp htag
    have hc₁ : c₁.missing = 0 := by rw [hadv₁.missing, hc]
    obtain ⟨hlt, hadv₂⟩ := (Length.read_eq_ok_iff hc₁).mp hlength
    have hc₂ : c₂.missing = 0 := by rw [hadv₂.missing, hc₁]
    simp only at h
    split at h
    · cases h
    next content after hsplit =>
      obtain ⟨rfl, rfl⟩ := Prod.mk.inj (Except.ok.inj h)
      obtain ⟨rfl, hadv₃⟩ := (split?_eq_some_iff hc₂).mp hsplit
      refine ⟨⟨t, content⟩, ⟨hnumber, hlt⟩, (hadv₁.trans hadv₂).trans hadv₃, ?_⟩
      have hstart : c₂.offset = c.offset + (Item.mk t content).header.length := by
        rw [hadv₂.offset, hadv₁.offset, Item.header, List.length_append, Nat.add_assoc]
      rw [hstart]
      rfl
  · intro h
    rcases h with ⟨i, ⟨hnumber, hlt⟩, hadv, rfl⟩
    obtain ⟨hheader, hcontent⟩ := Advances.split (a := i.header) hadv
    obtain ⟨htag, hlength⟩ := Advances.split hheader
    have hread₁ := Tag.read_eq_ok_iff.mpr ⟨hnumber, htag⟩
    have hread₂ := (Length.read_eq_ok_iff
      (c := ⟨_, Length.encode i.content.length ++ (i.content ++ c'.bytes), c.missing⟩) hc).mpr
        ⟨hlt, hlength⟩
    have hread₃ := (split?_eq_some_iff (c := ⟨_, i.content ++ c'.bytes, c.missing⟩) hc).mpr
      ⟨rfl, hcontent⟩
    unfold Cursor.element
    rw [hread₁, ok_bind]
    simp only
    rw [hread₂, ok_bind]
    simp only [hread₃, pure_eq_ok]
    rfl

/-- An item is seen at its first place, whatever follows it. -/
lemma element_octets_append {i : Item} (hi : i.Readable) (o : ℕ) (rest : Octets) :
    (⟨o, i.octets ++ rest, 0⟩ : Cursor).element =
      .ok (i.placed o, ⟨o + i.octets.length, rest, 0⟩) :=
  (element_eq_ok_iff rfl).mpr ⟨i, hi, Advances.ofAppend .., rfl⟩

/-- A reader that goes on after a readable item goes on with its value and with what follows it. -/
lemma read_octets_bind {α β : Type} {i : Item} (hi : i.Readable) (o : ℕ) (rest : Octets)
    (interpret : Element → Except Fault α) (next : α × Cursor → Except Fault β) :
    ((⟨o, i.octets ++ rest, 0⟩ : Cursor).read interpret >>= next) =
      interpret (i.placed o) >>= fun v => next (v, ⟨o + i.octets.length, rest, 0⟩) := by
  unfold Cursor.read
  rw [element_octets_append hi, ok_bind, bind_assoc]
  rfl

/-- An interpreter that reads at a cursor sees one item. -/
lemma read_eq_ok_iff {α : Type} {interpret : Element → Except Fault α} {c c' : Cursor}
    (hc : c.missing = 0) {v : α} :
    c.read interpret = .ok (v, c') ↔
      ∃ i : Item, i.Readable ∧ c.Advances i.octets c' ∧ interpret (i.placed c.offset) = .ok v := by
  unfold Cursor.read
  rw [bind_eq_ok_iff]
  constructor
  · rintro ⟨⟨e, c₁⟩, helement, h⟩
    obtain ⟨i, hi, hadv, rfl⟩ := (element_eq_ok_iff hc).mp helement
    obtain ⟨w, hw, h⟩ := bind_eq_ok_iff.mp h
    obtain ⟨rfl, rfl⟩ := Prod.mk.inj (Except.ok.inj h)
    exact ⟨i, hi, hadv, hw⟩
  · rintro ⟨i, hi, hadv, hv⟩
    refine ⟨(i.placed c.offset, c'), (element_eq_ok_iff hc).mpr ⟨i, hi, hadv, rfl⟩, ?_⟩
    simp only [hv, ok_bind, pure_eq_ok]

/-- A reader that goes on after one item sees the item and then what follows it. -/
lemma read_bind_eq_ok_iff {α β : Type} {interpret : Element → Except Fault α} {o : ℕ} {a : Octets}
    {next : α × Cursor → Except Fault β} {b : β} :
    ((⟨o, a, 0⟩ : Cursor).read interpret >>= next) = .ok b ↔
      ∃ (i : Item) (rest : Octets) (v : α), i.Readable ∧ a = i.octets ++ rest ∧
        interpret (i.placed o) = .ok v ∧ next (v, ⟨o + i.octets.length, rest, 0⟩) = .ok b := by
  rw [bind_eq_ok_iff]
  constructor
  · intro h
    rcases h with ⟨⟨v, ⟨o', rest, m⟩⟩, hread, hnext⟩
    obtain ⟨i, hi, hadv, hv⟩ := (read_eq_ok_iff rfl).mp hread
    obtain rfl : o' = o + i.octets.length := hadv.offset
    obtain rfl : m = 0 := hadv.missing
    exact ⟨i, rest, v, hi, hadv.bytes, hv, hnext⟩
  · intro h
    rcases h with ⟨i, rest, v, hi, rfl, hv, hnext⟩
    exact ⟨_, (read_eq_ok_iff rfl).mpr ⟨i, hi, Advances.ofAppend .., hv⟩, hnext⟩

/-- Nothing is left where no byte is left and none is missing. -/
@[simp] lemma atEnd_nil (o : ℕ) : (⟨o, [], 0⟩ : Cursor).atEnd = true := rfl

/-- A region without missing bytes is at its end when no byte is left. -/
lemma atEnd_iff_bytes {c : Cursor} (hc : c.missing = 0) : c.atEnd = true ↔ c.bytes = [] := by
  rw [atEnd_iff, room, hc, Nat.add_zero, List.length_eq_zero_iff]

/-- A reader that goes on only if one item was the last one sees just this item. -/
lemma read_last_eq_ok_iff {α β : Type} {interpret : Element → Except Fault α} {o : ℕ} {a : Octets}
    {cause : Malformation} {next : α × Cursor → Except Fault β} {b : β} :
    ((⟨o, a, 0⟩ : Cursor).read interpret >>= fun p =>
        if p.2.atEnd then next p else malformedAt p.2.offset cause) = .ok b ↔
      ∃ (i : Item) (v : α), i.Readable ∧ a = i.octets ∧ interpret (i.placed o) = .ok v ∧
        next (v, ⟨o + i.octets.length, [], 0⟩) = .ok b := by
  rw [read_bind_eq_ok_iff]
  constructor
  · rintro ⟨i, rest, v, hi, rfl, hv, hnext⟩
    simp only at hnext
    split at hnext
    next hend =>
      obtain rfl : rest = [] := (atEnd_iff_bytes rfl).mp hend
      exact ⟨i, v, hi, List.append_nil _, hv, hnext⟩
    · cases hnext
  · rintro ⟨i, v, hi, rfl, hv, hnext⟩
    exact ⟨i, [], v, hi, (List.append_nil _).symm, hv, hnext⟩

end Cursor

namespace Item

/-- The elements that some items are when they stand one after another. -/
def layout (o : ℕ) : List Item → List Element
  | [] => []
  | i :: items => i.placed o :: layout (o + i.octets.length) items

/-- No items make no elements. -/
@[simp] lemma layout_nil (o : ℕ) : layout o [] = [] := rfl

/-- The first item stands where the layout begins, and the others behind it. -/
@[simp] lemma layout_cons (o : ℕ) (i : Item) (items : List Item) :
    layout o (i :: items) = i.placed o :: layout (o + i.octets.length) items := rfl

/-- A layout that has an element has an item for it. -/
lemma layout_eq_cons {o : ℕ} {items : List Item} {e : Element} {es : List Element}
    (h : layout o items = e :: es) :
    ∃ i rest, items = i :: rest ∧ e = i.placed o ∧ layout (o + i.octets.length) rest = es := by
  cases items with
  | nil => cases h
  | cons i rest =>
    obtain ⟨rfl, rfl⟩ := List.cons.inj h
    exact ⟨i, rest, rfl, rfl, rfl⟩

/-- A layout without elements has no items. -/
lemma layout_eq_nil {o : ℕ} {items : List Item} (h : layout o items = []) : items = [] := by
  cases items with
  | nil => rfl
  | cons i rest => cases h

/-- What does not depend on places can be read off the items. -/
lemma map_layout {α : Type} {f : Element → α} {g : Item → α} (h : ∀ i o, f (i.placed o) = g i)
    (o : ℕ) (items : List Item) : (layout o items).map f = items.map g := by
  induction items generalizing o with
  | nil => rfl
  | cons i items ih => rw [layout_cons, List.map_cons, List.map_cons, h, ih]

/-- The tags and the contents of the elements are those of the items. -/
lemma map_mk_layout (o : ℕ) (items : List Item) :
    (layout o items).map (fun e => Item.mk e.tag e.content) = items :=
  (map_layout (g := id) (fun _ _ => rfl) o items).trans (List.map_id items)

/-- There are as many elements as items. -/
lemma length_layout (o : ℕ) (items : List Item) :
    (layout o items).length = items.length := by
  induction items generalizing o with
  | nil => rfl
  | cons i items ih => rw [layout_cons, List.length_cons, List.length_cons, ih]

/-- Each of these elements is one of the items. -/
lemma exists_of_mem_layout {o : ℕ} {items : List Item} {e : Element} (h : e ∈ layout o items) :
    ∃ i ∈ items, ∃ o', e = i.placed o' := by
  induction items generalizing o with
  | nil => cases h
  | cons i items ih =>
    rcases List.mem_cons.mp h with rfl | h
    · exact ⟨i, List.mem_cons_self .., o, rfl⟩
    · obtain ⟨j, hj, hplaced⟩ := ih h
      exact ⟨j, List.mem_cons_of_mem _ hj, hplaced⟩

/-- An item is no longer than all of them together. -/
lemma length_octets_le_join {i : Item} {items : List Item} (h : i ∈ items) :
    i.octets.length ≤ (join items).length := by
  induction items with
  | nil => cases h
  | cons j items ih =>
    rw [join_cons, List.length_append]
    rcases List.mem_cons.mp h with rfl | h
    · omega
    · have := ih h
      omega

/-- Each of some items takes two octets or more. -/
lemma two_mul_length_le_join (items : List Item) : 2 * items.length ≤ (join items).length := by
  induction items with
  | nil => exact le_rfl
  | cons i items ih =>
    have htwo := two_le_length_header i
    rw [join_cons, octets_eq, List.length_cons, List.length_append, List.length_append]
    omega

/-- Items in a content whose length can be read can be read themselves, if their tags can. -/
lemma readable_of_join {items : List Item} (hnumber : ∀ i ∈ items, i.tag.number < 2 ^ 28)
    (hlength : (join items).length < 2 ^ 32) : ∀ i ∈ items, i.Readable := by
  intro i hi
  refine ⟨hnumber i hi, ?_⟩
  have hle := length_octets_le_join hi
  rw [octets_eq, List.length_append] at hle
  omega

end Item

namespace Cursor

/-- The walk through some items sees just them. -/
lemma walk_join {items : List Item} (h : ∀ i ∈ items, i.Readable) (o : ℕ) :
    (⟨o, Item.join items, 0⟩ : Cursor).walk = ⟨Item.layout o items, none⟩ := by
  induction items generalizing o with
  | nil => exact walk_of_atEnd rfl
  | cons i items ih =>
    have hi : i.Readable := h i (List.mem_cons_self ..)
    have hread := element_octets_append hi o (Item.join items)
    have hend : (⟨o, Item.join (i :: items), 0⟩ : Cursor).atEnd = false := by
      rw [Bool.eq_false_iff, Ne, atEnd_iff_bytes rfl]
      intro hnil
      exact Item.octets_ne_nil i (List.append_eq_nil_iff.mp hnil).1
    rw [walk_of_ok hend hread, ih fun j hj => h j (List.mem_cons_of_mem _ hj)]
    rfl

/-- A walk sees items that stand one after another, up to the end of its region or to a place where
no item stands. -/
theorem exists_items_of_walk {c : Cursor} (hc : c.missing = 0) :
    ∃ (items : List Item) (after : Cursor), (∀ i ∈ items, i.Readable) ∧
      c.Advances (Item.join items) after ∧ c.walk.elements = Item.layout c.offset items ∧
        (c.walk.fault = none ↔ after.bytes = []) := by
  induction hn : c.bytes.length using Nat.strongRecOn generalizing c with
  | ind n ih =>
    by_cases hend : c.atEnd = true
    · refine ⟨[], c, by simp, ⟨rfl, rfl, rfl⟩, ?_⟩
      rw [walk_of_atEnd hend]
      exact ⟨rfl, iff_of_true rfl ((atEnd_iff_bytes hc).mp hend)⟩
    · have hne : c.bytes ≠ [] := mt (atEnd_iff_bytes hc).mpr hend
      rw [Bool.not_eq_true] at hend
      cases hread : c.element with
      | error fault =>
        refine ⟨[], c, by simp, ⟨rfl, rfl, rfl⟩, ?_⟩
        rw [walk_of_error hend hread]
        exact ⟨rfl, iff_of_false (by simp) hne⟩
      | ok taken =>
        obtain ⟨e, rest⟩ := taken
        have hshorter := bytes_length_of_element hread
        obtain ⟨i, hi, hadv, rfl⟩ := (element_eq_ok_iff hc).mp hread
        obtain ⟨items, after, hitems, hrest, helements, hfault⟩ :=
          ih _ (hn ▸ hshorter) (hadv.missing.trans hc) rfl
        rw [walk_of_ok hend hread]
        refine ⟨i :: items, after, List.forall_mem_cons.mpr ⟨hi, hitems⟩, hadv.trans hrest, ?_,
          hfault⟩
        rw [helements, hadv.offset, Item.layout_cons]

/-- A walk that reaches the end of its region has seen items, and the region is made of them. -/
theorem walk_eq_iff {c : Cursor} (hc : c.missing = 0) {elements : List Element} :
    c.walk = ⟨elements, none⟩ ↔
      ∃ items : List Item, (∀ i ∈ items, i.Readable) ∧ c.bytes = Item.join items ∧
        elements = Item.layout c.offset items := by
  constructor
  · intro h
    obtain ⟨items, after, hitems, hadv, helements, hfault⟩ := exists_items_of_walk hc
    rw [h] at helements hfault
    refine ⟨items, hitems, ?_, helements⟩
    rw [hadv.bytes, hfault.mp rfl, List.append_nil]
  · intro h
    rcases h with ⟨items, hitems, hbytes, rfl⟩
    have hc' : c = ⟨c.offset, Item.join items, 0⟩ := by
      cases c
      simp_all
    rw [hc', walk_join hitems]

/-- The elements of a region, if it is made of elements. -/
lemma complete_walk_eq_ok_iff {c : Cursor} (hc : c.missing = 0) {elements : List Element} :
    c.walk.complete = .ok elements ↔
      ∃ items : List Item, (∀ i ∈ items, i.Readable) ∧ c.bytes = Item.join items ∧
        elements = Item.layout c.offset items := by
  rw [← walk_eq_iff hc]
  generalize c.walk = w
  obtain ⟨es, _ | fault⟩ := w <;> simp [Walk.complete]

/-- A loop over a region gives a value exactly if the region is made of items and the loop over
them gives it. -/
lemma foldlM_walk_eq_ok_iff {σ : Type} {step : σ → Element → Except Fault σ} {c : Cursor}
    (hc : c.missing = 0) {s t : σ} :
    c.walk.foldlM step s = .ok t ↔
      ∃ items : List Item, (∀ i ∈ items, i.Readable) ∧ c.bytes = Item.join items ∧
        (Item.layout c.offset items).foldlM step s = .ok t := by
  have hloop : c.walk.foldlM step s = .ok t ↔
      ∃ elements, c.walk = ⟨elements, none⟩ ∧ elements.foldlM step s = .ok t := by
    generalize c.walk = w
    obtain ⟨es, _ | fault⟩ := w <;> simp [Walk.foldlM, bind_eq_ok_iff]
  rw [hloop]
  constructor
  · rintro ⟨elements, hwalk, hfold⟩
    obtain ⟨items, hitems, hbytes, rfl⟩ := (walk_eq_iff hc).mp hwalk
    exact ⟨items, hitems, hbytes, hfold⟩
  · intro h
    rcases h with ⟨items, hitems, hbytes, hfold⟩
    exact ⟨_, (walk_eq_iff hc).mpr ⟨items, hitems, hbytes, rfl⟩, hfold⟩

end Cursor

end AttestedKey.Der
