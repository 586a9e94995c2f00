import AttestedKey.OrderedSet
import AttestedKey.Proofs.Der.Value
import AttestedKey.Proofs.OrderedSet

/-!
# Items made of items

`Item.split` cuts a content into the items that it is made of, and `Item.parts` the content of an
item.  A content that is a concatenation of readable items is cut into just them
(`Item.split_join`).  A loop that collects the members of a set from the items of a region accepts
the items of distinct members, in any order (`collect_eq_ok_iff`).  Two facts about lengths close
the file: items with one tag and the same octets have the same content, and a content at most twice
as long makes an item at most twice as long.
-/

namespace AttestedKey.Der

open Outcome

namespace Item

/-! ### Cutting a content into items -/

/-- The items that a content is made of, up to the first octets that make none. -/
def split (content : Octets) : List Item :=
  (⟨0, content, 0⟩ : Cursor).walk.elements.map fun e => ⟨e.tag, e.content⟩

/-- The items that an item is made of. -/
def parts (i : Item) : List Item := split i.content

/-- Readable items that stand one after another are found again. -/
theorem split_join {items : List Item} (h : ∀ i ∈ items, i.Readable) :
    split (join items) = items := by
  unfold split
  rw [Cursor.walk_join h]
  exact map_mk_layout 0 items

/-- The parts of a sequence are the items that it was made of. -/
lemma parts_sequence {items : List Item} (h : ∀ i ∈ items, i.Readable) :
    (sequence items).parts = items := split_join h

/-- The parts of a set are the items that it was made of. -/
lemma parts_set {items : List Item} (h : ∀ i ∈ items, i.Readable) :
    (set items).parts = items := split_join h

/-- The octets of one item split into this item. -/
lemma split_octets {i : Item} (h : i.Readable) : split i.octets = [i] := by
  have hsplit : split (join [i]) = [i] := split_join (by simpa using h)
  rwa [join_cons, join_nil, List.append_nil] at hsplit

/-- The one part of a wrapper is what it holds. -/
lemma parts_explicit {n : ℕ} {i : Item} (h : i.Readable) : (explicit n i).parts = [i] :=
  split_octets h

/-- The members of a readable item of a universal type are readable if their tags are. -/
lemma readable_of_ofType_join {type : Universal} {items : List Item}
    (hi : (ofType type (join items)).Readable) (hnumber : ∀ i ∈ items, i.tag.number < 2 ^ 28) :
    ∀ i ∈ items, i.Readable :=
  readable_of_join hnumber hi.length_lt

/-- The items of some values are readable if together they make a readable item. -/
lemma readable_of_ofType_map {α : Type} {type : Universal} {form : α → Item} {l : List α}
    (hi : (ofType type (join (l.map form))).Readable)
    (hnumber : ∀ a ∈ l, (form a).tag.number < 2 ^ 28) : ∀ a ∈ l, (form a).Readable := by
  have hitems := readable_of_ofType_join hi (List.forall_mem_map.mpr hnumber)
  exact fun a ha => hitems _ (List.mem_map_of_mem ha)

/-- Two items of universal types are readable if together they make a readable item. -/
lemma readable_of_ofType_pair {type first second : Universal} {a b : Octets}
    (hi : (ofType type (join [ofType first a, ofType second b])).Readable) :
    (ofType first a).Readable ∧ (ofType second b).Readable := by
  have hitems : ∀ i ∈ [ofType first a, ofType second b], i.Readable := by
    refine readable_of_ofType_join hi fun i hmem => ?_
    rcases List.mem_pair.mp hmem with rfl | rfl
    · exact number_lt_of_ofType first a
    · exact number_lt_of_ofType second b
  simpa using hitems

/-- A set whose members are sorted is a given set exactly if that one is in order. -/
lemma set_sort_eq_iff {items items' : List Item} (h : ∀ i ∈ items', i.Readable)
    (hperm : items.Perm items') : set (sort items) = set items' ↔ Ascending items' := by
  have hsorted : ∀ i ∈ sort items, i.Readable :=
    fun i hi => h i (hperm.mem_iff.mp (mem_sort.mp hi))
  rw [← sort_eq_iff (fun i hi => (h i hi).counted) hperm]
  constructor
  · intro heq
    rw [← parts_set hsorted, heq, parts_set h]
  · intro heq
    rw [heq]

/-- An item whose octets are few enough to be a content is readable if its tag is. -/
lemma readable_of_octets {i : Item} (hnumber : i.tag.number < 2 ^ 28)
    (hlength : i.octets.length < 2 ^ 32) : i.Readable := by
  refine ⟨hnumber, ?_⟩
  rw [octets_eq, List.length_append] at hlength
  omega

/-! ### The same octets and longer contents -/

/-- An item is as long as its header and its content. -/
lemma length_octets (i : Item) :
    i.octets.length = i.header.length + i.content.length := by
  rw [octets_eq, List.length_append]

/-- A longer content has no shorter header. -/
lemma length_header_mono {t : Tag} {a b : Octets} (h : a.length ≤ b.length) :
    (Item.mk t a).header.length ≤ (Item.mk t b).header.length := by
  have hmono := Length.length_encode_mono h
  simp only [header, List.length_append]
  omega

/-- Contents of one length have headers of one length. -/
lemma length_header_eq {t : Tag} {a b : Octets} (h : a.length = b.length) :
    (Item.mk t a).header.length = (Item.mk t b).header.length := by
  rw [header, header, h]

/-- Items with one tag and contents of one length are equally long. -/
lemma length_octets_eq {t : Tag} {a b : Octets} (h : a.length = b.length) :
    (Item.mk t a).octets.length = (Item.mk t b).octets.length := by
  rw [length_octets, length_octets, length_header_eq h]
  exact congrArg _ h

/-- The order of its members does not change the length of a set. -/
lemma length_set_of_perm {items items' : List Item} (h : items.Perm items') :
    (set items).octets.length = (set items').octets.length :=
  length_octets_eq (length_join_of_perm h)

/-- Items with one tag and the same octets have the same content, however long it is. -/
theorem content_eq_of_octets_eq {t : Tag} {a b : Octets}
    (h : (Item.mk t a).octets = (Item.mk t b).octets) : a = b := by
  have hlength := congrArg List.length h
  rw [length_octets, length_octets] at hlength
  have hle : a.length = b.length := by
    rcases Nat.le_total a.length b.length with hab | hba
    · have := length_header_mono (t := t) hab
      simp only at hlength
      omega
    · have := length_header_mono (t := t) hba
      simp only at hlength
      omega
  rw [octets_eq, octets_eq, header, header] at h
  simp only [hle] at h
  exact List.append_cancel_left h

/-- A content of at most twice the length has at most twice the octets of length. -/
lemma length_encode_double {m n : ℕ} (h : m ≤ 2 * n) :
    (Length.encode m).length ≤ 2 * (Length.encode n).length := by
  have hdigits : (Octets.ofNat m).length ≤ (Octets.ofNat n).length + 1 := by
    have hn : n < 256 ^ (Octets.ofNat n).length := Octets.length_ofNat_le_iff.mp le_rfl
    rw [Octets.length_ofNat_le_iff, Nat.pow_succ]
    omega
  have hpos := Length.length_encode_pos n
  by_cases hm : m < 128
  · rw [Length.encode, if_pos hm, List.length_singleton]
    omega
  · unfold Length.encode
    rw [if_neg hm]
    split
    · have hm : (Octets.ofNat m).length ≤ 1 := by
        rw [Octets.length_ofNat_le_iff]
        omega
      simpa using hm
    · simp only [List.length_cons]
      omega

/-- A content at most twice as long makes an item at most twice as long. -/
theorem length_octets_double {t : Tag} {a b : Octets} (h : a.length ≤ 2 * b.length) :
    (Item.mk t a).octets.length ≤ 2 * (Item.mk t b).octets.length := by
  have hlength := length_encode_double h
  simp only [length_octets, header, List.length_append]
  omega

/-- Items each at most twice as long are together at most twice as long. -/
lemma length_join_map_double {α : Type} {f g : α → Item} {l : List α}
    (h : ∀ a ∈ l, (f a).octets.length ≤ 2 * (g a).octets.length) :
    (join (l.map f)).length ≤ 2 * (join (l.map g)).length := by
  induction l with
  | nil => simp
  | cons a l ih =>
    obtain ⟨ha, hl⟩ := List.forall_mem_cons.mp h
    have hrest := ih hl
    simp only [List.map_cons, join_cons, List.length_append]
    omega

end Item

/-! ### Collecting the members of a set -/

section Collect

variable {α : Type} [Ord α] [Std.TransOrd α] [Std.LawfulEqOrd α]

/-- A step that adds the value of an item to a set, unless the set has it, run over some items:
they are the items of distinct values outside the set. -/
lemma foldlM_collect_eq_ok_iff {step : OrderedSet α → Element → Except Fault (OrderedSet α)}
    {form : α → Item} {p : α → Prop}
    (hstep : ∀ (s t : OrderedSet α) (i : Item) (o : ℕ), i.Readable →
      (step s (i.placed o) = .ok t ↔ ∃ a, p a ∧ i = form a ∧ a ∉ s.toList ∧ t = s.insert a))
    {items : List Item} (hitems : ∀ i ∈ items, i.Readable) {o : ℕ} {s t : OrderedSet α} :
    (Item.layout o items).foldlM step s = .ok t ↔
      ∃ members : List α, (∀ a ∈ members, p a) ∧ items = members.map form ∧ members.Nodup ∧
        (∀ a ∈ members, a ∉ s.toList) ∧ t = members.foldl (fun s a => s.insert a) s := by
  induction items generalizing o s with
  | nil =>
    constructor
    · intro h
      exact ⟨[], by simp, rfl, .nil, by simp, (Except.ok.inj h).symm⟩
    · intro h
      rcases h with ⟨members, -, hform, -, -, rfl⟩
      rw [List.map_eq_nil_iff.mp hform.symm]
      rfl
  | cons i items ih =>
    obtain ⟨hi, hrest⟩ := List.forall_mem_cons.mp hitems
    rw [Item.layout_cons, foldlM_cons_eq_ok_iff]
    constructor
    · rintro ⟨s', hs', hfold⟩
      obtain ⟨a, ha, rfl, hnew, rfl⟩ := (hstep s s' i o hi).mp hs'
      obtain ⟨members, hp, rfl, hnodup, hout, rfl⟩ := (ih hrest).mp hfold
      refine ⟨a :: members, List.forall_mem_cons.mpr ⟨ha, hp⟩, rfl, ?_, ?_, rfl⟩
      · refine List.nodup_cons.mpr ⟨fun hmem => hout a hmem ?_, hnodup⟩
        exact OrderedSet.mem_insert.mpr (.inl rfl)
      · refine List.forall_mem_cons.mpr ⟨hnew, fun b hb hold => hout b hb ?_⟩
        exact OrderedSet.mem_insert.mpr (.inr hold)
    · intro h
      rcases h with ⟨members, hp, hform, hnodup, hout, rfl⟩
      obtain ⟨a, members, rfl, rfl, rfl⟩ := List.map_eq_cons_iff.mp hform.symm
      obtain ⟨ha, hp⟩ := List.forall_mem_cons.mp hp
      obtain ⟨hnew, hout⟩ := List.forall_mem_cons.mp hout
      obtain ⟨hfresh, hnodup⟩ := List.nodup_cons.mp hnodup
      refine ⟨s.insert a, (hstep s _ _ o hi).mpr ⟨a, ha, rfl, hnew, rfl⟩, ?_⟩
      refine (ih hrest).mpr ⟨members, hp, rfl, hnodup, fun b hb hold => ?_, rfl⟩
      rcases OrderedSet.mem_insert.mp hold with rfl | hold
      · exact hfresh hb
      · exact hout b hb hold

/-- From the empty set, the items of distinct values are collected, in any order. -/
theorem collect_eq_ok_iff {step : OrderedSet α → Element → Except Fault (OrderedSet α)}
    {form : α → Item} {p : α → Prop}
    (hstep : ∀ (s t : OrderedSet α) (i : Item) (o : ℕ), i.Readable →
      (step s (i.placed o) = .ok t ↔ ∃ a, p a ∧ i = form a ∧ a ∉ s.toList ∧ t = s.insert a))
    {o : ℕ} {content : Octets} {t : OrderedSet α} :
    (⟨o, content, 0⟩ : Cursor).walk.foldlM step .empty = .ok t ↔
      ∃ members : List α, members.Perm t.toList ∧ (∀ a ∈ members, p a) ∧
        (∀ a ∈ members, (form a).Readable) ∧ content = Item.join (members.map form) := by
  rw [Cursor.foldlM_walk_eq_ok_iff rfl]
  constructor
  · intro h
    rcases h with ⟨items, hitems, hcontent, hfold⟩
    obtain ⟨members, hp, rfl, hnodup, -, rfl⟩ := (foldlM_collect_eq_ok_iff hstep hitems).mp hfold
    refine ⟨members, (OrderedSet.toList_ofList_perm hnodup).symm, hp, ?_, hcontent⟩
    exact fun a ha => hitems _ (List.mem_map_of_mem ha)
  · intro h
    rcases h with ⟨members, hperm, hp, hread, rfl⟩
    have hitems : ∀ i ∈ members.map form, i.Readable := by
      simpa only [List.forall_mem_map] using hread
    refine ⟨members.map form, hitems, rfl, ?_⟩
    refine (foldlM_collect_eq_ok_iff hstep hitems).mpr ⟨members, hp, rfl, ?_, ?_, ?_⟩
    · exact hperm.nodup_iff.mpr (OrderedSet.nodup_toList t)
    · intro a _ hold
      cases hold
    · rw [← OrderedSet.ofList_toList t, ← OrderedSet.ofList_eq_of_perm hperm]
      rfl

end Collect

end AttestedKey.Der
