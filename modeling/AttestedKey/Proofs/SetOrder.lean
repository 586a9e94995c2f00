import AttestedKey.Argument.Write
import AttestedKey.Proofs.Der.Collection

/-!
# The order of the members of a set

The members of a SET OF stand in ascending order of their octets, where the shorter one of two
members is compared as if it had zeros at its end (`Octets.PaddedLE`).  Sorting compares them as
they are, with a proper beginning first.  The two orders differ only between some octets and the
same octets with zeros behind them (`Octets.paddedLE_iff`): sorting puts the shorter ones first, and
padding puts neither first.

So sorted parts are in the order of a SET OF, whatever they are (`WritesAscending`).  No item is the
beginning of another one, and so both orders are the same for items: a list of items has just one
arrangement in the order of a SET OF, and this is what is written (`HasOneOrder`).
-/

namespace AttestedKey

open Der Outcome

namespace Octets

/-- Some octets do not come after other ones when the shorter ones are padded with zeros at their
end. -/
def PaddedLE (a b : Octets) : Prop :=
  (compare (a.rightpad b.length 0) (b.rightpad a.length 0)).isLE = true

instance : DecidableRel PaddedLE := fun a b =>
  inferInstanceAs
    (Decidable ((compare (a.rightpad b.length 0) (b.rightpad a.length 0)).isLE = true))

/-- The first octets that differ decide. -/
lemma isLE_compare_cons {x y : UInt8} {a b : Octets} :
    (compare (x :: a) (y :: b)).isLE = true ↔ x < y ∨ x = y ∧ (compare a b).isLE = true := by
  rw [List.compare_cons_cons]
  cases hxy : compare x y with
  | lt =>
    have hlt : x < y := Std.compare_eq_lt.mp hxy
    simp [hlt]
  | eq =>
    obtain rfl := Std.LawfulEqOrd.eq_of_compare hxy
    simp [UInt8.lt_irrefl]
  | gt =>
    have hgt : y < x := Std.compare_eq_gt.mp hxy
    have hne : x ≠ y := (UInt8.ne_of_lt hgt).symm
    simp [UInt8.lt_asymm hgt, hne]

/-- The first octets decide, or else the others do. -/
lemma paddedLE_cons {x y : UInt8} {a b : Octets} :
    PaddedLE (x :: a) (y :: b) ↔ x < y ∨ x = y ∧ PaddedLE a b := by
  have hpad (z : UInt8) (c d : Octets) :
      (z :: c).rightpad (d.length + 1) 0 = z :: c.rightpad d.length 0 := by
    simp [List.rightpad]
  unfold PaddedLE
  rw [List.length_cons, List.length_cons, hpad, hpad, isLE_compare_cons]

/-- Nothing comes before zeros. -/
lemma isLE_compare_replicate (a : Octets) :
    (compare (List.replicate a.length 0) a).isLE = true := by
  induction a with
  | nil => rfl
  | cons x a ih =>
    rw [List.length_cons, List.replicate_succ, isLE_compare_cons]
    rcases UInt8.lt_or_eq_of_le (UInt8.zero_le : 0 ≤ x) with hx | hx
    · exact .inl hx
    · exact .inr ⟨hx, ih⟩

/-- Nothing comes before everything. -/
lemma nil_paddedLE (b : Octets) : PaddedLE [] b := by
  have hzeros := isLE_compare_replicate b
  simpa [PaddedLE, List.rightpad] using hzeros

/-- Only zeros are padded like nothing. -/
lemma paddedLE_nil_iff {a : Octets} : PaddedLE a [] ↔ ∃ n, a = List.replicate n 0 := by
  have hpad : PaddedLE a [] ↔ (compare a (List.replicate a.length 0)).isLE = true := by
    simp [PaddedLE, List.rightpad]
  rw [hpad]
  constructor
  · intro h
    refine ⟨a.length, Std.LawfulEqOrd.eq_of_compare ?_⟩
    exact Std.OrientedCmp.isLE_antisymm h (isLE_compare_replicate a)
  · rintro ⟨n, rfl⟩
    rw [List.length_replicate]
    exact Std.ReflCmp.isLE_rfl

/-- Padding changes the order only between some octets and the same octets with zeros behind
them. -/
theorem paddedLE_iff {a b : Octets} :
    PaddedLE a b ↔ (compare a b).isLE = true ∨ ∃ n, a = b ++ List.replicate n 0 := by
  -- On both strings together, since they are compared octet by octet.
  induction a generalizing b with
  | nil =>
    have hle : (compare [] b).isLE = true := by cases b <;> rfl
    exact iff_of_true (nil_paddedLE b) (.inl hle)
  | cons x a ih =>
    cases b with
    | nil =>
      have hgt : ¬ (compare (x :: a) []).isLE = true := by
        rw [List.compare_cons_nil]
        decide
      rw [paddedLE_nil_iff, or_iff_right hgt]
      rfl
    | cons y b =>
      have hcons (n : ℕ) : x :: a = y :: b ++ List.replicate n 0 ↔
          x = y ∧ a = b ++ List.replicate n 0 := by
        rw [List.cons_append, List.cons.injEq]
      simp only [paddedLE_cons, isLE_compare_cons, ih, hcons, exists_and_left, and_or_left,
        or_assoc]

/-- One of these strings is the other one with a zero behind it. -/
example : PaddedLE [1, 0] [1] ∧ ¬ (compare ([1, 0] : Octets) [1]).isLE = true := by decide

end Octets

/-! ### Parts of any kind -/

/-- A collection of parts is accepted as that of a set. -/
lemma Writer.write_set (parts : List Octets) :
    Writer.set.write [.list (parts.map .octets)] = .ok (encodeSet parts) := by
  have hparts := mapM_map_eq_ok (f := Argument.octets) (g := Argument.toPart) (fun _ => rfl) parts
  simp only [write, Argument.items, Argument.items?, ok_bind, hparts, pure_eq_ok]

/-- The parts of a SET OF are written in its order. -/
structure WritesAscending (parts : List Octets) : Prop where
  /-- The writer of sets accepts a collection of them. -/
  accepted : Writer.set.write [.list (parts.map .octets)] = .ok (encodeSet parts)
  /-- The content consists of the parts, each as often as it is given, in ascending order. -/
  content : ∃ members : List Octets, members.Perm parts ∧ members.Pairwise Octets.PaddedLE ∧
    encodeSet parts = Der.encode Universal.set.tag members.flatten
  /-- The order in which the parts are given does not matter. -/
  same : ∀ {parts' : List Octets}, parts'.Perm parts → encodeSet parts' = encodeSet parts

/-- Whatever is written as a set is written in ascending order. -/
lemma writesAscending (parts : List Octets) : WritesAscending parts := by
  refine ⟨Writer.write_set parts, ⟨sortedParts parts, sortedParts_perm parts, ?_, rfl⟩,
    encodeSet_eq_of_perm⟩
  apply (sortedParts_ascending parts).imp
  intro a b hab
  exact Octets.paddedLE_iff.mpr (.inl hab)

/-! ### Items -/

namespace Der.Item

variable {i j : Item} {items : List Item}

/-- Padding does not change the order of items, since none is the beginning of another one. -/
lemma Counted.paddedLE_iff (hi : i.Counted) (hj : j.Counted) :
    Octets.PaddedLE i.octets j.octets ↔ le i j = true := by
  rw [Octets.paddedLE_iff]
  constructor
  -- Zeros behind the octets of an item would make it the beginning of another one.
  · rintro (hle | ⟨n, hzeros⟩)
    · exact hle
    · obtain rfl := hj.eq_of_isPrefix hi ⟨_, hzeros.symm⟩
      exact Std.ReflCmp.isLE_rfl
  · exact .inl

/-- Items are in the order of a SET OF exactly if they are sorted. -/
lemma isChain_paddedLE_iff (h : ∀ i ∈ items, i.Counted) :
    (items.map octets).IsChain Octets.PaddedLE ↔ Ascending items := by
  rw [List.isChain_map, ascending_iff_isChain]
  constructor
  · apply List.IsChain.imp_of_mem_imp
    intro i j hi hj
    exact ((h i hi).paddedLE_iff (h j hj)).mp
  · apply List.IsChain.imp_of_mem_imp
    intro i j hi hj
    exact ((h i hi).paddedLE_iff (h j hj)).mpr

/-- Sets of items are written alike exactly if they have the same members, each as often. -/
lemma encodeSet_eq_iff {items' : List Item} (h : ∀ i ∈ items, i.Counted)
    (h' : ∀ i ∈ items', i.Counted) :
    encodeSet (items.map octets) = encodeSet (items'.map octets) ↔ items.Perm items' := by
  constructor
  · intro hset
    rw [encodeSet_eq, encodeSet_eq] at hset
    have hjoin : join (sort items) = join (sort items') := content_eq_of_octets_eq hset
    have hsort : sort items = sort items' := by
      apply Counted.join_injective _ _ hjoin
      · intro i hi
        exact h i (mem_sort.mp hi)
      · intro i hi
        exact h' i (mem_sort.mp hi)
    have hperm : items.Perm (sort items) := (sort_perm items).symm
    rw [hsort] at hperm
    exact hperm.trans (sort_perm items')
  · intro hperm
    exact encodeSet_eq_of_perm (hperm.map octets)

end Der.Item

/-- Some items have one arrangement as the members of a SET OF. -/
structure HasOneOrder (items : List Item) : Prop where
  /-- None of the items is the beginning of a different one. -/
  prefix_free : ∀ i ∈ items, ∀ j ∈ items, i.octets <+: j.octets → i = j
  /-- Padding does not change their order. -/
  padded_iff : ∀ i ∈ items, ∀ j ∈ items,
    (Octets.PaddedLE i.octets j.octets ↔ (compare i.octets j.octets).isLE = true)
  /-- The content is the arrangement in which consecutive members are in the order of a SET OF, and
  there is no other one. -/
  content : ∃ members : List Item, members.Perm items ∧
    encodeSet (items.map Item.octets) = (Item.set members).octets ∧
      ∀ {arrangement : List Item}, arrangement.Perm items →
        ((arrangement.map Item.octets).IsChain Octets.PaddedLE ↔ arrangement = members)
  /-- Other items are written alike exactly if they are the same ones, each as often. -/
  perm_iff : ∀ {items' : List Item}, (∀ i ∈ items', i.Counted) →
    (encodeSet (items'.map Item.octets) = encodeSet (items.map Item.octets) ↔ items'.Perm items)

/-- Complete items have one order in which they ascend. -/
lemma Der.Item.hasOneOrder {items : List Item} (h : ∀ i ∈ items, i.Counted) :
    HasOneOrder items := by
  refine ⟨?_, ?_, ⟨sort items, sort_perm items, encodeSet_eq items, ?_⟩, ?_⟩
  · intro i hi j hj hbegins
    exact (h i hi).eq_of_isPrefix (h j hj) hbegins
  · intro i hi j hj
    exact (h i hi).paddedLE_iff (h j hj)
  · intro arrangement hperm
    have hcounted : ∀ i ∈ arrangement, i.Counted := fun i hi => h i (hperm.mem_iff.mp hi)
    rw [isChain_paddedLE_iff hcounted, ← sort_eq_iff hcounted hperm.symm, eq_comm]
  · intro items' h'
    exact encodeSet_eq_iff h' h

/-- Sets are written in their order, and for items there is no other one. -/
theorem sets_ascending :
    (∀ parts : List Octets, WritesAscending parts) ∧
      ∀ {items : List Item}, (∀ i ∈ items, i.Counted) → HasOneOrder items :=
  ⟨writesAscending, Item.hasOneOrder⟩

/-- Four items whose identifiers and contents differ in length, the last one first. -/
def unsortedItems : List Item :=
  [⟨.explicit 574, [5, 0]⟩, .octetString [7], .octetString [], .ofType .integer [5]]

/-- Items that are given in another order are written in that of a SET OF. -/
theorem sets_ascending_unsortedItems :
    HasOneOrder unsortedItems ∧ encodeSet (unsortedItems.map Item.octets) =
      Der.encode Universal.set.tag [2, 1, 5, 4, 0, 4, 1, 7, 191, 132, 62, 2, 5, 0] := by
  obtain ⟨-, hitems⟩ := sets_ascending
  have horder : HasOneOrder unsortedItems := by
    apply hitems
    decide +kernel
  obtain ⟨members, -, hwritten, hone⟩ := horder.content
  have hmembers : unsortedItems.reverse = members :=
    (hone unsortedItems.reverse_perm).mp (by decide +kernel)
  have hjoin : Item.join unsortedItems.reverse =
      [2, 1, 5, 4, 0, 4, 1, 7, 191, 132, 62, 2, 5, 0] := by
    decide +kernel
  refine ⟨horder, ?_⟩
  rw [hwritten, ← hmembers, ← hjoin]
  rfl

end AttestedKey
