import AttestedKey.OrderedSet
import Mathlib.Tactic

/-!
# The members of ordered sets

An ordered set is determined by its members (`OrderedSet.ext_mem`), and the set of the items of a
list has exactly those items as members (`OrderedSet.mem_ofList`).  So neither the order of the
list nor a repetition matters, and a list without repetitions is a permutation of the members of
its set (`OrderedSet.toList_ofList_perm`).
-/

namespace AttestedKey

namespace OrderedSet

variable {α : Type} [Ord α] [Std.TransOrd α] [Std.LawfulEqOrd α]

omit [Std.TransOrd α] in
/-- Placing an item adds just this one. -/
lemma mem_place {a x : α} {items : List α} : x ∈ place a items ↔ x = a ∨ x ∈ items := by
  induction items with
  | nil => simp [place]
  | cons b rest ih =>
    unfold place
    split
    · simp
    next heq =>
      have hab : a = b := Std.LawfulEqOrd.eq_of_compare heq
      subst hab
      simp
    · rw [List.mem_cons, ih, List.mem_cons]
      tauto

/-- Inserting an item adds just this one. -/
lemma mem_insert {a x : α} {s : OrderedSet α} :
    x ∈ (s.insert a).toList ↔ x = a ∨ x ∈ s.toList := mem_place

/-- Inserting items one after another adds just these. -/
lemma mem_foldl_insert {x : α} {items : List α} {s : OrderedSet α} :
    x ∈ (items.foldl (fun s a => s.insert a) s).toList ↔ x ∈ items ∨ x ∈ s.toList := by
  induction items generalizing s with
  | nil => simp
  | cons a items ih =>
    rw [List.foldl_cons, ih, mem_insert, List.mem_cons]
    tauto

/-- The members of the set of a list are its items. -/
theorem mem_ofList {x : α} {items : List α} : x ∈ (ofList items).toList ↔ x ∈ items := by
  rw [ofList, mem_foldl_insert]
  simp [empty]

omit [Std.TransOrd α] in
/-- Looking for an item finds it if it is a member. -/
lemma contains_iff {s : OrderedSet α} {a : α} : s.contains a = true ↔ a ∈ s.toList := by
  simp only [contains, List.any_eq_true, beq_iff_eq, Std.LawfulEqOrd.compare_eq_iff_eq]
  constructor
  · rintro ⟨b, hb, rfl⟩
    exact hb
  · intro h
    exact ⟨a, h, rfl⟩

omit [Std.TransOrd α] in
/-- No member stands twice. -/
lemma nodup_toList (s : OrderedSet α) : s.toList.Nodup := by
  refine s.ascending.imp fun {a b} hlt => ?_
  rintro rfl
  rw [Std.ReflOrd.compare_self] at hlt
  cases hlt

omit [Std.TransOrd α] [Std.LawfulEqOrd α] in
/-- Sets with the same list of members are the same. -/
lemma eq_of_toList_eq {s t : OrderedSet α} (h : s.toList = t.toList) : s = t := by
  cases s
  cases t
  simpa using h

/-- Sets with the same members are the same. -/
theorem ext_mem {s t : OrderedSet α} (h : ∀ x, x ∈ s.toList ↔ x ∈ t.toList) : s = t := by
  have hperm := (List.perm_ext_iff_of_nodup (nodup_toList s) (nodup_toList t)).mpr h
  refine eq_of_toList_eq (hperm.eq_of_pairwise (fun a b _ _ hab hba => ?_) s.ascending t.ascending)
  rw [Std.OrientedOrd.eq_swap, hba] at hab
  cases hab

/-- A set is the set of its members. -/
lemma ofList_toList (s : OrderedSet α) : ofList s.toList = s :=
  ext_mem fun _ => mem_ofList

/-- A list without repetitions is the list of members of its set in another order. -/
lemma toList_ofList_perm {items : List α} (h : items.Nodup) :
    (ofList items).toList.Perm items :=
  (List.perm_ext_iff_of_nodup (nodup_toList _) h).mpr fun _ => mem_ofList

/-- The order in which items are inserted does not matter. -/
lemma ofList_eq_of_perm {l l' : List α} (h : l.Perm l') : ofList l = ofList l' :=
  ext_mem fun _ => by rw [mem_ofList, mem_ofList, h.mem_iff]

end OrderedSet

end AttestedKey
