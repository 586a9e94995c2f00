import AttestedKey.Proofs.Slice

/-!
# Outcomes apart from places

Two inputs that differ in the form of one element may be read alike although what follows the
element stands at another place.  `Elsewhere x y` says that two outcomes are the same value, or
faults that differ at most in their places.  It has a rule for a chain, and one for the loop over a
region, which comes to the same end wherever the region stands (`Elsewhere.foldlM_walk`).

A loop over a region that begins with some items goes through them first
(`Cursor.foldlM_walk_append`), so that loops over two such regions can be compared part by part.
-/

namespace AttestedKey

open Der Outcome

/-- A fault without the place where it was met. -/
def Fault.withoutPlace : Fault → Fault
  | .malformed cause _ => .malformed cause none
  | .unrecognised what _ => .unrecognised what none
  | .missingByte => .missingByte
  | .unprintable => .unprintable

/-- Moving a fault changes its place only. -/
lemma Fault.withoutPlace_moved (s : ℕ) (fault : Fault) :
    (fault.moved s).withoutPlace = fault.withoutPlace := by
  cases fault <;> rfl

/-- Two outcomes are the same, apart from the place of a fault. -/
def Elsewhere {α : Type} (x y : Except Fault α) : Prop :=
  x.mapError Fault.withoutPlace = y.mapError Fault.withoutPlace

namespace Elsewhere

variable {α β σ : Type} {x y z : Except Fault α}

/-- An outcome is itself, wherever it is met. -/
lemma refl (x : Except Fault α) : Elsewhere x x := rfl

/-- It makes no difference which of two outcomes comes first. -/
lemma symm (h : Elsewhere x y) : Elsewhere y x := Eq.symm h

/-- Being the same elsewhere can be passed on. -/
lemma trans (h : Elsewhere x y) (h' : Elsewhere y z) : Elsewhere x z := Eq.trans h h'

/-- Faults with the same cause. -/
lemma unrecognised (what : Unrecognised) (offset offset' : Option ℤ) :
    Elsewhere (α := α) (.error (.unrecognised what offset))
      (.error (.unrecognised what offset')) := rfl

/-- A value is the same value. -/
lemma ok_of_ok (h : Elsewhere x y) {a : α} (hx : x = .ok a) : y = .ok a := by
  rw [hx] at h
  cases y with
  | ok b => exact h.symm
  | error fault => cases h

/-- Chains are the same elsewhere if their first steps are and the others are from every value on.
-/
lemma bind {f g : α → Except Fault β} (hx : Elsewhere x y) (hf : ∀ a, Elsewhere (f a) (g a)) :
    Elsewhere (x >>= f) (y >>= g) := by
  have hfg : (fun a => (f a).mapError Fault.withoutPlace) =
      fun a => (g a).mapError Fault.withoutPlace := funext hf
  unfold Elsewhere at hx ⊢
  rw [mapError_bind, mapError_bind, hx, hfg]

/-- What is read some places further on. -/
lemma of_moves {s : ℕ} (h : Moves s id x y) : Elsewhere x y := by
  unfold Moves at h
  rw [h]
  cases x with
  | ok a => rfl
  | error fault => exact congrArg Except.error (fault.withoutPlace_moved s).symm

/-- A loop over a region comes to the same end wherever the region stands. -/
lemma foldlM_walk {step : σ → Element → Except Fault σ}
    (h : ∀ s t e, Moves s id (step t e) (step t (e.moved s))) (o o' : ℕ) (bytes : Octets) (t : σ) :
    Elsewhere ((⟨o, bytes, 0⟩ : Cursor).walk.foldlM step t)
      ((⟨o', bytes, 0⟩ : Cursor).walk.foldlM step t) := by
  have hstart : ∀ s, Elsewhere ((⟨0, bytes, 0⟩ : Cursor).walk.foldlM step t)
      ((⟨s, bytes, 0⟩ : Cursor).walk.foldlM step t) := by
    intro s
    apply of_moves (s := s)
    exact Moves.foldlM_walk (h s) ⟨0, bytes, 0⟩ t
  exact (hstart o).symm.trans (hstart o')

end Elsewhere

/-! ### Regions that begin with some items -/

namespace Der.Cursor

/-- A loop over a region that begins with an item runs its step on the item and goes on. -/
lemma foldlM_walk_octets_append {σ : Type} {i : Item} (hi : i.Readable) (o : ℕ) (rest : Octets)
    (step : σ → Element → Except Fault σ) (t : σ) :
    (⟨o, i.octets ++ rest, 0⟩ : Cursor).walk.foldlM step t =
      step t (i.placed o) >>= fun t =>
        (⟨o + i.octets.length, rest, 0⟩ : Cursor).walk.foldlM step t := by
  have hend : (⟨o, i.octets ++ rest, 0⟩ : Cursor).atEnd = false := by
    rw [Bool.eq_false_iff, Ne, atEnd_iff_bytes rfl]
    intro hnil
    exact Item.octets_ne_nil i (List.append_eq_nil_iff.mp hnil).1
  rw [foldlM_walk_of_not_atEnd hend, element_octets_append hi]
  rfl

/-- A loop over a region that begins with some items goes through them first. -/
lemma foldlM_walk_append {σ : Type} {items : List Item} (hitems : ∀ i ∈ items, i.Readable)
    (o : ℕ) (rest : Octets) (step : σ → Element → Except Fault σ) (t : σ) :
    (⟨o, Item.join items ++ rest, 0⟩ : Cursor).walk.foldlM step t =
      (Item.layout o items).foldlM step t >>= fun t =>
        (⟨o + (Item.join items).length, rest, 0⟩ : Cursor).walk.foldlM step t := by
  induction items generalizing o t with
  | nil => rfl
  | cons i items ih =>
    obtain ⟨hi, hrest⟩ := List.forall_mem_cons.mp hitems
    have hplace : o + (Item.join (i :: items)).length =
        o + i.octets.length + (Item.join items).length := by
      rw [Item.join_cons, List.length_append, Nat.add_assoc]
    rw [Item.join_cons, List.append_assoc, foldlM_walk_octets_append hi, ← Item.join_cons, hplace,
      Item.layout_cons, List.foldlM_cons, bind_assoc]
    congr 1
    funext t
    exact ih hrest _ t

/-- A loop over a region that is made of some items goes through them. -/
lemma foldlM_walk_join {σ : Type} {items : List Item} (hitems : ∀ i ∈ items, i.Readable) (o : ℕ)
    (step : σ → Element → Except Fault σ) (t : σ) :
    (⟨o, Item.join items, 0⟩ : Cursor).walk.foldlM step t =
      (Item.layout o items).foldlM step t := by
  rw [walk_join hitems]
  exact bind_pure _

end Der.Cursor

/-- A loop over some items comes to the same end wherever they stand. -/
lemma Elsewhere.foldlM_layout {σ : Type} {step : σ → Element → Except Fault σ}
    (h : ∀ s t e, Moves s id (step t e) (step t (e.moved s))) {items : List Item}
    (hitems : ∀ i ∈ items, i.Readable) (o o' : ℕ) (t : σ) :
    Elsewhere ((Item.layout o items).foldlM step t) ((Item.layout o' items).foldlM step t) := by
  rw [← Cursor.foldlM_walk_join hitems, ← Cursor.foldlM_walk_join hitems]
  exact foldlM_walk h o o' _ t

/-- Items that begin like some others are made of those and what follows them. -/
lemma Der.Item.exists_of_join_eq {items front : List Item} {rest : Octets}
    (hitems : ∀ i ∈ items, i.Readable) (hfront : ∀ i ∈ front, i.Readable)
    (h : Item.join items = Item.join front ++ rest) :
    ∃ back, items = front ++ back ∧ Item.join back = rest := by
  induction front generalizing items with
  | nil => exact ⟨items, rfl, h⟩
  | cons i front ih =>
    obtain ⟨hi, hfronts⟩ := List.forall_mem_cons.mp hfront
    rw [Item.join_cons, List.append_assoc] at h
    cases items with
    | nil => exact absurd (List.append_eq_nil_iff.mp h.symm).1 (Item.octets_ne_nil i)
    | cons j items =>
      obtain ⟨hj, hothers⟩ := List.forall_mem_cons.mp hitems
      obtain ⟨rfl, hrest⟩ := Item.octets_append_inj hj hi h
      obtain ⟨back, rfl, hback⟩ := ih hothers hfronts hrest
      exact ⟨back, rfl, hback⟩

end AttestedKey
