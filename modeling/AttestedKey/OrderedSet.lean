/-!
# Finite sets in ascending order

An `OrderedSet` is a finite set kept as the list of its members in strictly ascending order,
so that a set has one representation and equality of sets is equality of lists.  `insert`
puts a member in its place and leaves a set that already has it as it was; `ofList` inserts
the items of a list one after another.
-/

namespace AttestedKey

/-- A finite set, as the list of its members in strictly ascending order. -/
structure OrderedSet (α : Type) [Ord α] where
  /-- The members, smallest first. -/
  toList : List α
  /-- No member stands before a smaller or an equal one. -/
  ascending : toList.Pairwise (fun a b => compare a b = .lt)

namespace OrderedSet

variable {α : Type} [Ord α]

instance [DecidableEq α] : DecidableEq (OrderedSet α) := fun s t =>
  decidable_of_iff (s.toList = t.toList) (by cases s; cases t; simp)

/-- The set without members. -/
def empty : OrderedSet α := ⟨[], .nil⟩

instance : EmptyCollection (OrderedSet α) := ⟨empty⟩

instance : Inhabited (OrderedSet α) := ⟨empty⟩

/-- Puts an item in front of the first greater one, unless an equal one is met before. -/
def place (a : α) : List α → List α
  | [] => [a]
  | b :: rest =>
    match compare a b with
    | .lt => a :: b :: rest
    | .eq => b :: rest
    | .gt => b :: place a rest

/-- Only the placed item can be new. -/
theorem mem_of_mem_place {a x : α} {items : List α} (h : x ∈ place a items) :
    x = a ∨ x ∈ items := by
  induction items with
  | nil => simpa [place] using h
  | cons b rest ih =>
    unfold place at h
    split at h
    · simpa using h
    · exact .inr h
    · rcases List.mem_cons.1 h with rfl | h
      · exact .inr (List.mem_cons_self ..)
      · rcases ih h with rfl | h
        · exact .inl rfl
        · exact .inr (List.mem_cons_of_mem _ h)

variable [Std.TransOrd α]

/-- Placing an item keeps the order strict. -/
theorem ascending_place (a : α) {items : List α}
    (h : items.Pairwise (fun a b => compare a b = .lt)) :
    (place a items).Pairwise (fun a b => compare a b = .lt) := by
  induction items with
  | nil => simp [place]
  | cons b rest ih =>
    obtain ⟨below, tail⟩ := List.pairwise_cons.1 h
    unfold place
    split
    next lt =>
      refine List.pairwise_cons.2 ⟨fun x hx => ?_, h⟩
      rcases List.mem_cons.1 hx with rfl | hx
      · exact lt
      · exact Std.TransCmp.lt_trans lt (below x hx)
    · exact h
    next gt =>
      refine List.pairwise_cons.2 ⟨fun x hx => ?_, ih tail⟩
      rcases mem_of_mem_place hx with rfl | hx
      · exact Std.OrientedCmp.lt_of_gt gt
      · exact below x hx

/-- The set with one more member. -/
def insert (a : α) (s : OrderedSet α) : OrderedSet α :=
  ⟨place a s.toList, ascending_place a s.ascending⟩

/-- The set of the items of a list. -/
def ofList (items : List α) : OrderedSet α :=
  items.foldl (fun s a => s.insert a) empty

/-- Whether an item is a member. -/
def contains (s : OrderedSet α) (a : α) : Bool :=
  s.toList.any (fun b => compare a b == .eq)

/-- No items make the empty set. -/
@[simp] theorem ofList_nil : ofList ([] : List α) = empty := rfl

end OrderedSet

end AttestedKey
