import AttestedKey.Field

/-!
# Authorization lists

An `AuthorizationList` gives a value to some of the known fields and carries raw content for
some tags outside the table, by ascending tag.  A field without a value is absent, and a flag
without one is lowered.  `set` and `setUnknown` give one field or one tag a value and leave the
others as they are; `tags` lists the tags that the encoding of the list has.
-/

namespace AttestedKey

/-- A tag outside the field table with the octets that its wrapper holds. -/
structure UnknownTag where
  /-- The number of the tag. -/
  number : Nat
  /-- The content of the wrapper. -/
  content : Octets
  deriving DecidableEq, Repr

/-- Puts a tag at its place among tags in ascending order, instead of one with its number. -/
def UnknownTag.place (t : UnknownTag) : List UnknownTag → List UnknownTag
  | [] => [t]
  | u :: rest =>
    if t.number < u.number then t :: u :: rest
    else if t.number = u.number then t :: rest
    else u :: place t rest

/-- What is known about the use of a key. -/
structure AuthorizationList where
  /-- The value of each field that has one. -/
  value : (f : Field) → Option f.Value
  /-- The tags outside the table, by ascending number. -/
  unknown : List UnknownTag

namespace AuthorizationList

/-- The name of the structure in messages. -/
def structureName : String := "AuthorizationList"

/-- The list without a value. -/
def empty : AuthorizationList := ⟨fun _ => none, []⟩

instance : EmptyCollection AuthorizationList := ⟨empty⟩

instance : Inhabited AuthorizationList := ⟨empty⟩

/-- Lists are equal when all fields and all unknown tags are. -/
theorem ext_iff {a b : AuthorizationList} :
    a = b ↔ (∀ f ∈ Field.all, a.value f = b.value f) ∧ a.unknown = b.unknown := by
  constructor
  · rintro rfl
    exact ⟨fun _ _ => rfl, rfl⟩
  · rintro ⟨values, unknown⟩
    cases a
    cases b
    simp only [mk.injEq]
    exact ⟨funext fun f => values f (Field.mem_all f), unknown⟩

instance : DecidableEq AuthorizationList := fun _ _ => decidable_of_iff _ ext_iff.symm

/-- Gives a field a value, or takes its value away. -/
def assign (a : AuthorizationList) (f : Field) (value : Option f.Value) : AuthorizationList :=
  { a with value := fun g => if h : g = f then h ▸ value else a.value g }

/-- Gives a field a value. -/
def set (a : AuthorizationList) (f : Field) (value : f.Value) : AuthorizationList :=
  a.assign f (some value)

/-- Gives a tag outside the table its content, instead of one that it had. -/
def setUnknown (a : AuthorizationList) (t : UnknownTag) : AuthorizationList :=
  { a with unknown := t.place a.unknown }

/-- A field has what it was assigned. -/
@[simp] theorem value_assign_self (a : AuthorizationList) (f : Field) (value : Option f.Value) :
    (a.assign f value).value f = value := by
  simp [assign]

/-- Another field keeps its value. -/
@[simp] theorem value_assign_of_ne (a : AuthorizationList) {f g : Field}
    (value : Option f.Value) (h : g ≠ f) : (a.assign f value).value g = a.value g := by
  simp [assign, h]

/-- An assignment leaves the tags outside the table as they are. -/
@[simp] theorem unknown_assign (a : AuthorizationList) (f : Field) (value : Option f.Value) :
    (a.assign f value).unknown = a.unknown := rfl

/-- Setting a tag outside the table leaves every field as it is. -/
@[simp] theorem value_setUnknown (a : AuthorizationList) (t : UnknownTag) (f : Field) :
    (a.setUnknown t).value f = a.value f := rfl

/-- Whether a field is written. -/
def has (a : AuthorizationList) (f : Field) : Bool :=
  match a.value f with
  | none => false
  | some value => f.kind.isWritten value

/-- The tags of the encoding, in ascending order. -/
def tags (a : AuthorizationList) : List Nat :=
  ((Field.all.filter a.has).map Field.tag ++ a.unknown.map UnknownTag.number).mergeSort

end AuthorizationList

end AttestedKey
