/-!
# Tags of encoded elements

A `Tag` says what an element is: the class of its number, whether its content is made of
further elements, and the number.  `Universal` lists the seven types of the universal class
that occur in an attestation record, each with its one tag.  `Tag.describe` is the text by
which messages refer to a tag.
-/

namespace AttestedKey.Der

/-- The class that gives a tag number its meaning. -/
inductive TagClass
  | universal
  | application
  | context
  | privateUse
  deriving DecidableEq, Repr

namespace TagClass

/-- The two bits that stand for a class. -/
def code : TagClass → Nat
  | .universal => 0
  | .application => 1
  | .context => 2
  | .privateUse => 3

/-- The class that two bits stand for.  Only the remainder modulo four counts. -/
def ofCode (code : Nat) : TagClass :=
  match code % 4 with
  | 0 => .universal
  | 1 => .application
  | 2 => .context
  | _ => .privateUse

/-- The name of a class in messages. -/
def name : TagClass → String
  | .universal => "universal"
  | .application => "application"
  | .context => "context"
  | .privateUse => "private"

/-- A class is found by its code. -/
theorem ofCode_code (c : TagClass) : ofCode c.code = c := by
  cases c <;> rfl

/-- A code of a class fits into two bits. -/
theorem code_lt (c : TagClass) : c.code < 4 := by
  cases c <;> decide

end TagClass

/-- An identifier: class, form and number. -/
structure Tag where
  /-- The class of the number. -/
  tagClass : TagClass
  /-- Whether the content consists of elements. -/
  constructed : Bool
  /-- The number within the class. -/
  number : Nat
  deriving DecidableEq, Repr

/-- The types of the universal class that occur in an attestation record. -/
inductive Universal
  | boolean
  | integer
  | octetString
  | null
  | enumerated
  | sequence
  | set
  deriving DecidableEq, Repr

namespace Universal

/-- The tag number of a type. -/
def number : Universal → Nat
  | .boolean => 1
  | .integer => 2
  | .octetString => 4
  | .null => 5
  | .enumerated => 10
  | .sequence => 16
  | .set => 17

/-- The name of a type. -/
def name : Universal → String
  | .boolean => "BOOLEAN"
  | .integer => "INTEGER"
  | .octetString => "OCTET STRING"
  | .null => "NULL"
  | .enumerated => "ENUMERATED"
  | .sequence => "SEQUENCE"
  | .set => "SET"

/-- Whether the values of a type consist of elements. -/
def constructed : Universal → Bool
  | .sequence | .set => true
  | _ => false

/-- The seven types, lowest number first. -/
def all : List Universal :=
  [.boolean, .integer, .octetString, .null, .enumerated, .sequence, .set]

/-- The type with a given tag number. -/
def ofNumber? (number : Nat) : Option Universal :=
  all.find? (·.number == number)

/-- The one tag of a type. -/
def tag (u : Universal) : Tag := ⟨.universal, u.constructed, u.number⟩

/-- A universal type is found by its number. -/
theorem ofNumber?_number (u : Universal) : ofNumber? u.number = some u := by
  cases u <;> rfl

end Universal

namespace Tag

/-- The tag of an explicit wrapper. -/
def explicit (number : Nat) : Tag := ⟨.context, true, number⟩

/-- Whether a tag is that of an explicit wrapper. -/
def isExplicit (t : Tag) : Bool := t.tagClass == .context && t.constructed

/-- The text for a tag that has no name of its own. -/
def describeNumbered (t : Tag) : String :=
  match t.tagClass with
  | .context => s!"[{t.number}]"
  | c => s!"{c.name} [{t.number}]"

/-- The text by which messages refer to a tag: the name of a known universal type, else the
number in brackets, with the class in front unless it is the context class. -/
def describe (t : Tag) : String :=
  match t.tagClass with
  | .universal =>
    match Universal.ofNumber? t.number with
    | some u => u.name
    | none => t.describeNumbered
  | _ => t.describeNumbered

/-- A tag is an explicit wrapper if it is the one of its number. -/
theorem isExplicit_iff (t : Tag) : t.isExplicit = true ↔ t = explicit t.number := by
  rcases t with ⟨_ | _ | _ | _, _ | _, _⟩ <;> simp [isExplicit, explicit]

end Tag

end AttestedKey.Der
