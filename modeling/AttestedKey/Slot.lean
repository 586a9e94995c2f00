import AttestedKey.Fault
import AttestedKey.Rigor

/-!
# Numbers that may have a name

A `Slot` of a vocabulary holds a number: as a member if the number stands for one, else as it
is.  Each number has exactly one slot (`Slot.ofCode`, `Slot.code`), so two slots are equal when
their numbers are, and slots are ordered by their numbers.  `Slot.recognise` reads a slot in a
given mode.
-/

namespace AttestedKey

/-- A member of a vocabulary, or a number that stands for none. -/
inductive Slot (v : Vocabulary)
  /-- A number with a name. -/
  | known (member : v.Member)
  /-- A number without a name. -/
  | raw (code : Int) (unlisted : v.ofCode? code = none)

namespace Slot

variable {v : Vocabulary}

/-- The slot of a number. -/
def ofCode (v : Vocabulary) (code : Int) : Slot v :=
  match found : v.ofCode? code with
  | some member => .known member
  | none => .raw code found

/-- The number of a slot. -/
def code : Slot v → Int
  | .known member => v.code member
  | .raw code _ => code

/-- Whether the number of a slot has a name. -/
def isKnown : Slot v → Bool
  | .known _ => true
  | .raw _ _ => false

/-- The slot of a number has that number. -/
@[simp] theorem code_ofCode (n : Int) : (ofCode v n).code = n := by
  unfold ofCode
  split
  next found => exact Vocabulary.code_of_ofCode? found
  · rfl

/-- A slot is that of its number. -/
@[simp] theorem ofCode_code (s : Slot v) : ofCode v s.code = s := by
  cases s with
  | known member =>
    unfold ofCode
    split
    next found =>
      rw [code, Vocabulary.ofCode?_code] at found
      cases found
      rfl
    next found =>
      rw [code, Vocabulary.ofCode?_code] at found
      cases found
  | raw n unlisted =>
    unfold ofCode
    split
    next found =>
      rw [code, unlisted] at found
      cases found
    · rfl

/-- Slots with the same number are the same. -/
theorem code_injective {s t : Slot v} (h : s.code = t.code) : s = t := by
  rw [← ofCode_code s, ← ofCode_code t, h]

/-- A slot is known if its number has a name. -/
theorem isKnown_ofCode (n : Int) : (ofCode v n).isKnown = (v.ofCode? n).isSome := by
  unfold ofCode
  split <;> simp_all [isKnown]

instance : DecidableEq (Slot v) := fun s t =>
  decidable_of_iff (s.code = t.code) ⟨code_injective, fun h => h ▸ rfl⟩

instance : Ord (Slot v) := ⟨fun s t => compare s.code t.code⟩

instance : Std.TransOrd (Slot v) where
  eq_swap {s t} := Std.OrientedOrd.eq_swap (a := s.code) (b := t.code)
  isLE_trans {s t u} := Std.TransOrd.isLE_trans (a := s.code) (b := t.code) (c := u.code)

instance : Std.LawfulEqOrd (Slot v) where
  compare_self {s} := Std.ReflOrd.compare_self (a := s.code)
  eq_of_compare {s t} h :=
    code_injective (Std.LawfulEqOrd.eq_of_compare (a := s.code) (b := t.code) h)

/-- The slot of a number in a given mode.  Strict reading refuses a number without a name, in
the given words and at the given offset. -/
def recognise (v : Vocabulary) (rigor : Rigor) (refusal : Unrecognised) (offset : Option Int)
    (code : Int) : Except Fault (Slot v) :=
  match ofCode v code, rigor with
  | .known member, _ => .ok (.known member)
  | .raw code unlisted, .lenient => .ok (.raw code unlisted)
  | .raw _ _, .strict => .error (.refusal refusal offset)

/-- Lenient reading takes every number. -/
theorem recognise_lenient (refusal : Unrecognised) (offset : Option Int) (n : Int) :
    recognise v .lenient refusal offset n = .ok (ofCode v n) := by
  unfold recognise
  split <;> simp_all

end Slot

end AttestedKey
