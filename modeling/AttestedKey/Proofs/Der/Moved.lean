import AttestedKey.Der.Primitive
import AttestedKey.Proofs.Outcome

/-!
# Reading at another place

A region that stands some places further on in an input reads as it does where it is: the same
values come out, each element and each cursor is as much further on, and each fault is the same one
at an offset that is as much larger.  `Moves` relates the two outcomes; it has a rule for each step
of a reader, and one lemma for each reader follows from them, from a single byte up to the elements
of a region and the values in them.
-/

namespace AttestedKey

open Outcome

/-- A fault that is met some places further on. -/
def Fault.moved (s : ℕ) : Fault → Fault
  | .malformed cause offset => .malformed cause (offset.map (s + ·))
  | .unrecognised what offset => .unrecognised what (offset.map ((s : ℤ) + ·))
  | .missingByte => .missingByte
  | .unprintable => .unprintable

/-- Whether a number can be shown does not depend on the place. -/
lemma Fault.moved_showing (s : ℕ) (n : ℤ) (fault : Fault) :
    (Fault.showing n fault).moved s = .showing n (fault.moved s) := by
  unfold Fault.showing
  split
  · rfl
  · rfl

/-- A refusal is the same one further on. -/
lemma Fault.moved_refusal (s : ℕ) (what : Unrecognised) (offset : Option ℤ) :
    (Fault.refusal what offset).moved s = .refusal what (offset.map ((s : ℤ) + ·)) := by
  unfold Fault.refusal
  cases what.shown? with
  | none => rfl
  | some n => exact Fault.moved_showing s n _

/-- An outcome that is met some places further on. -/
def movedOutcome {α β : Type} (s : ℕ) (move : α → β) : Except Fault α → Except Fault β
  | .ok a => .ok (move a)
  | .error fault => .error (fault.moved s)

/-- The second outcome is the first one, some places further on. -/
def Moves {α β : Type} (s : ℕ) (move : α → β) (x : Except Fault α) (y : Except Fault β) : Prop :=
  y = movedOutcome s move x

namespace Moves

variable {α α' β β' σ σ' : Type} {s : ℕ}

/-- A value is the same value in its moved form. -/
lemma ok {move : α → β} (a : α) : Moves s move (.ok a) (.ok (move a)) := rfl

/-- A malformation is the same one at an offset that is as much larger. -/
lemma malformedAt {move : α → β} (o : ℕ) (cause : Malformation) :
    Moves s move (malformedAt o cause) (malformedAt (s + o) cause) := rfl

/-- A missing byte has no place, so it is missed anywhere. -/
lemma missingByte {move : α → β} : Moves s move (.error .missingByte) (.error .missingByte) := rfl

/-- The text of a malformation may show a number, which is the same number elsewhere. -/
lemma malformedNumberAt {move : α → β} (o : ℕ) (n : ℤ) (cause : Malformation) :
    Moves s move (malformedNumberAt o n cause) (malformedNumberAt (s + o) n cause) :=
  congrArg Except.error (Fault.moved_showing s n (.malformed cause (some o))).symm

/-- Strict reading objects to the same thing at an offset that is as much larger. -/
lemma unrecognised {move : α → β} (what : Unrecognised) (o : ℕ) :
    Moves s move (.error (.unrecognised what (some (o : ℤ))))
      (.error (.unrecognised what (some ((s + o : ℕ) : ℤ)))) := by
  rw [Int.natCast_add]
  rfl

/-- What is refused is refused elsewhere too, with the same number in the text. -/
lemma refusal {move : α → β} (what : Unrecognised) (o : ℕ) :
    Moves s move (.error (.refusal what (some (o : ℤ))))
      (.error (.refusal what (some ((s + o : ℕ) : ℤ)))) := by
  rw [Int.natCast_add]
  exact congrArg Except.error (Fault.moved_refusal s what (some (o : ℤ))).symm

/-- A chain moves if its first step does and the rest does from every value on. -/
lemma bind {move : α → α'} {move' : β → β'} {x : Except Fault α} {y : Except Fault α'}
    {f : α → Except Fault β} {g : α' → Except Fault β'} (hx : Moves s move x y)
    (hf : ∀ a, Moves s move' (f a) (g (move a))) : Moves s move' (x >>= f) (y >>= g) := by
  obtain rfl := hx
  cases x with
  | ok a => exact hf a
  | error fault => rfl

/-- A case distinction that does not look at the place moves if both of its branches do. -/
lemma ite {move : α → β} {p : Prop} [Decidable p] {x x' : Except Fault α} {y y' : Except Fault β}
    (h : p → Moves s move x y) (h' : ¬ p → Moves s move x' y') :
    Moves s move (if p then x else x') (if p then y else y') := by
  by_cases hp : p
  · rw [if_pos hp, if_pos hp]
    exact h hp
  · rw [if_neg hp, if_neg hp]
    exact h' hp

/-- What each round of a loop is some places further on, the whole loop is there. -/
lemma foldlM {move : σ → σ'} {place : α → α'} {step : σ → α → Except Fault σ}
    {step' : σ' → α' → Except Fault σ'}
    (h : ∀ t a, Moves s move (step t a) (step' (move t) (place a))) (l : List α) (t : σ) :
    Moves s move (l.foldlM step t) ((l.map place).foldlM step' (move t)) := by
  induction l generalizing t with
  | nil => exact ok t
  | cons a l ih =>
    rw [List.map_cons, List.foldlM_cons, List.foldlM_cons]
    exact (h t a).bind ih

end Moves

namespace Der

/-- A cursor some places further on. -/
def Cursor.moved (s : ℕ) (c : Cursor) : Cursor := { c with offset := s + c.offset }

/-- An element some places further on. -/
def Element.moved (s : ℕ) (e : Element) : Element :=
  { e with offset := s + e.offset, start := s + e.start }

/-- A walk some places further on. -/
def Walk.moved (s : ℕ) (w : Walk) : Walk :=
  ⟨w.elements.map (Element.moved s), w.fault.map (Fault.moved s)⟩

end Der

namespace Moves

open Der

variable {α β σ : Type} (s : ℕ)

/-! ### Bytes, headers and elements -/

/-- A byte is taken, some places further on. -/
lemma byte (c : Cursor) (o : ℕ) (cause : Malformation) :
    Moves s (Prod.map id (Cursor.moved s)) (c.byte o cause) ((c.moved s).byte (s + o) cause) := by
  obtain ⟨offset, _ | ⟨first, rest⟩, missing⟩ := c
  · unfold Cursor.byte Cursor.byte? Cursor.moved
    by_cases hmissing : missing = 0
    · simp only [hmissing, if_true]
      exact malformedAt o cause
    · simp only [hmissing, if_false]
      exact missingByte
  · rfl

/-- A run of octets is split off, some places further on. -/
lemma split? (c : Cursor) (count : ℕ) :
    (c.moved s).split? count = (c.split? count).map (Prod.map id (Cursor.moved s)) := by
  unfold Cursor.split?
  change (if count ≤ c.room then _ else _) = _
  by_cases hroom : count ≤ c.room
  · rw [if_pos hroom, if_pos hroom]
    simp only [Cursor.moved, Nat.add_assoc]
    rfl
  · rw [if_neg hroom, if_neg hroom]
    rfl

/-- The digits of a tag number, some places further on. -/
lemma readDigits (start limit number : ℕ) (c : Cursor) :
    Moves s (Prod.map id (Cursor.moved s)) (Tag.readDigits start limit number c)
      (Tag.readDigits (s + start) limit number (c.moved s)) := by
  induction limit generalizing number c with
  | zero => exact malformedAt start _
  | succ limit ih =>
    unfold Tag.readDigits
    refine (byte s c start _).bind fun taken => ?_
    exact ite (fun _ => ok _) fun _ => ih _ _

/-- The number of a tag, some places further on. -/
lemma readNumber (c : Cursor) :
    Moves s (Prod.map id (Cursor.moved s)) (Tag.readNumber c) (Tag.readNumber (c.moved s)) := by
  unfold Tag.readNumber
  refine ite (fun _ => malformedAt c.offset _) fun _ => ?_
  refine (readDigits s c.offset 4 0 c).bind fun read => ?_
  exact ite (fun _ => malformedAt c.offset _) fun _ => ok _

/-- An identifier, some places further on. -/
lemma readTag (c : Cursor) :
    Moves s (Prod.map id (Cursor.moved s)) (Tag.read c) (Tag.read (c.moved s)) := by
  unfold Tag.read
  refine (byte s c c.offset _).bind fun taken => ?_
  obtain ⟨first, rest⟩ := taken
  exact ite (fun _ => (readNumber s rest).bind fun _ => ok _) fun _ => ok _

/-- A length, some places further on. -/
lemma readLength (c : Cursor) :
    Moves s (Prod.map id (Cursor.moved s)) (Length.read c) (Length.read (c.moved s)) := by
  unfold Length.read
  refine (byte s c c.offset _).bind fun taken => ?_
  obtain ⟨first, rest⟩ := taken
  refine ite (fun _ => ok _) fun _ => ?_
  refine ite (fun _ => malformedAt c.offset _) fun _ => ?_
  refine ite (fun _ => malformedAt c.offset _) fun _ => ?_
  simp only [id_eq, split? s rest]
  rcases rest.split? (first.toNat - 128) with _ | ⟨_ | ⟨digit, digits⟩, after⟩
  · exact malformedAt rest.offset _
  · exact missingByte
  · refine ite (fun _ => malformedAt c.offset _) fun _ => ?_
    exact ite (fun _ => malformedAt c.offset _) fun _ => ok _

/-- An element, some places further on. -/
lemma element (c : Cursor) :
    Moves s (Prod.map (Element.moved s) (Cursor.moved s)) c.element (c.moved s).element := by
  unfold Cursor.element
  refine (readTag s c).bind fun read => ?_
  obtain ⟨tag, afterTag⟩ := read
  refine (readLength s afterTag).bind fun read => ?_
  obtain ⟨length, afterLength⟩ := read
  simp only [Prod.map, id_eq, split? s afterLength]
  rcases afterLength.split? length with _ | ⟨content, after⟩
  · exact malformedAt c.offset _
  · exact ok _

variable {s}

/-- A value is read some places further on if it is made of an element that is there. -/
lemma read {move : α → β} {interpret : Element → Except Fault α}
    {interpret' : Element → Except Fault β}
    (h : ∀ e, Moves s move (interpret e) (interpret' (e.moved s))) (c : Cursor) :
    Moves s (Prod.map move (Cursor.moved s)) (c.read interpret) ((c.moved s).read interpret') := by
  unfold Cursor.read
  refine (element s c).bind fun read => ?_
  exact (h read.1).bind fun a => ok _

/-- The elements of a region, and what ends them, some places further on. -/
lemma walk (c : Cursor) : (c.moved s).walk = c.walk.moved s := by
  induction hn : c.bytes.length using Nat.strongRecOn generalizing c with
  | ind n ih =>
    have hend : (c.moved s).atEnd = c.atEnd := rfl
    have hread : (c.moved s).element = _ := element s c
    by_cases hatEnd : c.atEnd = true
    · rw [Cursor.walk_of_atEnd hatEnd, Cursor.walk_of_atEnd (hend.trans hatEnd)]
      rfl
    · rw [Bool.not_eq_true] at hatEnd
      cases htaken : c.element with
      | error fault =>
        rw [htaken] at hread
        rw [Cursor.walk_of_error hatEnd htaken,
          Cursor.walk_of_error (hend.trans hatEnd) hread]
        rfl
      | ok taken =>
        obtain ⟨e, rest⟩ := taken
        rw [htaken] at hread
        have hshorter := Cursor.bytes_length_of_element htaken
        rw [Cursor.walk_of_ok hatEnd htaken, Cursor.walk_of_ok (hend.trans hatEnd) hread,
          ih _ (hn ▸ hshorter) rest rfl]
        rfl

/-- A loop over the elements of a region. -/
lemma foldlM_walk {step : σ → Element → Except Fault σ}
    (h : ∀ t e, Moves s id (step t e) (step t (e.moved s))) (c : Cursor) (t : σ) :
    Moves s id (c.walk.foldlM step t) ((c.moved s).walk.foldlM step t) := by
  rw [walk]
  unfold Walk.foldlM
  have hloop : Moves s id (c.walk.elements.foldlM step t)
      ((c.walk.elements.map (Element.moved s)).foldlM step t) := foldlM h c.walk.elements t
  refine hloop.bind fun t' => ?_
  unfold Walk.moved
  cases c.walk.fault with
  | none => exact ok t'
  | some fault => rfl

/-! ### Values -/

variable (s)

/-- The type of an element is required, some places further on. -/
lemma ofType (type : Universal) (e : Element) :
    Moves s (Element.moved s) (e.ofType type) ((e.moved s).ofType type) :=
  ite (fun _ => ok e) fun _ => malformedAt e.offset _

/-- An explicit wrapper is required, some places further on. -/
lemma ofExplicit (number : Option ℤ) (e : Element) :
    Moves s (Element.moved s) (e.ofExplicit number) ((e.moved s).ofExplicit number) := by
  refine ite (fun _ => ?_) fun _ => malformedAt e.offset _
  cases number with
  | none => exact ok e
  | some n => exact ite (fun _ => ok e) fun _ => malformedNumberAt e.offset n _

/-- A number of either type, some places further on. -/
lemma toNumber (type : Universal) (e : Element) :
    Moves s id (e.toNumber type) ((e.moved s).toNumber type) := by
  refine (ofType s type e).bind fun e' => ?_
  refine ite (fun _ => malformedAt e'.offset _) fun _ => ?_
  exact ite (fun _ => malformedAt e'.offset _) fun _ => ok _

/-- A number of a bounded field, some places further on. -/
lemma toUnsigned (field : String) (maximum : ℕ) (e : Element) :
    Moves s id (e.toUnsigned field maximum) ((e.moved s).toUnsigned field maximum) := by
  refine (toNumber s .integer e).bind fun value => ?_
  exact ite (fun _ => malformedNumberAt e.offset value _) fun _ => ok value

/-- Octets have no place of their own. -/
lemma toOctets (e : Element) : Moves s id e.toOctets (e.moved s).toOctets :=
  (ofType s .octetString e).bind fun _ => ok _

/-- A region that is wrapped into octets, some places further on. -/
lemma toWrapped (e : Element) : Moves s (Cursor.moved s) e.toWrapped (e.moved s).toWrapped :=
  (ofType s .octetString e).bind fun _ => ok _

/-- The region inside a sequence, some places further on. -/
lemma toSequence (e : Element) : Moves s (Cursor.moved s) e.toSequence (e.moved s).toSequence :=
  (ofType s .sequence e).bind fun _ => ok _

/-- The region inside a set, some places further on. -/
lemma toSet (e : Element) : Moves s (Cursor.moved s) e.toSet (e.moved s).toSet :=
  (ofType s .set e).bind fun _ => ok _

/-- A truth value, some places further on. -/
lemma toBoolean (e : Element) : Moves s id e.toBoolean (e.moved s).toBoolean := by
  refine (ofType s .boolean e).bind fun e' => ?_
  refine ite (fun _ => ?_) fun _ => malformedAt e'.offset _
  simp only [Element.moved]
  cases e'.content with
  | nil => exact missingByte
  | cons octet rest => exact ok _

/-- A null, some places further on. -/
lemma toNull (e : Element) : Moves s id e.toNull (e.moved s).toNull := by
  refine (ofType s .null e).bind fun e' => ?_
  exact ite (fun _ => ok ()) fun _ => malformedAt e'.offset _

end Moves

end AttestedKey
