import AttestedKey.Der.Header

/-!
# Elements and regions made of elements

An `Element` is a tag with the bounds of its content and the content itself.
`Cursor.element` reads one at a cursor; `Element.inside` is the region of its content.
`Cursor.walk` reads elements up to the end of the region or the first fault and gives a
`Walk`: the elements and how the walk ended.  `Walk.foldlM` runs a step over the elements and
then meets the fault, so the outcome is that of reading and handling one element after the
other.
-/

namespace AttestedKey.Der

/-- An element of an encoding. -/
structure Element where
  /-- What the element is. -/
  tag : Tag
  /-- Where the element starts. -/
  offset : Nat
  /-- Where its content starts. -/
  start : Nat
  /-- The length of its content, as the element states it. -/
  length : Nat
  /-- The bytes of its content. -/
  content : Octets
  deriving DecidableEq, Repr

namespace Element

/-- Where the element ends. -/
def stop (e : Element) : Nat := e.start + e.length

/-- The region of the content. -/
def inside (e : Element) : Cursor := ⟨e.start, e.content, e.length - e.content.length⟩

end Element

namespace Cursor

/-- Reads one element. -/
def element (c : Cursor) : Except Fault (Element × Cursor) := do
  let (tag, rest) ← Tag.read c
  let (length, rest) ← Length.read rest
  match rest.split? length with
  | none => malformedAt c.offset (.overrun tag length)
  | some (content, after) => return (⟨tag, c.offset, rest.offset, length, content⟩, after)

/-- Reads one element and makes a value of it. -/
def read {α : Type} (interpret : Element → Except Fault α) (c : Cursor) :
    Except Fault (α × Cursor) := do
  let (e, rest) ← c.element
  let value ← interpret e
  return (value, rest)

end Cursor

/-- Reading an element takes at least one byte of the region. -/
theorem Cursor.bytes_length_of_element {c after : Cursor} {e : Element}
    (h : c.element = .ok (e, after)) : after.bytes.length < c.bytes.length := by
  refine Consumes.bind (Tag.consumes_read c) (fun tag inner shorter => ?_) e after h
  refine (Consumes.bind (Length.consumes_read inner) fun length start fewer => ?_).mono shorter
  simp only
  split
  · exact Consumes.error _ _
  next found =>
    have := Cursor.bytes_length_of_split? found
    exact Consumes.ok _ (by omega)

/-! ### Walks -/

/-- The elements of a region, and the fault that ended the walk before its end. -/
structure Walk where
  /-- The elements that were read. -/
  elements : List Element
  /-- What went wrong after them, if anything did. -/
  fault : Option Fault
  deriving DecidableEq, Repr

/-- Reads elements up to the end of the region or the first fault. -/
def Cursor.walk (c : Cursor) : Walk :=
  if c.atEnd then
    ⟨[], none⟩
  else
    match _taken : c.element with
    | .error fault => ⟨[], some fault⟩
    | .ok (e, rest) => let walk := rest.walk; ⟨e :: walk.elements, walk.fault⟩
  termination_by c.bytes.length
  decreasing_by exact Cursor.bytes_length_of_element _taken

namespace Walk

/-- The elements, if the walk reached the end of its region. -/
def complete (w : Walk) : Except Fault (List Element) :=
  match w.fault with
  | none => .ok w.elements
  | some fault => .error fault

/-- Runs a step over the elements of a walk and then meets its fault. -/
def foldlM {σ : Type} (step : σ → Element → Except Fault σ) (state : σ) (w : Walk) :
    Except Fault σ := do
  let state ← w.elements.foldlM step state
  match w.fault with
  | none => return state
  | some fault => throw fault

end Walk

/-- A walk over a region at its end sees nothing. -/
theorem Cursor.walk_of_atEnd {c : Cursor} (h : c.atEnd = true) : c.walk = ⟨[], none⟩ := by
  rw [Cursor.walk]
  simp [h]

/-- A walk ends where no element can be read. -/
theorem Cursor.walk_of_error {c : Cursor} {fault : Fault} (h : c.atEnd = false)
    (read : c.element = .error fault) : c.walk = ⟨[], some fault⟩ := by
  rw [Cursor.walk]
  simp only [h, Bool.false_eq_true, ↓reduceIte]
  split
  · simp_all
  · simp_all

/-- A walk sees the first element and goes on behind it. -/
theorem Cursor.walk_of_ok {c rest : Cursor} {e : Element} (h : c.atEnd = false)
    (read : c.element = .ok (e, rest)) :
    c.walk = ⟨e :: rest.walk.elements, rest.walk.fault⟩ := by
  rw [Cursor.walk]
  simp only [h, Bool.false_eq_true, ↓reduceIte]
  split
  · simp_all
  next e' rest' eq =>
    rw [read] at eq
    cases eq
    rfl

end AttestedKey.Der
