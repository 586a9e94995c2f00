import AttestedKey.Der.Element

/-!
# Moving through nested elements

A `Scanner` is a cursor that can step into the element it has read last and out of it again.
`read` moves the cursor and remembers an element that it meets; `enter` saves the cursor and
goes on inside the remembered element; `leave` goes back to the saved cursor.  A fault leaves
the scanner where it was.
-/

namespace AttestedKey.Der

/-- A cursor with the element read last and the cursors of the regions around. -/
structure Scanner where
  /-- The place that is read next. -/
  here : Cursor
  /-- The element that can be entered. -/
  last : Option Element
  /-- The places to go back to, innermost first. -/
  outer : List Cursor

namespace Scanner

/-- A scanner at the first place of an input. -/
def start (input : Octets) : Scanner := ⟨.start input, none, []⟩

/-- Reads a value that is no element. -/
def read {α : Type} (reader : Cursor → Except Fault (α × Cursor)) (s : Scanner) :
    Except Fault (α × Scanner) := do
  let (value, here) ← reader s.here
  return (value, { s with here })

/-- Reads an element and remembers it. -/
def readElement (reader : Cursor → Except Fault (Element × Cursor)) (s : Scanner) :
    Except Fault (Element × Scanner) := do
  let (e, here) ← reader s.here
  return (e, { s with here, last := some e })

/-- Steps into the element read last. -/
def enter (s : Scanner) : Option Scanner :=
  s.last.map fun e => ⟨e.inside, none, s.here :: s.outer⟩

/-- Steps out of the innermost element. -/
def leave (s : Scanner) : Option Scanner :=
  match s.outer with
  | [] => none
  | here :: outer => some ⟨here, none, outer⟩

/-- Stepping in and out again leaves the cursor where it was. -/
theorem leave_enter {s inner : Scanner} (h : s.enter = some inner) :
    inner.leave = some ⟨s.here, none, s.outer⟩ := by
  unfold enter at h
  cases last : s.last with
  | none => simp [last] at h
  | some e =>
    simp only [last, Option.map_some, Option.some.injEq] at h
    subst h
    rfl

end Scanner

end AttestedKey.Der
