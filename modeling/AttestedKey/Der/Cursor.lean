import AttestedKey.Fault
import AttestedKey.Octets

/-!
# Places in a bounded region

A `Cursor` is a place in a region of an input: how far it is from the start of the input, and
what is left of the region.  Reading at a cursor sees nothing outside its region.  A bound may
lie past the end of the input; then `missing` counts the positions of the region that have no
byte, and asking for one of them is a fault of its own.

`Cursor.byte?` takes one byte and `Cursor.split?` a run of positions.
-/

namespace AttestedKey.Der

/-- A place in a bounded region of an input. -/
structure Cursor where
  /-- The distance from the start of the input. -/
  offset : Nat
  /-- The bytes from here to the end of the region. -/
  bytes : Octets
  /-- The number of positions of the region past the end of the input. -/
  missing : Nat
  deriving DecidableEq, Repr

namespace Cursor

/-- The first place of a whole input. -/
def start (input : Octets) : Cursor := ⟨0, input, 0⟩

/-- A place in an input, with the end of its region given as a distance from the start of the
input too. -/
def between (input : Octets) (offset stop : Nat) : Cursor :=
  let bytes := (input.drop offset).take (stop - offset)
  ⟨offset, bytes, (stop - offset) - bytes.length⟩

/-- The number of positions from here to the end of the region. -/
def room (c : Cursor) : Nat := c.bytes.length + c.missing

/-- Whether the end of the region is reached. -/
def atEnd (c : Cursor) : Bool := c.bytes.isEmpty && c.missing == 0

/-- Takes one byte.  At the end of the region there is none, and a missing byte is a fault. -/
def byte? (c : Cursor) : Except Fault (Option (UInt8 × Cursor)) :=
  match c.bytes with
  | byte :: rest => .ok (some (byte, ⟨c.offset + 1, rest, c.missing⟩))
  | [] => if c.missing = 0 then .ok none else .error .missingByte

/-- Takes one byte, or ends in the given malformation at the given offset where there is
none. -/
def byte (c : Cursor) (offset : Nat) (cause : Malformation) : Except Fault (UInt8 × Cursor) := do
  match ← c.byte? with
  | some taken => return taken
  | none => malformedAt offset cause

/-- Takes a run of positions, if the region has so many.  The bytes are those of the run that
the input has. -/
def split? (c : Cursor) (count : Nat) : Option (Octets × Cursor) :=
  if count ≤ c.room then
    some (c.bytes.take count,
      ⟨c.offset + count, c.bytes.drop count, c.missing - (count - c.bytes.length)⟩)
  else
    none

/-- A region has ended when there is no room in it. -/
theorem atEnd_iff (c : Cursor) : c.atEnd = true ↔ c.room = 0 := by
  rcases c with ⟨_, _ | _, missing⟩ <;> simp [atEnd, room]

/-- The end of the input is an honest bound: no position of the region is missing. -/
theorem between_missing {input : Octets} {offset stop : Nat} (h : stop ≤ input.length) :
    (between input offset stop).missing = 0 := by
  simp only [between, List.length_take, List.length_drop]
  omega

/-- Taking a byte leaves one byte less. -/
theorem bytes_length_of_byte? {c c' : Cursor} {byte : UInt8}
    (h : c.byte? = .ok (some (byte, c'))) : c.bytes.length = c'.bytes.length + 1 := by
  unfold byte? at h
  split at h
  next heq =>
    cases h
    simp [heq]
  next => split at h <;> cases h

/-- Taking a byte that has to be there leaves one byte less. -/
theorem bytes_length_of_byte {c c' : Cursor} {byte : UInt8} {offset : Nat}
    {cause : Malformation} (h : c.byte offset cause = .ok (byte, c')) :
    c.bytes.length = c'.bytes.length + 1 := by
  unfold Cursor.byte at h
  cases taken : c.byte? with
  | error fault => simp [taken, bind, Except.bind] at h
  | ok found =>
    cases found with
    | none => simp [taken, bind, Except.bind, malformedAt] at h
    | some pair =>
      simp only [taken, bind, Except.bind, pure, Except.pure, Except.ok.injEq] at h
      exact bytes_length_of_byte? (h ▸ taken)

/-- Splitting octets off leaves no more bytes than before. -/
theorem bytes_length_of_split? {c c' : Cursor} {count : Nat} {octets : Octets}
    (h : c.split? count = some (octets, c')) : c'.bytes.length ≤ c.bytes.length := by
  unfold split? at h
  split at h
  · cases h
    simp
  · cases h

end Cursor

/-! ### Outcomes that take bytes -/

/-- An outcome after which fewer bytes are left than the given number. -/
def Consumes {α : Type} (before : Nat) (outcome : Except Fault (α × Cursor)) : Prop :=
  ∀ value after, outcome = .ok (value, after) → after.bytes.length < before

namespace Consumes

variable {α β : Type} {before : Nat}

/-- A fault leaves nothing to read. -/
theorem error (before : Nat) (fault : Fault) :
    Consumes before (.error fault : Except Fault (α × Cursor)) := by
  intro _ _ h
  cases h

/-- A value that leaves fewer bytes behind it has consumed some. -/
theorem ok (value : α) {after : Cursor} (h : after.bytes.length < before) :
    Consumes before (.ok (value, after)) := by
  intro _ _ e
  cases e
  exact h

/-- What consumes a shorter region consumes a longer one too. -/
theorem mono {less : Nat} {outcome : Except Fault (α × Cursor)} (h : Consumes less outcome)
    (lt : less < before) : Consumes before outcome :=
  fun value after e => Nat.lt_trans (h value after e) lt

/-- A chain consumes if its first step does and the rest does whatever is left. -/
theorem bind {first : Except Fault (α × Cursor)}
    {next : α × Cursor → Except Fault (β × Cursor)} (hf : Consumes before first)
    (hn : ∀ value after, after.bytes.length < before → Consumes before (next (value, after))) :
    Consumes before (first >>= next) := by
  intro value after h
  cases first with
  | error fault => cases h
  | ok pair => exact hn pair.1 pair.2 (hf pair.1 pair.2 rfl) value after h

/-- Taking a byte consumes. -/
theorem byte (c : Cursor) (offset : Nat) (cause : Malformation) :
    Consumes c.bytes.length (c.byte offset cause) := by
  intro byte after h
  have := Cursor.bytes_length_of_byte h
  omega

end Consumes

end AttestedKey.Der
