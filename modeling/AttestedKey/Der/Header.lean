import AttestedKey.Der.Cursor

/-!
# Identifiers and lengths

An element begins with an identifier and a length.  Both have exactly one accepted form: tag
numbers below 31 and lengths below 128 stand in the first byte, larger ones in up to four
further digits, base 128 for a tag number and base 256 for a length, without a leading zero.
`Tag.read` and `Length.read` read them at a cursor.
-/

namespace AttestedKey.Der

namespace Tag

/-- Reads base-128 digits up to the first one without a mark, at most `limit` of them, and
adds them to the number read before. -/
def readDigits (start : Nat) : (limit number : Nat) → Cursor → Except Fault (Nat × Cursor)
  | 0, _, _ => malformedAt start .tagNumberTooLarge
  | limit + 1, number, c => do
    let (digit, c) ← c.byte start .truncatedTagNumber
    let number := number * 128 + digit.toNat % 128
    if digit < 128 then
      return (number, c)
    else
      readDigits start limit number c

/-- Reads a tag number that does not fit into the first byte. -/
def readNumber (c : Cursor) : Except Fault (Nat × Cursor) := do
  if c.bytes.head? = some 128 then
    malformedAt c.offset .paddedTagNumber
  else
    let (number, rest) ← readDigits c.offset 4 0 c
    if number < 31 then
      malformedAt c.offset .longFormTagNumber
    else
      return (number, rest)

/-- Reads an identifier. -/
def read (c : Cursor) : Except Fault (Tag × Cursor) := do
  let (first, c) ← c.byte c.offset .missingTag
  let low := first.toNat % 32
  let (number, c) ← if low = 31 then readNumber c else pure (low, c)
  return (⟨.ofCode (first.toNat / 64), first.toNat / 32 % 2 == 1, number⟩, c)

/-- Reading the digits of a tag number consumes. -/
theorem consumes_readDigits (start limit number : Nat) (c : Cursor) :
    Consumes c.bytes.length (readDigits start limit number c) := by
  induction limit generalizing number c with
  | zero => exact Consumes.error _ _
  | succ limit ih =>
    unfold readDigits
    refine Consumes.bind (Consumes.byte _ _ _) fun digit after shorter => ?_
    simp only
    split
    · exact Consumes.ok _ shorter
    · exact (ih _ after).mono shorter

/-- Reading a tag number consumes. -/
theorem consumes_readNumber (c : Cursor) : Consumes c.bytes.length (readNumber c) := by
  unfold readNumber
  split
  · exact Consumes.error _ _
  · refine Consumes.bind (consumes_readDigits _ _ _ c) fun number after shorter => ?_
    simp only
    split
    · exact Consumes.error _ _
    · exact Consumes.ok _ shorter

/-- Reading an identifier takes at least one byte. -/
theorem consumes_read (c : Cursor) : Consumes c.bytes.length (read c) := by
  unfold read
  refine Consumes.bind (Consumes.byte _ _ _) fun first after shorter => ?_
  simp only
  split
  · exact Consumes.bind ((consumes_readNumber after).mono shorter) fun number rest fewer =>
      Consumes.ok _ fewer
  · exact Consumes.ok _ shorter

end Tag

namespace Length

/-- Reads a length. -/
def read (c : Cursor) : Except Fault (Nat × Cursor) := do
  let (first, rest) ← c.byte c.offset .truncatedLength
  if first < 128 then
    return (first.toNat, rest)
  else
    let count := first.toNat - 128
    if count = 0 then
      malformedAt c.offset .indefiniteLength
    else if 4 < count then
      malformedAt c.offset .lengthTooLarge
    else
      match rest.split? count with
      | none => malformedAt rest.offset .truncatedLength
      | some ([], _) => throw .missingByte
      | some (digits, rest) =>
        if digits.head? = some 0 then
          malformedAt c.offset .paddedLength
        else if Octets.toNat digits < 128 then
          malformedAt c.offset .longFormLength
        else
          return (Octets.toNat digits, rest)

/-- Reading a length takes at least one byte. -/
theorem consumes_read (c : Cursor) : Consumes c.bytes.length (read c) := by
  unfold read
  refine Consumes.bind (Consumes.byte _ _ _) fun first after shorter => ?_
  simp only
  split
  · exact Consumes.ok _ shorter
  split
  · exact Consumes.error _ _
  split
  · exact Consumes.error _ _
  split
  · exact Consumes.error _ _
  · exact Consumes.error _ _
  next found =>
    have := Cursor.bytes_length_of_split? found
    split
    · exact Consumes.error _ _
    split
    · exact Consumes.error _ _
    · exact Consumes.ok _ (by omega)

end Length

end AttestedKey.Der
