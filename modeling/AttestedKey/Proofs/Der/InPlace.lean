import AttestedKey.Der.Primitive
import AttestedKey.Proofs.Outcome

/-!
# Reading in place

A reader can work on a whole input, with a place in it and a bound, and leave everything where it
is: a `Bounds` says where an element of the input begins and ends, and its octets are looked up only
when a value is made of them.  `Tag.readAt`, `Length.readAt` and `elementAt` test each place against
the bound before they look at the byte there, `readAt` makes a value of the bounds of an element,
and `loopAt` runs a step over the elements up to the bound.  Each of them ends further on than it
begins (`lt_of_elementAt`), so the loop comes to an end.
-/

namespace AttestedKey

open Outcome

/-- The octets of an input between two places. -/
def Octets.slice (data : Octets) (start stop : ℕ) : Octets := (data.drop start).take (stop - start)

/-- A slice within the input is as long as its bounds say. -/
lemma Octets.length_slice {data : Octets} {start stop : ℕ} (h : stop ≤ data.length) :
    (data.slice start stop).length = stop - start := by
  unfold Octets.slice
  rw [List.length_take, List.length_drop]
  omega

/-- Octets between others are cut out. -/
lemma Octets.slice_append (a b c : Octets) :
    (a ++ (b ++ c)).slice a.length (a.length + b.length) = b := by
  unfold Octets.slice
  rw [List.drop_left, Nat.add_sub_cancel_left, List.take_left]

/-- Of two parts that are cut out together, each is cut out at its own place. -/
lemma Octets.slice_eq_append {data a b : Octets} {start : ℕ}
    (h : data.slice start (start + (a ++ b).length) = a ++ b) :
    data.slice start (start + a.length) = a ∧
      data.slice (start + a.length) (start + (a ++ b).length) = b := by
  unfold Octets.slice at h ⊢
  rw [Nat.add_sub_cancel_left, List.length_append] at h
  rw [Nat.add_sub_cancel_left, Nat.add_sub_add_left, List.length_append, Nat.add_sub_cancel_left]
  constructor
  · calc (data.drop start).take a.length
        = ((data.drop start).take (a.length + b.length)).take a.length := by
          rw [List.take_take, Nat.min_eq_left (Nat.le_add_right ..)]
      _ = a := by rw [h, List.take_left]
  · calc (data.drop (start + a.length)).take b.length
        = ((data.drop start).take (a.length + b.length)).drop a.length := by
          rw [List.drop_take, List.drop_drop, Nat.add_sub_cancel_left]
      _ = b := by rw [h, List.drop_left]

namespace Der

/-! ### Readers at places -/

/-- The byte of an input at a place. -/
def byteAt (data : Octets) (idx : ℕ) : Except Fault UInt8 :=
  match data[idx]? with
  | some byte => .ok byte
  | none => .error .missingByte

/-- Reads base-128 digits up to the first one without a mark, at most `limit` of them, and adds them
to the number read before.  The first digit must not be zero. -/
def Tag.readDigitsAt (data : Octets) (start stop : ℕ) :
    (limit number idx : ℕ) → Except Fault (ℕ × ℕ)
  | 0, _, _ => malformedAt start .tagNumberTooLarge
  | limit + 1, number, idx =>
    if stop ≤ idx then
      malformedAt start .truncatedTagNumber
    else do
      let digit ← byteAt data idx
      if idx = start ∧ digit = 128 then
        malformedAt start .paddedTagNumber
      else
        let number := number * 128 + digit.toNat % 128
        if digit < 128 then
          return (number, idx + 1)
        else
          readDigitsAt data start stop limit number (idx + 1)

/-- Reads a tag number that does not fit into the first byte. -/
def Tag.readNumberAt (data : Octets) (idx stop : ℕ) : Except Fault (ℕ × ℕ) := do
  let (number, next) ← Tag.readDigitsAt data idx stop 4 0 idx
  if number < 31 then
    malformedAt idx .longFormTagNumber
  else
    return (number, next)

/-- Reads an identifier. -/
def Tag.readAt (data : Octets) (idx stop : ℕ) : Except Fault (Tag × ℕ) :=
  if stop ≤ idx then
    malformedAt idx .missingTag
  else do
    let first ← byteAt data idx
    let low := first.toNat % 32
    let (number, next) ←
      if low = 31 then Tag.readNumberAt data (idx + 1) stop else pure (low, idx + 1)
    return (⟨.ofCode (first.toNat / 64), first.toNat / 32 % 2 == 1, number⟩, next)

/-- Reads a length. -/
def Length.readAt (data : Octets) (idx stop : ℕ) : Except Fault (ℕ × ℕ) :=
  if stop ≤ idx then
    malformedAt idx .truncatedLength
  else do
    let first ← byteAt data idx
    if first < 128 then
      return (first.toNat, idx + 1)
    else
      let count := first.toNat - 128
      if count = 0 then
        malformedAt idx .indefiniteLength
      else if 4 < count then
        malformedAt idx .lengthTooLarge
      else if stop < idx + 1 + count then
        malformedAt (idx + 1) .truncatedLength
      else
        let lead ← byteAt data (idx + 1)
        if lead = 0 then
          malformedAt idx .paddedLength
        else
          let length := Octets.toNat (data.slice (idx + 1) (idx + 1 + count))
          if length < 128 then
            malformedAt idx .longFormLength
          else
            return (length, idx + 1 + count)

/-- Where an element of an input is. -/
structure Bounds where
  /-- What the element is. -/
  tag : Tag
  /-- Where it begins. -/
  offset : ℕ
  /-- Where its content begins. -/
  start : ℕ
  /-- Where it ends. -/
  stop : ℕ
  deriving DecidableEq

/-- Reads the bounds of one element. -/
def elementAt (data : Octets) (idx stop : ℕ) : Except Fault (Bounds × ℕ) := do
  let (tag, next) ← Tag.readAt data idx stop
  let (length, next) ← Length.readAt data next stop
  if stop < next + length then
    malformedAt idx (.overrun tag length)
  else
    return (⟨tag, idx, next, next + length⟩, next + length)

/-- Reads the bounds of one element and makes a value of them. -/
def readAt {α : Type} (interpret : Bounds → Except Fault α) (data : Octets) (idx stop : ℕ) :
    Except Fault (α × ℕ) := do
  let (b, next) ← elementAt data idx stop
  let value ← interpret b
  return (value, next)

namespace Bounds

/-- The octets between the bounds. -/
def content (data : Octets) (b : Bounds) : Octets := data.slice b.start b.stop

/-- The element between the bounds. -/
def element (data : Octets) (b : Bounds) : Element :=
  ⟨b.tag, b.offset, b.start, b.stop - b.start, b.content data⟩

/-- The same bounds some places further on. -/
def moved (s : ℕ) (b : Bounds) : Bounds :=
  ⟨b.tag, s + b.offset, s + b.start, s + b.stop⟩

/-- The bounds of an element of a universal type. -/
def expect (type : Universal) (b : Bounds) : Except Fault Bounds :=
  if b.tag = type.tag then
    .ok b
  else
    malformedAt b.offset (.unexpectedType type b.tag)

/-- The bounds of an explicit wrapper, with a given number if one is asked for. -/
def expectExplicit (number : Option ℤ) (b : Bounds) : Except Fault Bounds :=
  if b.tag.isExplicit then
    match number with
    | none => .ok b
    | some n =>
      if (b.tag.number : ℤ) = n then .ok b
      else malformedNumberAt b.offset n (.otherExplicit n b.tag)
  else
    malformedAt b.offset (.notExplicit b.tag)

/-- The number between the bounds of an element of the given type. -/
def toNumber (data : Octets) (type : Universal) (b : Bounds) : Except Fault ℤ := do
  let b ← b.expect type
  let body := b.content data
  if body.isEmpty then
    malformedAt b.offset (.emptyNumber type)
  else if Element.isPadded body then
    malformedAt b.offset (.paddedNumber type)
  else
    return Octets.toInt body

/-- The value of an INTEGER between zero and a maximum. -/
def toUnsigned (data : Octets) (field : String) (maximum : ℕ) (b : Bounds) : Except Fault ℤ := do
  let value ← b.toNumber data .integer
  if value < 0 ∨ (maximum : ℤ) < value then
    malformedNumberAt b.offset value (.outsideRange field value maximum)
  else
    return value

/-- The content of an OCTET STRING. -/
def toOctets (data : Octets) (b : Bounds) : Except Fault Octets := do
  let b ← b.expect .octetString
  return b.content data

/-- The value of a BOOLEAN. -/
def toBoolean (data : Octets) (b : Bounds) : Except Fault Bool := do
  let b ← b.expect .boolean
  if b.stop - b.start = 1 then
    let octet ← byteAt data b.start
    return octet != 0
  else
    malformedAt b.offset .booleanLength

/-- Checks a NULL. -/
def toNull (b : Bounds) : Except Fault Unit := do
  let b ← b.expect .null
  if b.stop - b.start = 0 then
    return ()
  else
    malformedAt b.offset .nullNotEmpty

end Bounds

/-! ### Loops over elements -/

/-- Behind the digits of a tag number the reader is further on. -/
lemma Tag.lt_of_readDigitsAt {data : Octets} {start stop limit number idx n next : ℕ}
    (h : Tag.readDigitsAt data start stop limit number idx = .ok (n, next)) : idx < next := by
  induction limit generalizing number idx with
  | zero => cases h
  | succ limit ih =>
    unfold Tag.readDigitsAt at h
    split at h
    · cases h
    · obtain ⟨digit, -, h⟩ := bind_eq_ok_iff.mp h
      split at h
      · cases h
      split at h
      · obtain ⟨-, rfl⟩ := Prod.mk.inj (Except.ok.inj h)
        exact Nat.lt_succ_self idx
      · exact (Nat.lt_succ_self idx).trans (ih h)

/-- Reading the number of a tag moves on. -/
lemma Tag.lt_of_readNumberAt {data : Octets} {idx stop n next : ℕ}
    (h : Tag.readNumberAt data idx stop = .ok (n, next)) : idx < next := by
  obtain ⟨⟨number, behind⟩, hdigits, h⟩ := bind_eq_ok_iff.mp h
  simp only at h
  split at h
  · cases h
  · obtain ⟨-, rfl⟩ := Prod.mk.inj (Except.ok.inj h)
    exact Tag.lt_of_readDigitsAt hdigits

/-- Reading an identifier moves on. -/
lemma Tag.lt_of_readAt {data : Octets} {idx stop next : ℕ} {t : Tag}
    (h : Tag.readAt data idx stop = .ok (t, next)) : idx < next := by
  unfold Tag.readAt at h
  split at h
  · cases h
  · obtain ⟨first, -, h⟩ := bind_eq_ok_iff.mp h
    simp only at h
    split at h
    · obtain ⟨⟨number, behind⟩, hnumber, h⟩ := bind_eq_ok_iff.mp h
      obtain ⟨-, rfl⟩ := Prod.mk.inj (Except.ok.inj h)
      exact (Nat.lt_succ_self idx).trans (Tag.lt_of_readNumberAt hnumber)
    · obtain ⟨-, rfl⟩ := Prod.mk.inj (Except.ok.inj h)
      exact Nat.lt_succ_self idx

/-- Reading a length moves on. -/
lemma Length.lt_of_readAt {data : Octets} {idx stop n next : ℕ}
    (h : Length.readAt data idx stop = .ok (n, next)) : idx < next := by
  unfold Length.readAt at h
  split at h
  · cases h
  · obtain ⟨first, -, h⟩ := bind_eq_ok_iff.mp h
    simp only at h
    split at h
    · obtain ⟨-, rfl⟩ := Prod.mk.inj (Except.ok.inj h)
      exact Nat.lt_succ_self idx
    split at h
    · cases h
    split at h
    · cases h
    split at h
    · cases h
    · obtain ⟨lead, -, h⟩ := bind_eq_ok_iff.mp h
      split at h
      · cases h
      split at h
      · cases h
      · obtain ⟨-, rfl⟩ := Prod.mk.inj (Except.ok.inj h)
        omega

/-- Behind an element the reader is further on. -/
lemma lt_of_elementAt {data : Octets} {idx stop next : ℕ} {b : Bounds}
    (h : elementAt data idx stop = .ok (b, next)) : idx < next := by
  obtain ⟨⟨tag, afterTag⟩, htag, h⟩ := bind_eq_ok_iff.mp h
  obtain ⟨⟨length, afterLength⟩, hlength, h⟩ := bind_eq_ok_iff.mp h
  have hbefore := Tag.lt_of_readAt htag
  have hbehind := Length.lt_of_readAt hlength
  simp only at h
  split at h
  · cases h
  · obtain ⟨-, rfl⟩ := Prod.mk.inj (Except.ok.inj h)
    omega

/-- Reads one element after the other until the bound is reached, and runs a step over each. -/
def loopAt {σ : Type} (step : σ → Bounds → Except Fault σ) (data : Octets) (idx stop : ℕ)
    (state : σ) : Except Fault σ :=
  if idx < stop then
    match _taken : elementAt data idx stop with
    | .error fault => .error fault
    | .ok (b, next) =>
      match step state b with
      | .error fault => .error fault
      | .ok state => loopAt step data next stop state
  else
    .ok state
  termination_by stop - idx
  decreasing_by
    have hnext := lt_of_elementAt _taken
    omega

section Loop

variable {σ : Type} {step : σ → Bounds → Except Fault σ} {data : Octets} {idx stop : ℕ} {state : σ}

/-- A loop ends where its bound is reached. -/
lemma loopAt_of_le (h : stop ≤ idx) : loopAt step data idx stop state = .ok state := by
  rw [loopAt, if_neg (by omega)]

/-- A loop that has not reached its bound reads an element, runs its step and goes on. -/
lemma loopAt_of_lt (h : idx < stop) :
    loopAt step data idx stop state = elementAt data idx stop >>= fun read =>
      step state read.1 >>= fun state => loopAt step data read.2 stop state := by
  rw [loopAt, if_pos h]
  split
  next fault hread => rw [hread, error_bind]
  next b next hread =>
    rw [hread, ok_bind]
    cases step state b <;> rfl

end Loop

end Der

end AttestedKey
