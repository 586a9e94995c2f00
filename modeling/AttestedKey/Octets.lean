/-!
# Octet strings and the numbers they write

`Octets` is the type of every encoding in this library.  `Octets.toNat` and `Octets.ofNat`
are the two directions of base-256 notation, most significant digit first; `Octets.toInt`
and `Octets.ofInt` are the two directions of two's complement, where `ofInt` gives the
shortest form; `Octets.ofString` and `Octets.toString?` are those of UTF-8.  Two octet
strings are ordered octet by octet, a proper beginning first, which is what `compare` does
on lists.
-/

namespace AttestedKey

/-- A string of octets, first octet first. -/
abbrev Octets := List UInt8

namespace Octets

/-- The number whose base-256 digits, most significant first, are the given octets. -/
def toNat (octets : Octets) : Nat :=
  octets.foldl (fun n octet => n * 256 + octet.toNat) 0

/-- The base-256 digits of a number, most significant first and without a leading zero, so
that zero has no digits. -/
def ofNat (n : Nat) : Octets :=
  if n = 0 then [] else ofNat (n / 256) ++ [UInt8.ofNat (n % 256)]

/-- The digits of a number with a zero in front where the leading bit would otherwise be
set.  There is always at least one. -/
def ofNatSigned (n : Nat) : Octets :=
  match ofNat n with
  | [] => [0]
  | first :: rest => if first < 128 then first :: rest else 0 :: first :: rest

/-- The number that the octets represent in two's complement. -/
def toInt (octets : Octets) : Int :=
  match octets with
  | [] => 0
  | first :: _ =>
    if first < 128 then toNat octets else (toNat octets : Int) - Nat.pow 256 octets.length

/-- The shortest two's complement representation of a number.  A negative number `-n - 1`
is the complement of `n`. -/
def ofInt : Int → Octets
  | .ofNat n => ofNatSigned n
  | .negSucc n => (ofNatSigned n).map (255 - ·)

/-- The octets of a text in UTF-8. -/
def ofString (text : String) : Octets := text.toByteArray.data.toList

/-- The text that some octets are in UTF-8, if they are one. -/
def toString? (octets : Octets) : Option String := String.fromUTF8? ⟨octets.toArray⟩

/-- Zero is written without octets. -/
theorem ofNat_zero : ofNat 0 = [] := by
  rw [ofNat]
  simp

/-- A positive number is written as its quotient by 256 and then its remainder. -/
theorem ofNat_of_pos {n : Nat} (h : 0 < n) :
    ofNat n = ofNat (n / 256) ++ [UInt8.ofNat (n % 256)] := by
  rw [ofNat]
  simp [Nat.ne_of_gt h]

/-- One more octet counts for itself, and the octets before it for 256 times as much. -/
theorem toNat_append_singleton (octets : Octets) (octet : UInt8) :
    toNat (octets ++ [octet]) = toNat octets * 256 + octet.toNat := by
  simp [toNat, List.foldl_append]

/-- Reading the digits of a number gives the number back. -/
theorem toNat_ofNat (n : Nat) : toNat (ofNat n) = n := by
  induction n using Nat.strongRecOn with
  | ind n ih =>
    by_cases h : n = 0
    · subst h
      simp [ofNat_zero, toNat]
    · rw [ofNat_of_pos (Nat.pos_of_ne_zero h), toNat_append_singleton, ih (n / 256) (by omega)]
      simp only [UInt8.toNat_ofNat', Nat.reducePow]
      omega

/-- A text is read back from its octets. -/
theorem toString?_ofString (text : String) : toString? (ofString text) = some text := by
  have bytes : (⟨(ofString text).toArray⟩ : ByteArray) = text.toByteArray := by
    simp [ofString]
  unfold toString? String.fromUTF8?
  rw [bytes, dif_pos text.isValidUTF8]
  rfl

end Octets

end AttestedKey
