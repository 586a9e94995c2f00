import AttestedKey.Octets
import AttestedKey.Text.Blank

/-!
# Armoured certificates

A certificate may come as text.  Such a text has sections, each between a mark that begins it
and a mark that ends it, with a label in both.  A section has base-64 digits, with blanks
anywhere among them; in front of the digits may stand headers, which end at an empty line.
`Base64.decode` reads digits, which must fill their last group of four with pads and leave no
bit over.  `Pem.sections` finds the sections, `Pem.Section.decode` reads one, and `Pem.decode`
the first of them that holds a certificate, provided that all of them can be read.  What stands
between sections, or behind the last of them, is not looked at.  `Pem.isArmoured` tells an
armoured text from other octets.
-/

namespace AttestedKey

namespace Base64

/-- The six bits that a digit stands for. -/
def value? (digit : UInt8) : Option Nat :=
  let n := digit.toNat
  if 65 ≤ n ∧ n ≤ 90 then some (n - 65)
  else if 97 ≤ n ∧ n ≤ 122 then some (n - 97 + 26)
  else if 48 ≤ n ∧ n ≤ 57 then some (n - 48 + 52)
  else if n = 43 then some 62
  else if n = 47 then some 63
  else none

/-- Reads groups of four digits.  The last group may end in one or two pads. -/
def decode : Octets → Option Octets
  | [] => some []
  | [a, b, 61, 61] => do
    let a ← value? a
    let b ← value? b
    guard (b % 16 = 0)
    return [UInt8.ofNat (a * 4 + b / 16)]
  | [a, b, c, 61] => do
    let a ← value? a
    let b ← value? b
    let c ← value? c
    guard (c % 4 = 0)
    return [UInt8.ofNat (a * 4 + b / 16), UInt8.ofNat (b % 16 * 16 + c / 4)]
  | a :: b :: c :: d :: rest => do
    let a ← value? a
    let b ← value? b
    let c ← value? c
    let d ← value? d
    let rest ← decode rest
    return UInt8.ofNat (a * 4 + b / 16) :: UInt8.ofNat (b % 16 * 16 + c / 4) ::
      UInt8.ofNat (c % 4 * 64 + d) :: rest
  | _ => none

end Base64

namespace Pem

/-- What every armoured text begins with. -/
def opening : Octets := Octets.ofString "-----BEGIN"

/-- Whether an octet is one of the six blanks of ASCII. -/
def isBlank (octet : UInt8) : Bool := octet == 32 || (9 ≤ octet && octet ≤ 13)

/-- Whether octets are an armoured text, with blanks allowed in front. -/
def isArmoured (octets : Octets) : Bool :=
  opening.isPrefixOf (octets.dropWhile isBlank)

/-! ### Marks -/

/-- The octets up to the end of a mark of which `left` is still to come, and those after it.
Each octet is looked at once: one that breaks the mark off does not begin it anew. -/
def scan (mark : Octets) : (left : Octets) → Octets → Option (Octets × Octets)
  | [], octets => some ([], octets)
  | _ :: _, [] => none
  | next :: left, octet :: rest =>
    let left := if octet = next then left else mark
    (scan mark left rest).map fun (seen, after) => (octet :: seen, after)

/-- The octets before and after the first occurrence of a mark. -/
def splitAt? (mark octets : Octets) : Option (Octets × Octets) :=
  (scan mark mark octets).map fun (seen, after) =>
    (seen.take (seen.length - mark.length), after)

/-- Looking for a mark divides the octets into those seen and those after it. -/
theorem length_of_scan {mark left octets seen after : Octets}
    (h : scan mark left octets = some (seen, after)) :
    seen.length + after.length = octets.length := by
  induction octets generalizing left seen after with
  | nil =>
    cases left with
    | nil => simp_all [scan]
    | cons next left => simp [scan] at h
  | cons octet rest ih =>
    cases left with
    | nil =>
      obtain ⟨rfl, rfl⟩ : [] = seen ∧ octet :: rest = after := by simpa [scan] using h
      simp
    | cons next left =>
      simp only [scan, Option.map_eq_some_iff, Prod.mk.injEq, Prod.exists] at h
      obtain ⟨first, last, found, rfl, rfl⟩ := h
      have := ih found
      simp only [List.length_cons]
      omega

/-- What stands after a mark is no longer than the whole. -/
theorem length_of_splitAt? {mark octets before after : Octets}
    (h : splitAt? mark octets = some (before, after)) : after.length ≤ octets.length := by
  simp only [splitAt?, Option.map_eq_some_iff, Prod.mk.injEq, Prod.exists] at h
  obtain ⟨seen, last, found, _, rfl⟩ := h
  have := length_of_scan found
  omega

/-- What stands after a mark that is not empty is shorter than the whole. -/
theorem length_lt_of_splitAt? {mark octets before after : Octets} (nonempty : mark ≠ [])
    (h : splitAt? mark octets = some (before, after)) : after.length < octets.length := by
  simp only [splitAt?, Option.map_eq_some_iff, Prod.mk.injEq, Prod.exists] at h
  obtain ⟨seen, last, found, _, rfl⟩ := h
  have total := length_of_scan found
  cases mark with
  | nil => exact absurd rfl nonempty
  | cons next left =>
    cases octets with
    | nil => simp [scan] at found
    | cons octet rest =>
      simp only [scan, Option.map_eq_some_iff, Prod.mk.injEq, Prod.exists] at found
      obtain ⟨first, after, _, rfl, rfl⟩ := found
      simp only [List.length_cons] at total ⊢
      omega

/-- The mark of the beginning, up to the label. -/
def beginMark : Octets := Octets.ofString "-----BEGIN "

/-- The mark of the end, up to the label. -/
def endMark : Octets := Octets.ofString "-----END "

/-- What follows a label. -/
def labelMark : Octets := Octets.ofString "-----"

/-! ### Sections -/

/-- The parts of a section, as they stand in the text. -/
structure Section where
  /-- The label at the beginning. -/
  label : Octets
  /-- Headers and digits. -/
  body : Octets
  /-- The label at the end. -/
  closing : Octets
  deriving DecidableEq, Repr

/-- Whether an octet is a blank that may follow a mark. -/
def isSpacing (octet : UInt8) : Bool :=
  octet == 32 || octet == 9 || octet == 10 || octet == 13

/-- The first section of a text, and the text behind it. -/
def first? (octets : Octets) : Option (Section × Octets) := do
  let (_, rest) ← splitAt? beginMark octets
  let (label, rest) ← splitAt? labelMark rest
  let (body, rest) ← splitAt? endMark (rest.dropWhile isSpacing)
  let (closing, rest) ← splitAt? labelMark rest
  return (⟨label, body, closing⟩, rest)

/-- What stands after a section is shorter than the whole. -/
theorem length_of_first? {octets rest : Octets} {s : Section}
    (h : first? octets = some (s, rest)) : rest.length < octets.length := by
  simp only [first?, Option.bind_eq_bind, Option.bind_eq_some_iff, Option.pure_def,
    Option.some.injEq, Prod.exists, Prod.mk.injEq] at h
  obtain ⟨_, afterBegin, begun, _, afterLabel, labelled, _, afterEnd, ended, _, _, closed, _,
    rfl⟩ := h
  have := length_lt_of_splitAt? (by decide +kernel) begun
  have := length_of_splitAt? labelled
  have := length_of_splitAt? ended
  have := length_of_splitAt? closed
  have := (List.dropWhile_sublist isSpacing (l := afterLabel)).length_le
  omega

/-- The sections of a text. -/
def sections (octets : Octets) : List Section :=
  match _taken : first? octets with
  | none => []
  | some (s, rest) => s :: sections rest
  termination_by octets.length
  decreasing_by exact length_of_first? _taken

namespace Section

/-- Two line ends in a row, in the two forms of a line end. -/
def emptyLines : List Octets := [[10, 10], [13, 10, 13, 10]]

/-- The headers, if there are any, and the digits of a section. -/
def parts (s : Section) : Octets × Octets :=
  (emptyLines.findSome? fun mark => splitAt? mark s.body).getD ([], s.body)

/-- Whether each line of some headers has a colon. -/
def areHeaders (text : String) : Bool :=
  let lines := text.splitOn "\n"
  let lines := if lines.getLast? = some "" then lines.dropLast else lines
  lines.all fun line => line.contains ':'

/-- The label and the content of a section. -/
def decode (s : Section) : Option (String × Octets) := do
  let label ← s.label.toString?
  guard (label ≠ "" ∧ s.closing = s.label)
  let (headers, digits) := s.parts
  let headers ← headers.toString?
  guard (areHeaders headers)
  let digits ← digits.toString?
  let digits := digits.toList.filter fun c => !Text.isBlank c
  let content ← Base64.decode (Octets.ofString (String.ofList digits))
  return (label, content)

end Section

/-- The labels under which certificates come. -/
def labels : List String := ["CERTIFICATE", "X509 CERTIFICATE"]

/-- Reads the first certificate of a text. -/
def decode (octets : Octets) : Option Octets := do
  let found ← (sections octets).mapM Section.decode
  let (_, content) ← found.find? fun (label, _) => labels.contains label
  return content

end Pem

end AttestedKey
