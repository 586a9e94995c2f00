import AttestedKey.Proofs.AuthorizationList.Form
import AttestedKey.Proofs.KeyDescription

/-!
# What is wrong with an input, and where

Whatever is read between two places fails there.  A cursor between two places has all its bytes and
ends before the upper one (`Cursor.Within`), and an element is a readable item at its place
(`Element.Within`).  Identifiers, lengths and elements are read, or there is a malformation between
the two places (`Fault.IsMalformed`).

Above them, the two places are those of a region, and the readers stay in it: what they read is part
of the region (`Cursor.PartOf`, `Element.PartOf`), also inside of a nested list or a wrapper.  A
reader without modes ends in a value or in a plain fault of the region (`Fault.IsPlain`): a
malformation between its two ends, or a number that it holds and that is too long to be shown.
There is one lemma for each of these readers, from a single byte up to an application id.
-/

namespace AttestedKey

open Der Outcome

/-! ### Kinds of fault -/

/-- The offset of a fault is set and lies between two places. -/
def Fault.IsWithin (lo hi : ℕ) (fault : Fault) : Prop :=
  ∃ o : ℕ, fault.offset? = some (o : ℤ) ∧ lo ≤ o ∧ o ≤ hi

/-- A fault breaks the encoding or the structure, at an offset between two places. -/
def Fault.IsMalformed (lo hi : ℕ) (fault : Fault) : Prop :=
  ∃ cause o, fault = .malformed cause (some o) ∧ lo ≤ o ∧ o ≤ hi

/-- A malformation between two places has its offset there. -/
lemma Fault.IsMalformed.isWithin {lo hi : ℕ} {fault : Fault} (h : fault.IsMalformed lo hi) :
    fault.IsWithin lo hi := by
  obtain ⟨cause, o, rfl, ho⟩ := h
  exact ⟨o, rfl, ho⟩

/-- A reading that ends in a malformation between two places. -/
lemma Outcome.Ends.malformed {lo hi o : ℕ} {α : Type} {p : α → Prop} (ho : lo ≤ o ∧ o ≤ hi)
    (cause : Malformation) :
    Ends (Fault.IsMalformed lo hi) p (malformedAt o cause : Except Fault α) :=
  ⟨cause, o, rfl, ho⟩

namespace Der

/-! ### Places in an input -/

/-- A region has all its bytes, and they lie between two places. -/
structure Cursor.Within (lo hi : ℕ) (c : Cursor) : Prop where
  /-- Every position of the region has its byte. -/
  missing : c.missing = 0
  /-- The region does not begin before the first place. -/
  lower : lo ≤ c.offset
  /-- The region does not end behind the second one. -/
  upper : c.offset + c.bytes.length ≤ hi

/-- An element is a readable item that stands between two places. -/
inductive Element.Within (lo hi : ℕ) : Element → Prop
  /-- A readable item at a place. -/
  | placed {i : Item} {o : ℕ} (readable : i.Readable) (lower : lo ≤ o)
    (upper : o + i.octets.length ≤ hi) : Within lo hi (i.placed o)

/-- Where the bytes of a region end. -/
def Cursor.stop (c : Cursor) : ℕ := c.offset + c.bytes.length

/-- A whole input ends at its length. -/
@[simp] lemma Cursor.stop_start (input : Octets) : (Cursor.start input).stop = input.length :=
  Nat.zero_add _

variable {lo hi : ℕ}

/-- A region with all its bytes lies between its own two ends. -/
lemma Cursor.within_self {c : Cursor} (hc : c.missing = 0) : c.Within c.offset c.stop :=
  ⟨hc, le_rfl, le_rfl⟩

namespace Cursor.Within

variable {c : Cursor} (hc : c.Within lo hi)

include hc

/-- A region between two places begins between them. -/
lemma offset_bounds : lo ≤ c.offset ∧ c.offset ≤ hi := by
  have hupper := hc.upper
  exact ⟨hc.lower, by omega⟩

/-- What is left after some octets is within the same bounds. -/
lemma advances {a : Octets} {c' : Cursor} (h : c.Advances a c') : c'.Within lo hi := by
  have hlower := hc.lower
  have hupper := hc.upper
  have hoffset := h.offset
  have hlength := congrArg List.length h.bytes
  rw [List.length_append] at hlength
  exact ⟨h.missing.trans hc.missing, by omega, by omega⟩

/-- An element of the region and what is left after it are within the same bounds. -/
lemma element {e : Element} {c' : Cursor} (h : c.element = .ok (e, c')) :
    e.Within lo hi ∧ c'.Within lo hi := by
  obtain ⟨i, hreadable, hadv, rfl⟩ := (element_eq_ok_iff hc.missing).mp h
  have hafter := hc.advances hadv
  have hupper := hafter.upper
  have hoffset := hadv.offset
  exact ⟨.placed hreadable hc.lower (by omega), hafter⟩

end Cursor.Within

namespace Element.Within

variable {e : Element} (he : e.Within lo hi)

include he

/-- An element between two places begins between them. -/
lemma offset_bounds : lo ≤ e.offset ∧ e.offset ≤ hi := by
  cases he with
  | @placed i o _ hlower hupper =>
    change lo ≤ o ∧ o ≤ hi
    omega

/-- The content of an element has the length that the element states. -/
lemma length_content : e.content.length = e.length := by
  obtain ⟨-, -, -⟩ := he
  rfl

/-- The region inside an element is within the same bounds. -/
lemma inside : e.inside.Within lo hi := by
  cases he with
  | @placed i o _ hlower hupper =>
    rw [Item.length_octets] at hupper
    rw [Item.inside_placed]
    refine ⟨rfl, ?_, ?_⟩
    · change lo ≤ o + i.header.length
      omega
    · change o + i.header.length + i.content.length ≤ hi
      omega

end Element.Within

/-! ### Identifiers and lengths -/

section Header

variable {c : Cursor} (hc : c.Within lo hi)

include hc

/-- A byte is taken, or the region has ended. -/
lemma Cursor.byte_ends {o : ℕ} (ho : lo ≤ o ∧ o ≤ hi) (cause : Malformation) :
    Ends (Fault.IsMalformed lo hi) (fun read => read.2.Within lo hi) (c.byte o cause) := by
  refine Ends.of_eq ?_ fun read hread => hc.advances (Cursor.byte_eq_ok_iff.mp hread)
  unfold Cursor.byte Cursor.byte?
  rw [hc.missing]
  cases c.bytes with
  | nil => exact Ends.malformed ho cause
  | cons byte rest => exact trivial

/-- The digits of a tag number are read, or the number is malformed where it starts. -/
lemma Tag.readDigits_ends {start : ℕ} (hstart : lo ≤ start ∧ start ≤ hi) (limit number : ℕ) :
    Ends (Fault.IsMalformed lo hi) (fun read => read.2.Within lo hi)
      (readDigits start limit number c) := by
  induction limit generalizing number c with
  | zero => exact Ends.malformed hstart _
  | succ limit ih =>
    unfold readDigits
    refine (Cursor.byte_ends hc hstart _).bind fun taken hrest => ?_
    obtain ⟨digit, rest⟩ := taken
    simp only
    split
    · exact hrest
    · exact ih hrest _

/-- A tag number behind the first byte is read, or malformed where it starts. -/
lemma Tag.readNumber_ends :
    Ends (Fault.IsMalformed lo hi) (fun read => read.2.Within lo hi) (readNumber c) := by
  unfold readNumber
  split
  · exact Ends.malformed hc.offset_bounds _
  · refine (readDigits_ends hc hc.offset_bounds _ _).bind fun digits hrest => ?_
    obtain ⟨number, rest⟩ := digits
    simp only
    split
    · exact Ends.malformed hc.offset_bounds _
    · exact hrest

/-- An identifier is read, or malformed within its region. -/
lemma Tag.read_ends :
    Ends (Fault.IsMalformed lo hi) (fun read => read.2.Within lo hi) (read c) := by
  unfold read
  refine (Cursor.byte_ends hc hc.offset_bounds _).bind fun taken hrest => ?_
  obtain ⟨first, rest⟩ := taken
  simp only
  split
  · exact (readNumber_ends hrest).bind fun _ hafter => hafter
  · exact hrest

/-- A length is read, or malformed within its region.  Since the region has all its bytes, no digit
is missing. -/
lemma Length.read_ends :
    Ends (Fault.IsMalformed lo hi) (fun read => read.2.Within lo hi) (read c) := by
  refine Ends.of_eq ?_ fun read hread => hc.advances ((read_eq_ok_iff hc.missing).mp hread).2
  unfold read
  refine (Cursor.byte_ends hc hc.offset_bounds _).bind fun taken hrest => ?_
  obtain ⟨first, rest⟩ := taken
  simp only
  split
  · exact trivial
  generalize first.toNat - 128 = count
  split
  · exact Ends.malformed hc.offset_bounds _
  next hcount =>
    split
    · exact Ends.malformed hc.offset_bounds _
    split
    · exact Ends.malformed hrest.offset_bounds _
    -- The digits are there, as the region has all its octets, and they are as many as was said.
    next after hsplit =>
      obtain ⟨hlength, -⟩ := (Cursor.split?_eq_some_iff hrest.missing).mp hsplit
      exact absurd hlength.symm hcount
    · split
      · exact Ends.malformed hc.offset_bounds _
      split
      · exact Ends.malformed hc.offset_bounds _
      · exact trivial

/-- An element is read, or there is a malformation within its region. -/
lemma Cursor.element_ends :
    Ends (Fault.IsMalformed lo hi) (fun read => read.1.Within lo hi ∧ read.2.Within lo hi)
      c.element := by
  refine Ends.of_eq ?_ fun read hread => hc.element hread
  unfold Cursor.element
  refine (Tag.read_ends hc).bind fun read hafterTag => ?_
  obtain ⟨tag, afterTag⟩ := read
  refine (Length.read_ends hafterTag).bind fun read _ => ?_
  obtain ⟨length, afterLength⟩ := read
  simp only
  split
  · exact Ends.malformed hc.offset_bounds _
  · exact trivial

end Header

/-! ### Parts of a region -/

/-- A region holds its elements, one after another, and what the regions inside of them hold. -/
inductive Cursor.Holds : Cursor → Element → Prop
  /-- It holds its first element. -/
  | first {c after : Cursor} {e : Element} (h : c.element = .ok (e, after)) : Holds c e
  /-- It holds what is held behind this element. -/
  | behind {c after : Cursor} {e e' : Element} (h : c.element = .ok (e, after))
    (h' : Holds after e') : Holds c e'
  /-- It holds what is held inside of this element. -/
  | inside {c after : Cursor} {e e' : Element} (h : c.element = .ok (e, after))
    (h' : Holds e.inside e') : Holds c e'

/-- A region holds what is held inside of the elements that it holds. -/
lemma Cursor.Holds.trans {c : Cursor} {e e' : Element} (h : c.Holds e) (h' : e.inside.Holds e') :
    c.Holds e' := by
  induction h with
  | first h => exact .inside h h'
  | behind h _ ih => exact .behind h (ih h')
  | inside h _ ih => exact .inside h (ih h')

/-- A region is part of another one: it lies between its two ends, and what it holds is held
there. -/
structure Cursor.PartOf (c region : Cursor) : Prop where
  /-- It lies between the two ends of the other one. -/
  within : c.Within region.offset region.stop
  /-- The other one holds what it holds. -/
  holds : ∀ e, c.Holds e → region.Holds e

/-- An element is part of a region: it lies between its two ends and is held by it. -/
structure Element.PartOf (e : Element) (region : Cursor) : Prop where
  /-- It lies between the two ends of the region. -/
  within : e.Within region.offset region.stop
  /-- The region holds it. -/
  holds : region.Holds e

/-- A region with all its bytes is part of itself. -/
lemma Cursor.partOf_self {c : Cursor} (hc : c.missing = 0) : c.PartOf c :=
  ⟨within_self hc, fun _ h => h⟩

variable {region : Cursor}

namespace Cursor.PartOf

variable {c : Cursor} (hc : c.PartOf region)

include hc

/-- A part of a region begins between the two ends of the region. -/
lemma offset_bounds : region.offset ≤ c.offset ∧ c.offset ≤ region.stop := hc.within.offset_bounds

/-- An element of a part and what is left after it are parts too. -/
lemma element {e : Element} {c' : Cursor} (h : c.element = .ok (e, c')) :
    e.PartOf region ∧ c'.PartOf region := by
  obtain ⟨he, hafter⟩ := hc.within.element h
  exact ⟨⟨he, hc.holds e (.first h)⟩, ⟨hafter, fun e' h' => hc.holds e' (.behind h h')⟩⟩

/-- A value that was read comes from an element of the region, and what is left after it is part of
the region. -/
lemma read {α : Type} {interpret : Element → Except Fault α} {v : α} {c' : Cursor}
    (h : c.read interpret = .ok (v, c')) :
    (∃ e : Element, e.PartOf region ∧ interpret e = .ok v) ∧ c'.PartOf region := by
  obtain ⟨⟨e, after⟩, helement, h⟩ := bind_eq_ok_iff.mp h
  obtain ⟨w, hw, h⟩ := bind_eq_ok_iff.mp h
  obtain ⟨rfl, rfl⟩ := Prod.mk.inj (Except.ok.inj h)
  obtain ⟨he, hafter⟩ := hc.element helement
  exact ⟨⟨e, he, hw⟩, hafter⟩

end Cursor.PartOf

namespace Element.PartOf

variable {e : Element} (he : e.PartOf region)

include he

/-- An element of a region begins between the two ends of the region. -/
lemma offset_bounds : region.offset ≤ e.offset ∧ e.offset ≤ region.stop := he.within.offset_bounds

/-- The region inside of an element is a part too. -/
lemma inside : e.inside.PartOf region :=
  ⟨he.within.inside, fun _ h => he.holds.trans h⟩

/-- The region that an element of a universal type opens is a part too. -/
lemma ofType_inside {type : Universal} {c : Cursor}
    (h : (e.ofType type >>= fun e => .ok e.inside) = .ok c) : c.PartOf region := by
  obtain ⟨e', hsame, hinside⟩ := bind_eq_ok_iff.mp h
  obtain ⟨-, rfl⟩ := ofType_eq_ok_iff.mp hsame
  obtain rfl : e'.inside = c := Except.ok.inj hinside
  exact he.inside

end Element.PartOf

/-- A sequence or a set that was read opens a part of the region. -/
lemma Cursor.PartOf.readRegion {type : Universal} {c inner c' : Cursor} (hc : c.PartOf region)
    (h : c.read (fun e => e.ofType type >>= fun e => .ok e.inside) = .ok (inner, c')) :
    inner.PartOf region ∧ c'.PartOf region := by
  obtain ⟨⟨e, he, hinner⟩, hafter⟩ := hc.read h
  exact ⟨he.ofType_inside hinner, hafter⟩

/-- A region holds a number if it holds an INTEGER or an ENUMERATED with this value. -/
def Cursor.HoldsNumber (region : Cursor) (n : ℤ) : Prop :=
  ∃ e : Element, region.Holds e ∧ (e.toInteger = .ok n ∨ e.toEnumerated = .ok n)

end Der

/-! ### Plain faults -/

/-- A fault says only that there is something wrong with a number, and the region holds one that is
too long to be shown. -/
def Fault.IsUnprintable (region : Cursor) (fault : Fault) : Prop :=
  fault = .unprintable ∧ ∃ n, region.HoldsNumber n ∧ ¬ Text.HasNumeral n

/-- A fault of a region that does not depend on the mode. -/
def Fault.IsPlain (region : Cursor) (fault : Fault) : Prop :=
  fault.IsMalformed region.offset region.stop ∨ fault.IsUnprintable region

section

variable {region : Cursor} {α β σ : Type} {p : α → Prop}

/-- A malformation between the two ends of a region is a plain fault. -/
lemma Outcome.Ends.plain {x : Except Fault α}
    (h : Ends (Fault.IsMalformed region.offset region.stop) p x) :
    Ends (Fault.IsPlain region) p x :=
  h.mono fun _ => .inl

/-- A reading that ends in a malformation of a region. -/
lemma Outcome.Ends.plainAt {o : ℕ} (ho : region.offset ≤ o ∧ o ≤ region.stop)
    (cause : Malformation) :
    Ends (Fault.IsPlain region) p (malformedAt o cause : Except Fault α) :=
  (Ends.malformed ho cause).plain

/-- A fault whose text shows a number of a region is that fault, or the number is too long. -/
lemma Fault.showing_cases {n : ℤ} (hn : region.HoldsNumber n) (fault : Fault) :
    Fault.showing n fault = fault ∨ (Fault.showing n fault).IsUnprintable region := by
  unfold Fault.showing
  by_cases h : Text.HasNumeral n
  · exact .inl (if_pos h)
  · rw [if_neg h]
    exact .inr ⟨rfl, n, hn, h⟩

/-- A reading that ends in a malformation of a region, whose text shows a number of it. -/
lemma Outcome.Ends.plainNumberAt {o : ℕ} {n : ℤ} (hn : region.HoldsNumber n)
    (ho : region.offset ≤ o ∧ o ≤ region.stop) (cause : Malformation) :
    Ends (Fault.IsPlain region) p (malformedNumberAt o n cause : Except Fault α) := by
  change Fault.IsPlain region (.showing n (.malformed cause (some o)))
  rcases Fault.showing_cases hn (.malformed cause (some o)) with hsame | hlong
  · rw [hsame]
    exact .inl ⟨cause, o, rfl, ho⟩
  · exact .inr hlong

/-! ### Elements of a region -/

namespace Der

section Cursor

variable {c : Cursor} (hc : c.PartOf region)

include hc

/-- An element of a region is read, or there is a malformation in the region. -/
lemma Cursor.parts_ends :
    Ends (Fault.IsMalformed region.offset region.stop)
      (fun read => read.1.PartOf region ∧ read.2.PartOf region) c.element := by
  refine Ends.of_eq ?_ fun read hread => hc.element hread
  exact (Cursor.element_ends hc.within).imp fun _ _ => trivial

/-- An element of a region and a value of it are read, or there is a plain fault. -/
lemma Cursor.read_ends {interpret : Element → Except Fault α}
    (h : ∀ e, e.PartOf region → Ends (Fault.IsPlain region) p (interpret e)) :
    Ends (Fault.IsPlain region) (fun read => p read.1 ∧ read.2.PartOf region)
      (c.read interpret) := by
  unfold Cursor.read
  refine (Cursor.parts_ends hc).plain.bind fun read hread => ?_
  obtain ⟨e, rest⟩ := read
  exact (h e hread.1).bind fun _ hvalue => ⟨hvalue, hread.2⟩

/-- The elements of a walk are parts of the region, and what ends it is malformed. -/
lemma Cursor.walk_ends : (∀ e ∈ c.walk.elements, e.PartOf region) ∧
    ∀ fault ∈ c.walk.fault, fault.IsMalformed region.offset region.stop := by
  -- On the octets that are left, of which every element takes some.
  induction hn : c.bytes.length using Nat.strongRecOn generalizing c with
  | ind n ih =>
    by_cases hend : c.atEnd = true
    · rw [Cursor.walk_of_atEnd hend]
      simp
    · rw [Bool.not_eq_true] at hend
      have hread := Cursor.parts_ends hc
      cases htaken : c.element with
      | error fault =>
        rw [Cursor.walk_of_error hend htaken]
        rw [htaken] at hread
        refine ⟨by simp, ?_⟩
        rintro _ ⟨⟩
        exact hread
      | ok taken =>
        obtain ⟨e, rest⟩ := taken
        rw [htaken] at hread
        obtain ⟨he, hrest⟩ := hread
        have hshorter := Cursor.bytes_length_of_element htaken
        obtain ⟨helements, hfault⟩ := ih _ (hn ▸ hshorter) hrest rfl
        rw [Cursor.walk_of_ok hend htaken]
        exact ⟨List.forall_mem_cons.mpr ⟨he, helements⟩, hfault⟩

/-- After a loop over the elements of a walk there is nothing but the fault of the walk. -/
lemma Cursor.walk_end {I : σ → Prop} {s : σ} (hs : I s) :
    Ends (Fault.IsPlain region) I (match c.walk.fault with
      | none => pure s
      | some fault => throw fault) := by
  have hfault := (Cursor.walk_ends hc).2
  cases hwalk : c.walk.fault with
  | none => exact hs
  | some fault => exact .inl (hfault fault hwalk)

/-- What each round keeps, a loop over a region keeps. -/
lemma Walk.foldlM_ends {I : σ → Prop} {step : σ → Element → Except Fault σ}
    (h : ∀ s e, I s → e.PartOf region → Ends (Fault.IsPlain region) I (step s e)) {s : σ}
    (hs : I s) : Ends (Fault.IsPlain region) I (c.walk.foldlM step s) := by
  have helements := (Cursor.walk_ends hc).1
  unfold Walk.foldlM
  exact (Ends.foldlM (fun s hs e he => h s e hs (helements e he)) hs).bind fun t ht =>
    Cursor.walk_end hc ht

/-- A region is walked to its end, or there is a plain fault. -/
lemma Walk.complete_ends :
    Ends (Fault.IsPlain region) (fun elements => ∀ e ∈ elements, e.PartOf region)
      c.walk.complete := by
  obtain ⟨helements, hfault⟩ := Cursor.walk_ends hc
  unfold Walk.complete
  split
  · exact helements
  next fault heq => exact .inl (hfault fault heq)

/-- The elements of a region that was walked to its end are parts of it. -/
lemma Cursor.PartOf.complete {elements : List Element} (h : c.walk.complete = .ok elements) :
    ∀ e ∈ elements, e.PartOf region := by
  have hends := Walk.complete_ends hc
  rwa [h] at hends

end Cursor

namespace Element

variable {e : Element} (he : e.PartOf region)

include he

/-- An element has the required type, or it is malformed. -/
lemma ofType_ends (type : Universal) :
    Ends (Fault.IsMalformed region.offset region.stop) (fun e' => e' = e) (e.ofType type) := by
  refine Ends.of_eq ?_ fun e' he' => (ofType_eq_ok_iff.mp he').2
  unfold ofType
  split
  · exact trivial
  · exact Ends.malformed he.offset_bounds _

/-- An element holds a number, or it is malformed. -/
lemma toNumber_ends (type : Universal) :
    Ends (Fault.IsMalformed region.offset region.stop) (fun n => e.toNumber type = .ok n)
      (e.toNumber type) := by
  refine Ends.of_eq ?_ fun n hn => hn
  unfold toNumber
  refine (ofType_ends he type).bind fun e' hsame => ?_
  subst hsame
  split
  · exact Ends.malformed he.offset_bounds _
  split
  · exact Ends.malformed he.offset_bounds _
  · exact trivial

/-- An INTEGER is read, or there is a plain fault. -/
lemma toInteger_ends : Ends (Fault.IsPlain region) region.HoldsNumber e.toInteger :=
  ((toNumber_ends he .integer).imp fun _ hn => ⟨e, he.holds, .inl hn⟩).plain

/-- An ENUMERATED is read, or there is a plain fault. -/
lemma toEnumerated_ends : Ends (Fault.IsPlain region) region.HoldsNumber e.toEnumerated :=
  ((toNumber_ends he .enumerated).imp fun _ hn => ⟨e, he.holds, .inr hn⟩).plain

/-- A number between zero and a maximum is read, or there is a plain fault. -/
lemma toUnsigned_ends (field : String) (maximum : ℕ) :
    Ends (Fault.IsPlain region) region.HoldsNumber (e.toUnsigned field maximum) := by
  unfold toUnsigned
  refine (toInteger_ends he).bind fun n hn => ?_
  split
  · exact Ends.plainNumberAt hn he.offset_bounds _
  · exact hn

/-- Octets are read, or there is a plain fault. -/
lemma toOctets_ends : Ends (Fault.IsPlain region) (fun _ => True) e.toOctets :=
  (ofType_ends he _).plain.bind fun _ _ => trivial

/-- What an element of a universal type opens is part of the region. -/
lemma ofType_inside_ends (type : Universal) :
    Ends (Fault.IsPlain region) (fun c => c.PartOf region)
      (e.ofType type >>= fun e => .ok e.inside) := by
  refine (ofType_ends he type).plain.bind fun e' hsame => ?_
  subst hsame
  exact he.inside

/-- A truth value is read, or there is a plain fault.  Its one octet is not missing. -/
lemma toBoolean_ends : Ends (Fault.IsPlain region) (fun _ => True) e.toBoolean := by
  unfold toBoolean
  refine (ofType_ends he _).plain.bind fun e' hsame => ?_
  subst hsame
  split
  next hlength =>
    have hcontent := he.within.length_content
    split
    next hnil =>
      rw [hnil, hlength] at hcontent
      cases hcontent
    · exact trivial
  · exact Ends.plainAt he.offset_bounds _

/-- A null is read, or there is a plain fault. -/
lemma toNull_ends : Ends (Fault.IsPlain region) (fun _ => True) e.toNull := by
  unfold toNull
  refine (ofType_ends he _).plain.bind fun e' hsame => ?_
  subst hsame
  split
  · exact trivial
  · exact Ends.plainAt he.offset_bounds _

end Element

end Der

/-! ### Structures without numbers of a vocabulary -/

/-- The hash of a root of trust is read, or there is a plain fault. -/
lemma RootOfTrust.readHash_ends {c : Cursor} (hc : c.PartOf region) :
    Ends (Fault.IsPlain region) (fun read => read.2.PartOf region) (readHash c) := by
  unfold readHash
  split
  · exact hc
  · refine (Cursor.read_ends hc fun e he => Element.toOctets_ends he).bind fun read hread => ?_
    exact hread.2

namespace ApplicationId

/-- A package is read, or there is a plain fault. -/
lemma package_ends {e : Element} (he : e.PartOf region) :
    Ends (Fault.IsPlain region) (fun _ => True) (Package.ofElement e) := by
  unfold Package.ofElement
  refine (Element.ofType_inside_ends he _).bind fun c hc => ?_
  refine (Cursor.read_ends hc fun e he => Element.toOctets_ends he).bind fun first hfirst => ?_
  obtain ⟨octets, afterName⟩ := first
  refine (Cursor.read_ends hfirst.2 fun e he => Element.toUnsigned_ends he _ _).bind
    fun second hsecond => ?_
  obtain ⟨version, afterVersion⟩ := second
  simp only
  split
  · split
    · exact trivial
    · exact Ends.plainAt he.offset_bounds _
  · exact Ends.plainAt hsecond.2.offset_bounds _

/-- A package is added, or there is a plain fault. -/
lemma addPackage_ends (packages : OrderedSet Package) {e : Element} (he : e.PartOf region) :
    Ends (Fault.IsPlain region) (fun _ => True) (addPackage packages e) := by
  unfold addPackage
  refine (package_ends he).bind fun package _ => ?_
  split
  · exact Ends.plainAt he.offset_bounds _
  · exact trivial

/-- A digest is added, or there is a plain fault. -/
lemma addDigest_ends (digests : OrderedSet Octets) {e : Element} (he : e.PartOf region) :
    Ends (Fault.IsPlain region) (fun _ => True) (addDigest digests e) := by
  unfold addDigest
  refine (Element.toOctets_ends he).bind fun digest _ => ?_
  split
  · exact Ends.plainAt he.offset_bounds _
  · exact trivial

/-- An application id is read, or there is a plain fault. -/
lemma ofRegion_ends {c : Cursor} (hc : c.PartOf region) :
    Ends (Fault.IsPlain region) (fun _ => True) (ofRegion c) := by
  unfold ofRegion
  refine (Cursor.read_ends hc fun e he => Element.ofType_inside_ends he _).bind
    fun outer houter => ?_
  obtain ⟨content, after⟩ := outer
  simp only
  split
  · refine (Cursor.read_ends houter.1 fun e he => Element.ofType_inside_ends he _).bind
      fun first hfirst => ?_
    obtain ⟨packages, afterPackages⟩ := first
    refine (Cursor.read_ends hfirst.2 fun e he => Element.ofType_inside_ends he _).bind
      fun second hsecond => ?_
    obtain ⟨digests, afterDigests⟩ := second
    simp only
    split
    · refine (Walk.foldlM_ends hfirst.1 (fun s e _ he => addPackage_ends s he) trivial).bind
        fun _ _ => ?_
      exact (Walk.foldlM_ends hsecond.1 (fun s e _ he => addDigest_ends s he) trivial).bind
        fun _ _ => trivial
    · exact Ends.plainAt hsecond.2.offset_bounds _
  · exact Ends.plainAt houter.2.offset_bounds _

end ApplicationId

/-- A mask is read, or there is a plain fault. -/
lemma readMask_ends (f : Field) {e : Element} (he : e.PartOf region) :
    Ends (Fault.IsPlain region) (fun _ => True) (readMask f e) := by
  have hcode : ∀ (codes : List ℤ) (e : Element), True → e.PartOf region →
      Ends (Fault.IsPlain region) (fun _ => True) (addCode f codes e) :=
    fun codes e _ he => (Element.toUnsigned_ends he _ _).bind fun _ _ => trivial
  unfold readMask
  split
  · refine (Element.ofType_inside_ends he _).bind fun c hc => ?_
    exact (Walk.foldlM_ends hc hcode trivial).bind fun _ _ => trivial
  · exact (Element.toUnsigned_ends he _ _).imp fun _ _ => trivial

/-- A number that is not negative is read, or there is a plain fault. -/
lemma KeyDescription.toNatural_ends {interpret : Element → Except Fault ℤ} {e : Element}
    (he : e.PartOf region) (h : Ends (Fault.IsPlain region) region.HoldsNumber (interpret e))
    (field : String) :
    Ends (Fault.IsPlain region) region.HoldsNumber (toNatural interpret field e) := by
  unfold toNatural
  refine h.bind fun n hn => ?_
  split
  · exact Ends.plainNumberAt hn he.offset_bounds _
  · exact hn

end

end AttestedKey
