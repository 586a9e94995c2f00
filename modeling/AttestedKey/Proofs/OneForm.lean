import AttestedKey.Proofs.Der.Mirrors
import AttestedKey.Proofs.Location

/-!
# Codes with one form

A writer and a reader have one form in common (`OneForm`) if the reader gives a value exactly where
the octets in front of it are those that the writer produces for it, and calls everything else
malformed.  It does not matter what stands around these octets, nor where the region of the reader
ends behind them.  So reading undoes writing, writing undoes reading, and no form of a value is the
beginning of a form of another one.

This holds of every reader that takes just what the writer produces (`OneForm.of`): the octets that
such a reader takes stand between two places of the input (`Cursor.advances_between_iff`).
Identifiers and lengths are the first two cases.
-/

namespace AttestedKey

open Der Outcome

/-- The octets that a cursor takes stand between its place and a place before its bound. -/
lemma Der.Cursor.advances_between_iff {data a : Octets} {start stop : ℕ} {c : Cursor}
    (hstart : start ≤ stop) (hstop : stop ≤ data.length) :
    (Cursor.between data start stop).Advances a c ↔
      start + a.length ≤ stop ∧ data.slice start (start + a.length) = a ∧
        c = Cursor.between data (start + a.length) stop := by
  have hsplit : (Cursor.between data start stop).split? a.length = some (a, c) ↔
      (Cursor.between data start stop).Advances a c :=
    (Cursor.split?_eq_some_iff (Cursor.between_missing hstop)).trans (and_iff_right rfl)
  rw [← hsplit, Cursor.split?_between hstart hstop]
  constructor
  · intro h
    split at h
    next hle =>
      obtain ⟨hslice, hafter⟩ := Prod.mk.inj (Option.some.inj h)
      exact ⟨hle, hslice, hafter.symm⟩
    · cases h
  · rintro ⟨hle, hslice, rfl⟩
    rw [if_pos hle, hslice]

/-- A region between two places of an input ends at the second one. -/
lemma Der.Cursor.stop_between {data : Octets} {start stop : ℕ} (hstart : start ≤ stop)
    (hstop : stop ≤ data.length) : (Cursor.between data start stop).stop = stop := by
  change start + ((data.drop start).take (stop - start)).length = stop
  rw [List.length_take, List.length_drop]
  omega

/-- A reader accepts the one form that a writer produces, of the values that it admits, and nothing
else. -/
structure OneForm {α : Type} (write : α → Octets) (admits : α → Prop)
    (read : Cursor → Except Fault (α × Cursor)) : Prop where
  /-- A value is read up to some place exactly if the octets up to there are its form. -/
  reads : ∀ {data : Octets} {start stop next : ℕ} {a : α}, start ≤ stop → stop ≤ data.length →
    (read (Cursor.between data start stop) = .ok (a, Cursor.between data next stop) ↔
      next ≤ stop ∧ admits a ∧ data.slice start next = write a)
  /-- Whatever does not begin with a form is malformed. -/
  refuses : ∀ {data : Octets} {start stop : ℕ}, start ≤ stop → stop ≤ data.length →
    (¬ ∃ a next, next ≤ stop ∧ admits a ∧ data.slice start next = write a) →
      ∃ fault, read (Cursor.between data start stop) = .error fault ∧ fault.IsMalformed start stop
  /-- The form of a value is read back, whatever stands around it. -/
  reads_back : ∀ (front rest : Octets) {a : α} {stop : ℕ}, admits a →
    front.length + (write a).length ≤ stop → stop ≤ (front ++ (write a ++ rest)).length →
      read (Cursor.between (front ++ (write a ++ rest)) front.length stop) =
        .ok (a, Cursor.between (front ++ (write a ++ rest)) (front.length + (write a).length) stop)
  /-- No form of a value is the beginning of the form of another one. -/
  prefix_free : ∀ {a b : α}, admits a → admits b → write a <+: write b → a = b

namespace OneForm

variable {α : Type} {write : α → Octets} {admits : α → Prop}
  {read : Cursor → Except Fault (α × Cursor)}

/-- A reader that takes just what a writer produces, and fails in place, accepts the one form. -/
lemma of (hpos : ∀ a, 0 < (write a).length)
    (hread : ∀ {c c' a}, c.missing = 0 →
      (read c = .ok (a, c') ↔ admits a ∧ c.Advances (write a) c'))
    (hfails : ∀ c : Cursor, c.missing = 0 →
      Ends (Fault.IsMalformed c.offset c.stop) (fun _ => True) (read c)) :
    OneForm write admits read := by
  have hreads : ∀ {data : Octets} {start stop next : ℕ} {a : α}, start ≤ stop →
      stop ≤ data.length →
      (read (Cursor.between data start stop) = .ok (a, Cursor.between data next stop) ↔
        next ≤ stop ∧ admits a ∧ data.slice start next = write a) := by
    intro data start stop next a hstart hstop
    rw [hread (Cursor.between_missing hstop), Cursor.advances_between_iff hstart hstop]
    constructor
    · rintro ⟨ha, hle, hslice, hafter⟩
      obtain rfl : next = start + (write a).length := congrArg Cursor.offset hafter
      exact ⟨hle, ha, hslice⟩
    · rintro ⟨hle, ha, hslice⟩
      -- The form is not empty, so the place behind it is where its length says.
      have hlength : (data.slice start next).length = next - start :=
        Octets.length_slice (hle.trans hstop)
      have hwrite := hpos a
      rw [hslice] at hlength
      obtain rfl : next = start + (write a).length := by omega
      exact ⟨ha, hle, hslice, rfl⟩
  refine ⟨hreads, ?_, ?_, ?_⟩
  · intro data start stop hstart hstop hnone
    have hfault := hfails (Cursor.between data start stop) (Cursor.between_missing hstop)
    rw [Cursor.stop_between hstart hstop] at hfault
    cases hvalue : read (Cursor.between data start stop) with
    | error fault =>
      rw [hvalue] at hfault
      exact ⟨fault, rfl, hfault⟩
    | ok taken =>
      obtain ⟨a, c⟩ := taken
      obtain ⟨ha, hadv⟩ := (hread (Cursor.between_missing hstop)).mp hvalue
      obtain ⟨hle, hslice, -⟩ := (Cursor.advances_between_iff hstart hstop).mp hadv
      exact absurd ⟨a, _, hle, ha, hslice⟩ hnone
  · intro front rest a stop ha hle hstop
    apply (hreads ((Nat.le_add_right ..).trans hle) hstop).mpr
    exact ⟨hle, ha, Octets.slice_append front (write a) rest⟩
  · rintro a b ha hb ⟨rest, hrest⟩
    have hshort := (hread rfl).mpr ⟨ha, Cursor.Advances.ofAppend 0 (write a) rest 0⟩
    have hlong := (hread rfl).mpr ⟨hb, Cursor.Advances.ofAppend 0 (write b) [] 0⟩
    rw [List.append_nil, ← hrest, hshort] at hlong
    exact (Prod.mk.inj (Except.ok.inj hlong)).1

end OneForm

/-! ### Identifiers and lengths -/

/-- An identifier whose number is below `2 ^ 28` and a length below `2 ^ 32` have one form each. -/
theorem headers_oneForm :
    OneForm Tag.encode (fun t => t.tagClass.code < 4 ∧ t.number < 2 ^ 28) Tag.read ∧
      OneForm Length.encode (· < 2 ^ 32) Length.read := by
  constructor
  · refine OneForm.of Tag.length_encode_pos ?_ fun c hc => ?_
    · intro c c' t _
      rw [Tag.read_eq_ok_iff, and_assoc]
      exact (and_iff_right t.tagClass.code_lt).symm
    · exact (Tag.read_ends (Cursor.within_self hc)).imp fun _ _ => trivial
  · refine OneForm.of Length.length_encode_pos ?_ fun c hc => ?_
    · intro c c' n hc
      exact Length.read_eq_ok_iff hc
    · exact (Length.read_ends (Cursor.within_self hc)).imp fun _ _ => trivial

/-- An identifier and a length of two digits each are read in the middle of an input. -/
theorem headers_oneForm_between :
    Tag.read (Cursor.between [7, 191, 132, 62, 7] 1 5) =
        .ok (⟨.context, true, 574⟩, Cursor.between [7, 191, 132, 62, 7] 4 5) ∧
      Length.read (Cursor.between [7, 130, 1, 0, 7] 1 5) =
        .ok (256, Cursor.between [7, 130, 1, 0, 7] 4 5) := by
  obtain ⟨htag, hlength⟩ := headers_oneForm
  constructor
  · apply (htag.reads (by decide) (by decide)).mpr
    exact ⟨by decide, by decide, by decide +kernel⟩
  · apply (hlength.reads (by decide) (by decide)).mpr
    exact ⟨by decide, by decide, by decide +kernel⟩

end AttestedKey
