import AttestedKey.Proofs.AuthorizationList.Order
import AttestedKey.Proofs.KeyDescription

/-!
# Numbers that cannot be written

Makers accept every number, so it is the writer that refuses those outside the domains of their
fields.  `KeyDescription.fields` lists the fields of a record that hold numbers, each with its name,
its domain and its numbers, in the order in which they are looked at: the two versions, the two
security levels, and then the fields of both authorization lists by ascending tag.

An outcome follows some fields (`Follows`) if it is a value in case all their numbers are in their
domains, and else the refusal of a number of the first field that has one outside.  This is kept
along a chain of writers (`Follows.bind`), so it holds of a record and its fields.  The order in
which a writer goes through a set is its own, and decides only which of several such numbers of one
field is refused, so the result holds of every writer (`KeyDescription.writes_iff_inRange`).

A refusal names the field and shows the number, unless the number is too long for that
(`KeyDescription.encode_unprintable`).
-/

namespace AttestedKey

open Der Outcome

/-! ### Fields and their domains -/

/-- The numbers that are written for a field.  They must not be negative, nor greater than the
maximum of the field, if the field has one. -/
structure WrittenField where
  /-- The name of the field. -/
  name : String
  /-- The greatest number that the field can hold. -/
  maximum : Option ℕ
  /-- The numbers. -/
  values : List ℤ
  deriving DecidableEq

namespace WrittenField

/-- The field can hold a number. -/
def Admits (w : WrittenField) (n : ℤ) : Prop := 0 ≤ n ∧ ∀ m ∈ w.maximum, n ≤ m

instance (w : WrittenField) : DecidablePred w.Admits := fun n =>
  inferInstanceAs (Decidable (0 ≤ n ∧ ∀ m ∈ w.maximum, n ≤ m))

/-- The field can hold all its numbers. -/
def InDomain (w : WrittenField) : Prop := ∀ n ∈ w.values, w.Admits n

instance : DecidablePred InDomain := fun w => inferInstanceAs (Decidable (∀ n ∈ w.values, _))

/-- The side on which a number lies outside the domain of the field. -/
def excess (w : WrittenField) (n : ℤ) : Excess :=
  if n < 0 then .negative else .above (w.maximum.getD 0)

/-- The error for a number that the field cannot hold.  It names the field and the number, unless
the number has no numeral. -/
@[irreducible]
def refusal (w : WrittenField) (n : ℤ) : RangeError :=
  if Text.HasNumeral n then .outside w.name n (w.excess n) else .unprintable

/-- A negative number is refused. -/
lemma refusal_of_neg (w : WrittenField) {n : ℤ} (h : n < 0) :
    w.refusal n = .of w.name n .negative := by
  unfold refusal excess RangeError.of
  rw [if_pos h]

/-- A number above the maximum is refused. -/
lemma refusal_of_lt {name : String} {m : ℕ} {values : List ℤ} {n : ℤ} (h : (m : ℤ) < n) :
    refusal ⟨name, some m, values⟩ n = .of name n (.above m) := by
  have hneg : ¬ n < 0 := by omega
  unfold refusal excess RangeError.of
  rw [if_neg hneg]
  rfl

/-- The other numbers of the field do not show in a refusal. -/
lemma refusal_congr {name : String} {maximum : Option ℕ} (values values' : List ℤ) (n : ℤ) :
    refusal ⟨name, maximum, values⟩ n = refusal ⟨name, maximum, values'⟩ n := by
  unfold refusal
  rfl

end WrittenField

/-- Writing follows some fields.  It gives a value if they can hold all their numbers, and otherwise
it ends in the refusal of a number of the first field that cannot. -/
def Follows {α : Type} (fields : List WrittenField) (x : Except RangeError α) : Prop :=
  match fields.find? fun w => ¬ w.InDomain with
  | none => ∃ a, x = .ok a
  | some w => ∃ n ∈ w.values, ¬ w.Admits n ∧ x = .error (w.refusal n)

section

variable {α β : Type} {fields : List WrittenField} {x : Except RangeError α}

/-- Writing follows one field if it gives a value just in the domain of the field, and otherwise
refuses one of its numbers. -/
lemma follows_singleton_iff {w : WrittenField} :
    Follows [w] x ↔
      Ends (fun e => ∃ n ∈ w.values, ¬ w.Admits n ∧ e = w.refusal n) (fun _ => w.InDomain) x := by
  unfold Follows
  by_cases h : w.InDomain
  · have hnone : [w].find? (fun w => ¬ w.InDomain) = none := by simp [h]
    rw [hnone]
    cases x with
    | ok a => exact iff_of_true ⟨a, rfl⟩ h
    | error e =>
      refine iff_of_false (by rintro ⟨a, ha⟩; cases ha) ?_
      rintro ⟨n, hn, hnot, -⟩
      exact hnot (h n hn)
  · have hsome : [w].find? (fun w => ¬ w.InDomain) = some w := by simp [h]
    rw [hsome]
    cases x with
    | ok a => exact iff_of_false (by rintro ⟨n, -, -, hn⟩; cases hn) h
    | error e => simp only [Except.error.injEq, Ends]

/-- Whether writing follows some fields shows where it succeeds and how it fails. -/
lemma Follows.cases (h : Follows fields x) :
    ((∃ a, x = .ok a) ↔ ∀ w ∈ fields, w.InDomain) ∧
      ((¬ ∀ w ∈ fields, w.InDomain) → ∃ w n, fields.find? (fun w => ¬ w.InDomain) = some w ∧
        n ∈ w.values ∧ ¬ w.Admits n ∧ x = .error (w.refusal n)) := by
  unfold Follows at h
  cases hfind : fields.find? fun w => ¬ w.InDomain with
  | none =>
    rw [hfind] at h
    have hall : ∀ w ∈ fields, w.InDomain := by simpa using hfind
    exact ⟨iff_of_true h hall, fun hnot => absurd hall hnot⟩
  | some w =>
    rw [hfind] at h
    obtain ⟨n, hn, hnot, rfl⟩ := h
    refine ⟨iff_of_false (by rintro ⟨a, ha⟩; cases ha) fun hall => ?_,
      fun _ => ⟨w, n, rfl, hn, hnot, rfl⟩⟩
    exact hnot (hall w (List.mem_of_find?_eq_some hfind) n hn)

namespace Follows

/-- What succeeds follows no field. -/
lemma ok (a : α) : Follows [] (.ok a) := ⟨a, rfl⟩

/-- A chain follows the fields of its first step and then those of the rest. -/
lemma bind {rest : List WrittenField} {f : α → Except RangeError β} (hx : Follows fields x)
    (hf : ∀ a, Follows rest (f a)) : Follows (fields ++ rest) (x >>= f) := by
  unfold Follows at hx
  unfold Follows
  rw [List.find?_append]
  cases hfind : fields.find? fun w => ¬ w.InDomain with
  | none =>
    rw [hfind] at hx
    obtain ⟨a, rfl⟩ := hx
    exact hf a
  | some w =>
    rw [hfind] at hx
    obtain ⟨n, hn, hnot, rfl⟩ := hx
    exact ⟨n, hn, hnot, rfl⟩

/-- A last step that cannot fail follows no field of its own. -/
lemma map {f : α → β} (hx : Follows fields x) : Follows fields (x >>= fun a => .ok (f a)) := by
  have hchain := hx.bind fun a => ok (f a)
  rwa [List.append_nil] at hchain

/-- The items of a list, each written as a number of one field, follow this field in any order. -/
lemma mapM_of_perm {name : String} {maximum : Option ℕ} {value : α → ℤ}
    {f : α → Except RangeError β} (hf : ∀ a, Follows [⟨name, maximum, [value a]⟩] (f a))
    {l l' : List α} (hperm : l.Perm l') :
    Follows [⟨name, maximum, l'.map value⟩] (l.mapM f) := by
  let w : WrittenField := ⟨name, maximum, l'.map value⟩
  have hitems : ∀ a ∈ l, Ends (fun e => ∃ n ∈ w.values, ¬ w.Admits n ∧ e = w.refusal n)
      (fun _ => w.Admits (value a)) (f a) := by
    intro a ha
    -- The errors of an item are the same under the name of all of them, whichever item comes first.
    refine ((follows_singleton_iff.mp (hf a)).imp fun _ hdomain => ?_).mono fun e he => ?_
    · exact hdomain _ (List.mem_singleton_self _)
    · obtain ⟨n, hn, hnot, rfl⟩ := he
      obtain rfl := List.mem_singleton.mp hn
      refine ⟨_, List.mem_map_of_mem (hperm.mem_iff.mp ha), hnot, ?_⟩
      exact WrittenField.refusal_congr ..
  rw [follows_singleton_iff]
  refine (Ends.mapM hitems).imp fun _ hall => List.forall_mem_map.mpr fun a ha => ?_
  exact hall a (hperm.mem_iff.mpr ha)

/-- A list that is filtered item by item follows the fields of its items. -/
lemma filterMapM {field : α → Option WrittenField} {f : α → Except RangeError (Option β)}
    (hf : ∀ a, Follows (field a).toList (f a)) (l : List α) :
    Follows (l.filterMap field) (l.filterMapM f) := by
  induction l with
  | nil => exact ok []
  | cons a l ih =>
    have hfields : (a :: l).filterMap field = (field a).toList ++ l.filterMap field := by
      rw [List.filterMap_cons]
      cases field a <;> rfl
    rw [hfields, List.filterMapM_cons]
    refine (hf a).bind fun o => ?_
    cases o with
    | none => exact ih
    | some b => exact ih.map

end Follows

end

/-! ### Checks -/

/-- A number of a bounded field is checked against the bound. -/
lemma follows_checkRange (name : String) (maximum : ℕ) (n : ℤ) :
    Follows [⟨name, some maximum, [n]⟩] (checkRange name maximum n) := by
  rw [follows_singleton_iff]
  unfold checkRange
  split
  next hneg =>
    refine ⟨n, List.mem_singleton_self n, fun hadmits => ?_, ?_⟩
    · exact absurd hadmits.1 (not_le.mpr hneg)
    · rw [WrittenField.refusal_of_neg _ hneg]
  next hneg =>
    split
    next habove =>
      refine ⟨n, List.mem_singleton_self n, fun hadmits => ?_, ?_⟩
      · exact absurd (hadmits.2 maximum rfl) (not_le.mpr habove)
      · rw [WrittenField.refusal_of_lt habove]
    next habove =>
      refine List.forall_mem_singleton.mpr ⟨not_lt.mp hneg, ?_⟩
      rintro _ ⟨⟩
      exact not_lt.mp habove

/-- A version has no bound. -/
lemma follows_checkNatural (name : String) (n : ℤ) :
    Follows [⟨name, none, [n]⟩] (checkNatural name n) := by
  rw [follows_singleton_iff]
  cases n with
  | ofNat m =>
    refine List.forall_mem_singleton.mpr ⟨Int.natCast_nonneg m, ?_⟩
    rintro _ ⟨⟩
  | negSucc m =>
    refine ⟨_, List.mem_singleton_self _, fun hadmits => ?_, ?_⟩
    · exact absurd hadmits.1 (not_le.mpr (Int.negSucc_lt_zero m))
    · rw [WrittenField.refusal_of_neg _ (Int.negSucc_lt_zero m)]

/-- A code has to fit into 32 bits. -/
lemma follows_encodeCode (name : String) (code : ℤ) :
    Follows [⟨name, some uint32Max, [code]⟩] (encodeCode name code) :=
  (follows_checkRange name uint32Max code).map

/-- The version of a package has to fit into 64 bits. -/
lemma Package.follows_encode (p : Package) :
    Follows [⟨versionField, some uint64Max, [p.version]⟩] p.encode :=
  (follows_checkRange versionField uint64Max p.version).map

/-! ### The numbers of a value -/

namespace Kind

/-- The numbers of a value, for the field of the given name.  Those of a root of trust and of an
application id have names of their own. -/
def writtenField : (k : Kind) → (name : String) → k.Value → WrittenField
  | .integer maximum, name, n => ⟨name, some maximum, [n]⟩
  | .member _, name, s => ⟨name, some uint32Max, [s.code]⟩
  | .members _, name, s => ⟨name, some uint32Max, s.toList.map Slot.code⟩
  | .authenticators, name, s => ⟨name, some uint32Max, [Authenticators.mask s.codes]⟩
  | .rootOfTrust, _, r => ⟨RootOfTrust.stateField, some uint32Max, [r.verifiedBootState.code]⟩
  | .applicationId, _, a =>
    ⟨Package.versionField, some uint64Max, a.packages.toList.map Package.version⟩
  | .flag, name, _ | .octets, name, _ => ⟨name, none, []⟩

/-- Writing a value follows its numbers, whatever the order in which its sets are gone through. -/
theorem Writes.follows {k : Kind} {name : String} {v : k.Value} {x : Except RangeError Octets}
    (hx : k.Writes name v x) : Follows [k.writtenField name v] x := by
  cases k with
  | integer maximum =>
    obtain rfl := hx
    exact (follows_checkRange name maximum v).map
  | member w =>
    obtain rfl := hx
    exact follows_encodeCode name v.code
  | members w =>
    obtain ⟨listed, hlisted, rfl⟩ := hx
    exact (Follows.mapM_of_perm (fun s => follows_encodeCode name s.code) hlisted).map
  | authenticators =>
    obtain ⟨listed, hlisted, rfl⟩ := hx
    rw [Authenticators.fold_eq_mask hlisted]
    exact follows_encodeCode name _
  | flag =>
    obtain rfl := hx
    exact follows_singleton_iff.mpr fun _ hn => absurd hn List.not_mem_nil
  | octets =>
    obtain rfl := hx
    exact follows_singleton_iff.mpr fun _ hn => absurd hn List.not_mem_nil
  | rootOfTrust =>
    obtain rfl := hx
    exact (follows_checkRange RootOfTrust.stateField uint32Max v.verifiedBootState.code).map
  | applicationId =>
    obtain ⟨packages, digests, hpackages, -, rfl⟩ := hx
    exact (Follows.mapM_of_perm Package.follows_encode hpackages).map

/-- A value is in range if its numbers are in their domain. -/
lemma inRange_iff {k : Kind} {v : k.Value} (name : String) :
    k.InRange v ↔ (k.writtenField name v).InDomain := by
  cases k <;> simp [InRange, writtenField, WrittenField.InDomain, WrittenField.Admits, IsCode,
    ApplicationId.InRange, Package.InRange]

/-- A value that is not written has no numbers. -/
lemma values_of_not_isWritten {k : Kind} {v : k.Value} (h : ¬ k.isWritten v = true)
    (name : String) : (k.writtenField name v).values = [] := by
  cases k with
  | flag => rfl
  | _ => exact absurd rfl h

end Kind

namespace AuthorizationList

/-- The numbers of a field of a list. -/
def writtenField (a : AuthorizationList) (f : Field) : Option WrittenField :=
  (a.value f).map (f.kind.writtenField f.name)

/-- The fields of a list, by ascending tag. -/
def fields (a : AuthorizationList) : List WrittenField := Field.all.filterMap a.writtenField

/-- Writing a list follows its fields. -/
theorem Writes.follows {a : AuthorizationList} {x : Except RangeError Octets} (hx : a.Writes x) :
    Follows a.fields x := by
  obtain ⟨write, hwrite, rfl⟩ := hx
  unfold encodeBy fields
  refine (Follows.filterMapM (fun f => ?_) Field.all).map
  unfold writtenField
  cases a.value f with
  | none => exact Follows.ok none
  | some v =>
    simp only [Option.map_some, Option.toList_some]
    split
    · exact (hwrite f v).follows.map
    next hblank =>
      refine follows_singleton_iff.mpr fun n hn => ?_
      rw [Kind.values_of_not_isWritten hblank] at hn
      exact absurd hn List.not_mem_nil

/-- A list is in range if its numbers are in their domains. -/
lemma inRange_iff {a : AuthorizationList} : a.InRange ↔ ∀ w ∈ a.fields, w.InDomain := by
  unfold InRange fields writtenField
  simp only [List.mem_filterMap, Option.map_eq_some_iff]
  constructor
  · rintro h w ⟨f, -, v, hv, rfl⟩
    by_cases hwritten : f.kind.isWritten v = true
    · exact (Kind.inRange_iff f.name).mp (h f v hv hwritten)
    · intro n hn
      rw [Kind.values_of_not_isWritten hwritten] at hn
      exact absurd hn List.not_mem_nil
  · intro h f v hv _
    exact (Kind.inRange_iff f.name).mpr (h _ ⟨f, Field.mem_all f, v, hv, rfl⟩)

end AuthorizationList

/-! ### The numbers of a record -/

namespace KeyDescription

/-- The fields of a record that hold numbers, in the order in which they are looked at. -/
def fields (k : KeyDescription) : List WrittenField :=
  [⟨attestationVersionField, none, [k.attestationVersion]⟩,
    ⟨keymasterVersionField, none, [k.keymasterVersion]⟩,
    ⟨attestationSecurityLevelField, some uint32Max, [k.attestationSecurityLevel.code]⟩,
    ⟨keymasterSecurityLevelField, some uint32Max, [k.keymasterSecurityLevel.code]⟩] ++
    (k.softwareEnforced.fields ++ k.teeEnforced.fields)

/-- The first field of a record that cannot hold all its numbers. -/
def firstExcess? (k : KeyDescription) : Option WrittenField :=
  k.fields.find? fun w => ¬ w.InDomain

/-- A record is in range if its numbers are in their domains. -/
theorem inRange_iff {k : KeyDescription} : k.InRange ↔ ∀ w ∈ k.fields, w.InDomain := by
  have hfree : ∀ (name : String) (n : ℤ), WrittenField.InDomain ⟨name, none, [n]⟩ ↔ 0 ≤ n :=
    fun name n => by simp [WrittenField.InDomain, WrittenField.Admits]
  have hcode : ∀ (name : String) (n : ℤ),
      WrittenField.InDomain ⟨name, some uint32Max, [n]⟩ ↔ IsCode n :=
    fun name n => by simp [WrittenField.InDomain, WrittenField.Admits, IsCode]
  unfold InRange fields
  rw [AuthorizationList.inRange_iff, AuthorizationList.inRange_iff]
  simp only [List.forall_mem_append, List.forall_mem_cons, hfree, hcode, List.not_mem_nil,
    IsEmpty.forall_iff, implies_true, and_true, and_assoc]

/-! ### Writing in any order -/

/-- Writes a record, given the outcomes of writing its two lists. -/
def encodeBy (software tee : Except RangeError Octets) (k : KeyDescription) :
    Except RangeError Octets := do
  let attestationVersion ← checkNatural attestationVersionField k.attestationVersion
  let keymasterVersion ← checkNatural keymasterVersionField k.keymasterVersion
  let attestationLevel ←
    checkRange attestationSecurityLevelField uint32Max k.attestationSecurityLevel.code
  let keymasterLevel ←
    checkRange keymasterSecurityLevelField uint32Max k.keymasterSecurityLevel.code
  let software ← software
  let tee ← tee
  return encodeSequence
    [encodeInteger attestationVersion, encodeEnumerated attestationLevel,
      encodeInteger keymasterVersion, encodeEnumerated keymasterLevel,
      encodeOctets k.attestationChallenge, encodeOctets k.uniqueId, software, tee]

/-- Writing a record is writing it with its two lists. -/
lemma encode_eq_encodeBy (k : KeyDescription) :
    k.encode = k.encodeBy k.softwareEnforced.encode k.teeEnforced.encode := rfl

/-- Writing a record may have an outcome, if the sets in its lists are gone through in the right
orders. -/
def Writes (k : KeyDescription) (x : Except RangeError Octets) : Prop :=
  ∃ software tee, k.softwareEnforced.Writes software ∧ k.teeEnforced.Writes tee ∧
    x = k.encodeBy software tee

/-- The order of the writer is one of them. -/
lemma writes_encode (k : KeyDescription) : k.Writes k.encode :=
  ⟨_, _, k.softwareEnforced.writes_encode, k.teeEnforced.writes_encode, k.encode_eq_encodeBy⟩

/-- Writing a record follows its fields. -/
theorem Writes.follows {k : KeyDescription} {x : Except RangeError Octets} (hx : k.Writes x) :
    Follows k.fields x := by
  obtain ⟨software, tee, hsoftware, htee, rfl⟩ := hx
  unfold encodeBy
  exact (follows_checkNatural attestationVersionField _).bind fun _ =>
    (follows_checkNatural keymasterVersionField _).bind fun _ =>
      (follows_checkRange attestationSecurityLevelField uint32Max _).bind fun _ =>
        (follows_checkRange keymasterSecurityLevelField uint32Max _).bind fun _ =>
          hsoftware.follows.bind fun _ => htee.follows.map

/-- Writing any record, in whatever order its sets are gone through, gives octets exactly if all its
numbers are in their domains.  If some are not, it ends in the refusal of one of them, which stands
in the first field that has such a number.  The refusal names this field, unless the number is too
long to be shown. -/
theorem writes_iff_inRange (k : KeyDescription) :
    k.Writes k.encode ∧ ∀ x, k.Writes x →
      ((∃ octets, x = .ok octets) ↔ k.InRange) ∧
        (¬ k.InRange → ∃ w n, k.firstExcess? = some w ∧ n ∈ w.values ∧ ¬ w.Admits n ∧
          x = .error (w.refusal n)) := by
  refine ⟨k.writes_encode, fun x hx => ?_⟩
  rw [inRange_iff]
  exact hx.follows.cases

/-- A record with a verified boot state of 33 bits, a negative number behind it in the same list,
and a number that is too large in the other list. -/
def excessive : KeyDescription :=
  ⟨3, .ofCode _ 1, 4, .ofCode _ 1, [], [],
    ((AuthorizationList.empty.set .keySize (256 : ℤ)).set .rootOfTrust
      ⟨[1, 2], true, .ofCode _ 4294967296, none⟩).set .osVersion (-1 : ℤ),
    AuthorizationList.empty.set .purpose (.ofList [.ofCode _ 2, .ofCode _ 4294967296])⟩

/-- The verified boot state is what the error names. -/
theorem encode_excessive :
    excessive.Writes excessive.encode ∧ ¬ excessive.InRange ∧
      excessive.encode =
        .error (.outside RootOfTrust.stateField 4294967296 (.above uint32Max)) := by
  have hfirst : excessive.firstExcess? =
      some ⟨RootOfTrust.stateField, some uint32Max, [4294967296]⟩ := by decide +kernel
  obtain ⟨hwrites, hall⟩ := writes_iff_inRange excessive
  have hexcess : ¬ excessive.InRange := by
    intro hrange
    have hdomain := inRange_iff.mp hrange _ (List.mem_of_find?_eq_some hfirst)
    exact absurd hdomain (by decide)
  -- The field with the refused number is the first one that is in excess, and it has one number.
  obtain ⟨w, n, hw, hn, -, hencode⟩ := (hall _ hwrites).2 hexcess
  obtain rfl := Option.some.inj (hfirst.symm.trans hw)
  obtain rfl := List.mem_singleton.mp hn
  exact ⟨hwrites, hexcess, hencode.trans (by decide +kernel)⟩

/-- A record whose security level has one digit more than can be shown. -/
def unprintable : KeyDescription :=
  ⟨3, .ofCode _ (10 ^ 4300), 4, .ofCode _ 1, [], [], .empty, .empty⟩

/-- It cannot be written, but the error does not say which field is the reason. -/
theorem encode_unprintable :
    unprintable.firstExcess? =
        some ⟨attestationSecurityLevelField, some uint32Max, [10 ^ 4300]⟩ ∧
      unprintable.encode = .error .unprintable := by
  decide +kernel

end KeyDescription

end AttestedKey
