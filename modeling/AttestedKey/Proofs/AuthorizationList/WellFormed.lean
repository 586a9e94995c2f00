import AttestedKey.Proofs.AuthorizationList.LastWrite
import AttestedKey.Proofs.Reordered

/-!
# Well-formed authorization lists

However an authorization list came about, it is well-formed (`AuthorizationList.WellFormed`): its
unknown tags are in order, outside the table and each around one element, no number in it stands
without the name that it has, its authenticators are those of a mask (`Authenticators.IsProper`),
and the values of all its fields, given as arguments, make the same list again.

The last part is about all fields at once.  What a field holds is an argument for it
(`Kind.held`), also where it holds nothing or a blank flag, and the checks give back what it
holds (`Kind.held_cases`).
-/

namespace AttestedKey

open Outcome

/-! ### Numbers that have a name -/

/-- A number that is kept as it is stands for no member of its vocabulary. -/
lemma Slot.code_ne_of_isKnown_eq_false {v : Vocabulary} {s : Slot v} (h : s.isKnown = false)
    (member : v.Member) : (v.code member : ℤ) ≠ s.code := by
  intro hcode
  have hknown : Slot.known member = s := Slot.code_injective hcode
  rw [← hknown] at h
  cases h

/-- The slots that a value consists of, each with its vocabulary. -/
def Kind.slots : (k : Kind) → k.Value → List (Σ v : Vocabulary, Slot v)
  | .member v, s => [⟨v, s⟩]
  | .members v, s => s.toList.map (Sigma.mk v)
  | .authenticators, s => s.toList.map (Sigma.mk .userAuthType)
  | .rootOfTrust, r => [⟨.verifiedBootState, r.verifiedBootState⟩]
  | _, _ => []

/-! ### Sets of authenticators -/

/-- A slot holds the bits of a mask that have no name: it is neither a member nor zero, and its two
lowest bits are clear. -/
def Slot.IsRest (s : Slot .userAuthType) : Prop :=
  s.isKnown = false ∧ s.code ≠ 0 ∧ s.code.testBit 0 = false ∧ s.code.testBit 1 = false

namespace Authenticators

/-- A set of authenticators has only the member for none, only the member for any, or some of the
members for a password and a fingerprint and at most one rest. -/
inductive IsProper (s : Authenticators) : Prop
  /-- Just the member for no authenticator. -/
  | none (h : s.toList = [.known .none])
  /-- Just the member for any authenticator. -/
  | any (h : s.toList = [.known .any])
  /-- Members for single authenticators, and a rest. -/
  | parts (hne : s.toList ≠ [])
    (hmem : ∀ t ∈ s.toList, t = .known .password ∨ t = .known .fingerprint ∨ t.IsRest)
    (hrest : ∀ t ∈ s.toList, ∀ u ∈ s.toList, t.IsRest → u.IsRest → t = u)

/-- A member has a name, and so is no rest. -/
lemma not_isRest_known (member : UserAuthType) : ¬ Slot.IsRest (.known member) :=
  fun h => Bool.noConfusion h.1

/-- The bits that have no name make a rest. -/
lemma isRest_leftover {m : ℤ} (h : leftover m ≠ 0) :
    (Slot.ofCode .userAuthType (leftover m)).IsRest := by
  refine ⟨isKnown_leftover h, ?_, ?_, ?_⟩
  · rwa [Slot.code_ofCode]
  · rw [Slot.code_ofCode, testBit_leftover]
    rfl
  · rw [Slot.code_ofCode, testBit_leftover]
    rfl

/-- A part of a mask is one of the two members for single authenticators, or its rest. -/
lemma mem_parts {m : ℤ} {t : Slot .userAuthType} (h : t ∈ parts m) :
    t = .known .password ∨ t = .known .fingerprint ∨
      leftover m ≠ 0 ∧ t = .ofCode .userAuthType (leftover m) := by
  unfold parts at h
  rw [List.mem_append, List.mem_append] at h
  rcases h with (h | h) | h
  · split at h
    · exact .inl (List.mem_singleton.mp h)
    · cases h
  · split at h
    · exact .inr (.inl (List.mem_singleton.mp h))
    · cases h
  · split at h
    · cases h
    next hleft => exact .inr (.inr ⟨hleft, List.mem_singleton.mp h⟩)

/-- A mask with a bit has a part. -/
lemma parts_ne_nil {m : ℤ} (h : m ≠ 0) : parts m ≠ [] := by
  intro hnil
  unfold parts at hnil
  rw [List.append_eq_nil_iff, List.append_eq_nil_iff] at hnil
  obtain ⟨⟨hpassword, hfingerprint⟩, hleft⟩ := hnil
  have hbit : m % 2 ≠ 1 := fun hbit => by simp [hbit] at hpassword
  have hbit' : m / 2 % 2 ≠ 1 := fun hbit' => by simp [hbit'] at hfingerprint
  have hzero : leftover m = 0 := by
    by_contra hne
    simp [hne] at hleft
  unfold leftover at hzero
  omega

/-- The set that a mask stands for is proper. -/
theorem isProper_ofMask (m : ℤ) : (ofMask m).IsProper := by
  unfold ofMask
  by_cases h0 : m = 0
  · rw [if_pos h0]
    exact .none rfl
  by_cases hany : m = anyMask
  · rw [if_neg h0, if_pos hany]
    exact .any rfl
  rw [if_neg h0, if_neg hany]
  have hrest : ∀ t ∈ parts m, t.IsRest → t = .ofCode .userAuthType (leftover m) := by
    intro t ht hrest
    rcases mem_parts ht with rfl | rfl | ⟨-, rfl⟩
    · exact absurd hrest (not_isRest_known _)
    · exact absurd hrest (not_isRest_known _)
    · rfl
  refine .parts ?_ ?_ ?_
  · intro hnil
    obtain ⟨t, ht⟩ := List.exists_mem_of_ne_nil _ (parts_ne_nil h0)
    rw [← OrderedSet.mem_ofList, hnil] at ht
    cases ht
  · intro t ht
    rcases mem_parts (OrderedSet.mem_ofList.mp ht) with rfl | rfl | ⟨hleft, rfl⟩
    · exact .inl rfl
    · exact .inr (.inl rfl)
    · exact .inr (.inr (isRest_leftover hleft))
  · intro t ht u hu htrest hurest
    rw [hrest t (OrderedSet.mem_ofList.mp ht) htrest, hrest u (OrderedSet.mem_ofList.mp hu) hurest]

end Authenticators

/-! ### What a field holds -/

/-- The argument that stands for what a field holds.  A lowered flag is false, and another field
without a value is given no value. -/
def Kind.held : (k : Kind) → Option k.Value → Argument
  | .flag, none => .truth false
  | k, some v => k.argument v
  | _, none => .absent

/-- What a field holds is given back: either by the checks, or as what the field holds when it is
given no value. -/
lemma Kind.held_cases {k : Kind} {o : Option k.Value} (hnormal : ∀ v ∈ o, k.IsNormal v)
    (name : String) : k.held o = .absent ∧ k.blank? = o ∨
      k.held o ≠ .absent ∧ k.check name (k.held o) = .ok o := by
  cases o with
  | none =>
    cases k with
    | flag => exact .inr ⟨Argument.noConfusion, rfl⟩
    | _ => exact .inl ⟨rfl, rfl⟩
  | some v =>
    have hheld : k.held (some v) = k.argument v := by cases k <;> rfl
    rw [hheld]
    by_cases hwritten : k.isWritten v = true
    · exact .inr ⟨argument_ne_absent hwritten, check_argument (hnormal v rfl) hwritten name⟩
    · exact .inl (argument_of_not_isWritten hwritten)

/-- The argument under the name of a field, among one argument for each of some fields. -/
lemma lookup_map_name {β : Type} (g : Field → β) {fields : List Field} {f : Field}
    (h : f ∈ fields) : (fields.map fun f => (f.name, g f)).lookup f.name = some (g f) := by
  induction fields with
  | nil => cases h
  | cons first rest ih =>
    rw [List.map_cons, List.lookup_cons]
    by_cases hfirst : f = first
    · rw [hfirst, beq_self_eq_true]
    · have hname : (f.name == first.name) = false :=
        beq_eq_false_iff_ne.mpr fun heq => hfirst (Field.name_injective heq)
      rw [hname]
      exact ih ((List.mem_cons.mp h).resolve_left hfirst)

namespace AuthorizationList

/-- The values of all fields of a list as arguments, and those of its unknown tags. -/
def fieldValues (a : AuthorizationList) : Arguments :=
  (Field.all.map fun f => (f.name, f.kind.held (a.value f))) ++
    [(unknownName, .list (a.unknown.map UnknownTag.argument))]

/-- The value of a field is found under its name, or what stands for none. -/
lemma find?_fieldValues (a : AuthorizationList) (f : Field) :
    a.fieldValues.find? f.name = some (f.kind.held (a.value f)) := by
  unfold Arguments.find? fieldValues
  rw [List.lookup_append, lookup_map_name (fun f => f.kind.held (a.value f)) (Field.mem_all f)]
  rfl

/-- The tags outside the table are found under their name. -/
lemma find?_unknownName_fieldValues (a : AuthorizationList) :
    a.fieldValues.find? unknownName = some (.list (a.unknown.map UnknownTag.argument)) := by
  refine find?_append_unknownName (fun entry hentry => ?_) _
  obtain ⟨f, -, rfl⟩ := List.mem_map.mp hentry
  exact ⟨f, rfl⟩

/-- The values of a list have names that a list can have. -/
lemma check_fieldValues (a : AuthorizationList) :
    a.fieldValues.check [] (unknownName :: Field.all.map Field.name) = .ok () := by
  refine check_names fun entry hentry => ?_
  rcases List.mem_append.mp hentry with hentry | hentry
  · obtain ⟨f, -, rfl⟩ := List.mem_map.mp hentry
    exact .inr ⟨f, rfl⟩
  · rw [List.mem_singleton.mp hentry]
    exact .inl rfl

/-- A field is given what it held. -/
lemma addArgument_fieldValues {a : AuthorizationList} (h : a.IsNormal) (acc : AuthorizationList)
    (f : Field) : addArgument a.fieldValues acc f = .ok (acc.assign f (a.value f)) := by
  have hheld := Kind.held_cases (fun v hv => h.value f v hv) f.name
  unfold addArgument
  rw [find?_fieldValues]
  rcases hheld with ⟨habsent, hblank⟩ | ⟨hgiven, hcheck⟩
  · rw [habsent, hblank]
    rfl
  · split
    next heq => cases heq
    next heq => exact absurd (Option.some.inj heq) hgiven
    next argument _ heq =>
      obtain rfl := Option.some.inj heq
      rw [hcheck]
      rfl

/-- After a walk through some fields each of them has the value that it was assigned. -/
lemma value_foldl_assign (a acc : AuthorizationList) (fields : List Field) (f : Field) :
    (fields.foldl (fun acc g => acc.assign g (a.value g)) acc).value f =
      if f ∈ fields then a.value f else acc.value f := by
  induction fields generalizing acc with
  | nil => rfl
  | cons g rest ih =>
    rw [List.foldl_cons, ih]
    by_cases hrest : f ∈ rest
    · rw [if_pos hrest, if_pos (List.mem_cons_of_mem _ hrest)]
    · rw [if_neg hrest]
      by_cases hfg : f = g
      · subst hfg
        rw [value_assign_self, if_pos (List.mem_cons_self ..)]
      · rw [value_assign_of_ne _ _ hfg, if_neg]
        exact fun hmem => (List.mem_cons.mp hmem).elim hfg hrest

/-- A list in normal form is made of the values of all its fields. -/
theorem make_fieldValues {a : AuthorizationList} (h : a.IsNormal) :
    make a.fieldValues = .ok a := by
  have hfields : Field.all.foldlM (addArgument a.fieldValues) empty =
      .ok (Field.all.foldl (fun acc f => acc.assign f (a.value f)) empty) := by
    have hstep : addArgument a.fieldValues = fun acc f => pure (acc.assign f (a.value f)) :=
      funext₂ fun acc f => addArgument_fieldValues h acc f
    rw [hstep, List.foldlM_pure]
    rfl
  have hunknown := UnknownTag.makeAll_arguments h.ascending h.unknown
  unfold make
  rw [check_fieldValues, ok_bind, hfields, ok_bind, find?_unknownName_fieldValues,
    Option.getD_some, hunknown, ok_bind, pure_eq_ok, Except.ok.injEq, ext_iff]
  refine ⟨fun f hf => ?_, rfl⟩
  have hvalue := value_foldl_assign a empty Field.all f
  rwa [if_pos hf] at hvalue

/-- No mask among the values of a list has an item that is no integer. -/
lemma not_mixesMask_fieldValues (a : AuthorizationList) :
    ∀ entry ∈ a.fieldValues, ¬ Argument.MixesMask entry.1 entry.2 := by
  rintro entry hentry ⟨hname, items, hitems, -, item, hitem, hno⟩
  rcases List.mem_append.mp hentry with hentry | hentry
  · obtain ⟨f, -, rfl⟩ := List.mem_map.mp hentry
    obtain rfl : f = .userAuthType := Field.name_injective hname
    cases hv : a.value .userAuthType with
    | none =>
      rw [hv] at hitems
      cases hitems
    | some s =>
      rw [hv] at hitems
      obtain rfl : (Authenticators.codes s).map Argument.integer = items :=
        Argument.list.inj hitems
      obtain ⟨n, -, rfl⟩ := List.mem_map.mp hitem
      exact hno n rfl
  · rw [List.mem_singleton.mp hentry] at hname
    exact Field.name_ne_unknownName .userAuthType hname.symm

/-! ### Lists that came about in some way -/

/-- What every list is like. -/
structure WellFormed (a : AuthorizationList) : Prop where
  /-- The unknown tags are in order, and none of them stands twice. -/
  ascending : a.unknown.Pairwise fun t u => t.number < u.number
  /-- Their numbers have at most 28 bits. -/
  number_lt : ∀ t ∈ a.unknown, t.number < 2 ^ 28
  /-- None of them is the tag of a field. -/
  number_ne : ∀ t ∈ a.unknown, ∀ f : Field, f.tag ≠ t.number
  /-- Each of them holds one element. -/
  content : ∀ t ∈ a.unknown, ∃ i : Der.Item, i.Readable ∧ t.content = i.octets
  /-- A number without a name is not that of a member. -/
  code_ne : ∀ (f : Field) (v : f.Value), a.value f = some v → ∀ s ∈ f.kind.slots v,
    s.2.isKnown = false → ∀ member : s.1.Member, (s.1.code member : ℤ) ≠ s.2.code
  /-- The authenticators are those of a mask. -/
  authenticators : ∀ s : Authenticators, a.value .userAuthType = some s → s.IsProper
  /-- The values of the fields make the same list, in whatever order sets are gone through. -/
  again : ∀ arguments, a.fieldValues.Reordered arguments → make arguments = .ok a

/-- A list in normal form is well-formed. -/
lemma IsNormal.wellFormed {a : AuthorizationList} (h : a.IsNormal) : a.WellFormed where
  ascending := h.ascending
  number_lt := fun t ht => (h.unknown t ht).2.1
  number_ne := by
    rintro t ht f htag
    have hfound := Field.ofTag?_tag f
    rw [htag, (h.unknown t ht).1] at hfound
    cases hfound
  content := fun t ht => (h.unknown t ht).2.2
  code_ne := fun f v hv s hs hunknown => Slot.code_ne_of_isKnown_eq_false hunknown
  authenticators := by
    intro s hs
    obtain ⟨m, rfl⟩ := h.value .userAuthType s hs
    exact Authenticators.isProper_ofMask m
  again := by
    intro arguments hreordered
    exact (alike_make hreordered a.not_mixesMask_fieldValues).ok_of_ok (make_fieldValues h)

/-- The lists that can come about are those in normal form. -/
theorem constructible_iff_isNormal {a : AuthorizationList} : Constructible a ↔ a.IsNormal :=
  ⟨Constructible.isNormal, fun h => .make (make_arguments h)⟩

namespace Builder

/-- An accepted operation is a step of a builder. -/
lemma Reachable.perform {b b' : Builder} (h : Reachable b) {o : Operation}
    (hb : b.perform o = .ok b') : Reachable b' := by
  cases o with
  | assign name argument => exact h.assign hb
  | set name argument => exact h.assign hb
  | call name argument =>
    obtain ⟨setter, -, hcall⟩ := bind_eq_ok_iff.mp hb
    exact h.call hcall
  | setUnknown number content => exact h.setUnknown hb

/-- Some operations lead from one reachable builder to another one. -/
theorem Reachable.run {b : Builder} (h : Reachable b) (operations : List Operation) :
    Reachable (b.run operations) := by
  induction operations generalizing b with
  | nil => exact h
  | cons o operations ih =>
    have hstep : Reachable ((b.perform o).toOption.getD b) := by
      cases hb : b.perform o with
      | error refusal => exact h
      | ok b' => exact h.perform hb
    exact ih hstep

end Builder

/-- A list that was made, built or read is well-formed, and so is what is built after any
operations on a builder, refused ones among them. -/
theorem wellFormed_of_constructible {a : AuthorizationList} {b : Builder} (ha : Constructible a)
    (hb : Builder.Reachable b) (operations : List Operation) :
    a.WellFormed ∧ (b.run operations).build.WellFormed :=
  ⟨ha.isNormal.wellFormed, (hb.run operations).isNormal.wellFormed⟩

/-- Operations that give a negative mask and a tag outside the table, and one that is refused. -/
def negativeOperations : List Operation :=
  [.set "user_auth_type" (.list [.integer (-3)]), .set "digest" (.text "x"),
    .setUnknown (.integer 1000) (.octets [5, 0])]

/-- The list of many kinds of value and the one that these operations build are well-formed. -/
theorem wellFormed_mixed :
    Constructible mixed ∧ Builder.Reachable .empty ∧
      (Builder.empty.run negativeOperations).build =
        (empty.set .userAuthType (.ofList [.known .password, .ofCode _ (-4)])).setUnknown
          ⟨1000, [5, 0]⟩ ∧
      mixed.WellFormed ∧ (Builder.empty.run negativeOperations).build.WellFormed := by
  have hmade : make mixedArguments = .ok mixed := eq_ok_of_toOption (by decide +kernel)
  exact ⟨.make hmade, .empty, by decide +kernel,
    wellFormed_of_constructible (.make hmade) .empty negativeOperations⟩

end AuthorizationList

end AttestedKey
