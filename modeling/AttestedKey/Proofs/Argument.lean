import AttestedKey.Argument.Check
import AttestedKey.AuthorizationList.Builder
import AttestedKey.Proofs.AuthorizationList.Written

/-!
# Values given again

A value can be given as an argument for itself.  The checks accept it and make the same value of it
again: a value of a field in normal form that is written (`Kind.check_argument`), a tag outside the
table (`UnknownTag.make_arguments`), and what is made of several arguments, which are those of a
root of trust, a package, an application id, an authorization list in normal form or a record
(`make_arguments`).
-/

namespace AttestedKey

open Der Outcome

/-- Just the integers are accepted as integers. -/
lemma Argument.toInteger_eq_ok_iff {name : String} {a : Argument} {n : ℤ} :
    a.toInteger name = .ok n ↔ a = .integer n := by
  cases a <;> simp [toInteger]

/-- Just octets are accepted as octets. -/
lemma Argument.toOctets_eq_ok_iff {name : String} {a : Argument} {octets : Octets} :
    a.toOctets name = .ok octets ↔ a = .octets octets := by
  cases a <;> simp [toOctets]

/-- A number is the number of one slot. -/
lemma Argument.toSlot_code {v : Vocabulary} (s : Slot v) (name : String) :
    (Argument.integer s.code).toSlot v name = .ok s :=
  congrArg Except.ok (Slot.ofCode_code s)

namespace RootOfTrust

/-- The arguments of which a root of trust is made. -/
def arguments (r : RootOfTrust) : Arguments :=
  [("verified_boot_key", .octets r.verifiedBootKey), ("device_locked", .truth r.deviceLocked),
    (stateField, .integer r.verifiedBootState.code),
    ("verified_boot_hash", (r.verifiedBootHash.map .octets).getD .absent)]

/-- A root of trust is made of its arguments. -/
theorem make_arguments (r : RootOfTrust) : make r.arguments = .ok r := by
  obtain ⟨key, locked, state, hash⟩ := r
  have hmake : make (arguments ⟨key, locked, state, hash⟩) =
      ((Argument.integer state.code).toSlot .verifiedBootState stateField >>= fun state =>
        .ok ⟨key, locked, state, hash⟩) := by
    cases hash <;> rfl
  rw [hmake, Argument.toSlot_code, ok_bind]

end RootOfTrust

namespace Package

/-- The arguments of which a package is made. -/
def arguments (p : Package) : Arguments :=
  [("package_name", .text p.name), (versionField, .integer p.version)]

/-- A package is made of its arguments. -/
theorem make_arguments (p : Package) : make p.arguments = .ok p := rfl

end Package

namespace ApplicationId

/-- The arguments of which an application id is made. -/
def arguments (a : ApplicationId) : Arguments :=
  [("package_infos", .list (a.packages.toList.map .package)),
    ("signature_digests", .list (a.digests.toList.map .octets))]

/-- An application id is made of its arguments. -/
theorem make_arguments (a : ApplicationId) : make a.arguments = .ok a := by
  have hpackages : toPackages (.list (a.packages.toList.map .package)) = .ok a.packages := by
    have hsettable : (a.packages.toList.map Argument.package).all Argument.isSettable = true := by
      simp [Argument.isSettable]
    have hmap := mapM_map_eq_ok (f := Argument.package) (g := toPackage) (fun p => rfl)
      a.packages.toList
    unfold toPackages
    simp only [Argument.items, Argument.items?, ok_bind, hsettable, if_true, hmap, pure_eq_ok,
      OrderedSet.ofList_toList]
  have hdigests : toDigests (.list (a.digests.toList.map .octets)) = .ok a.digests := by
    have hmap := mapM_map_eq_ok (f := Argument.octets)
      (g := fun item : Argument => item.toOctets "signature_digests") (fun d => rfl)
      a.digests.toList
    unfold toDigests
    simp only [Argument.items, Argument.items?, ok_bind, hmap, pure_eq_ok, OrderedSet.ofList_toList]
  have hmake : make a.arguments =
      (toPackages (.list (a.packages.toList.map .package)) >>= fun packages =>
        toDigests (.list (a.digests.toList.map .octets)) >>= fun digests =>
          .ok ⟨packages, digests⟩) := rfl
  rw [hmake, hpackages, ok_bind, hdigests, ok_bind]

end ApplicationId

/-! ### Values of a field -/

namespace Kind

/-- The argument that stands for a value.  A blank flag stands for no value. -/
def argument : (k : Kind) → k.Value → Argument
  | .integer _, n => .integer n
  | .member _, s => .integer s.code
  | .members _, s => .list (s.toList.map fun t => .integer t.code)
  | .authenticators, s => .list ((Authenticators.codes s).map .integer)
  | .flag, .raised => .truth true
  | .flag, .blank => .absent
  | .octets, b => .octets b
  | .rootOfTrust, r => .rootOfTrust r
  | .applicationId, a => .applicationId a

/-- The mask of some numbers, once an earlier part of it is known. -/
lemma toMask_integers (name : String) (m : ℤ) (codes : List ℤ) :
    Argument.toMask name m (codes.map .integer) =
      .ok (if Authenticators.anyMask ∈ codes then Authenticators.anyMask
        else codes.foldl bitOr m) := by
  induction codes generalizing m with
  | nil => rfl
  | cons c codes ih =>
    rw [List.map_cons, Argument.toMask]
    change (if c = Authenticators.anyMask then _ else _) = _
    by_cases hany : c = Authenticators.anyMask
    · rw [if_pos hany, hany, if_pos (List.mem_cons_self ..)]
      rfl
    · rw [if_neg hany, ih]
      have hmem : Authenticators.anyMask ∈ c :: codes ↔ Authenticators.anyMask ∈ codes := by
        rw [List.mem_cons, or_iff_right (Ne.symm hany)]
      simp only [hmem, List.foldl_cons]

/-- A value in normal form that is written is accepted as it is. -/
theorem check_argument {k : Kind} {v : k.Value} (hnormal : k.IsNormal v)
    (hwritten : k.isWritten v = true) (name : String) :
    k.check name (k.argument v) = .ok (some v) := by
  cases k with
  | integer maximum => rfl
  | member w =>
    have hcheck : check (.member w) name (argument (.member w) v) =
        ((Argument.integer (Slot.code v)).toSlot w name >>= fun slot => .ok (some slot)) := rfl
    rw [hcheck, Argument.toSlot_code, ok_bind]
  | members w =>
    have hmap := mapM_map_eq_ok (f := fun t : Slot w => Argument.integer t.code)
      (g := fun item => item.toSlot w name) (fun t => Argument.toSlot_code t name) v.toList
    have hcheck : check (.members w) name (argument (.members w) v) =
        ((v.toList.map fun t => Argument.integer t.code).mapM (fun item => item.toSlot w name) >>=
          fun slots => .ok (some (.ofList slots))) := rfl
    rw [hcheck, hmap, ok_bind, OrderedSet.ofList_toList]
  | authenticators =>
    obtain ⟨m, rfl⟩ := hnormal
    have hmask := toMask_integers name 0 (Authenticators.ofMask m).codes
    change _ = Except.ok (Authenticators.mask (Authenticators.ofMask m).codes) at hmask
    rw [Authenticators.mask_codes_ofMask] at hmask
    have hcheck : check .authenticators name (argument .authenticators (Authenticators.ofMask m)) =
        (Argument.toMask name 0 ((Authenticators.ofMask m).codes.map .integer) >>= fun mask =>
          .ok (some (Authenticators.ofMask mask))) := rfl
    rw [hcheck, hmask, ok_bind]
  | flag =>
    cases v with
    | raised => rfl
    | blank => cases hwritten
  | octets => rfl
  | rootOfTrust => rfl
  | applicationId => rfl

/-- A value that is written is given as some value. -/
lemma argument_ne_absent {k : Kind} {v : k.Value} (h : k.isWritten v = true) :
    k.argument v ≠ .absent := by
  cases k with
  | flag =>
    cases v with
    | raised => exact Argument.noConfusion
    | blank => cases h
  | _ => exact Argument.noConfusion

/-- A value that is not written is a blank flag, which is given as no value. -/
lemma argument_of_not_isWritten {k : Kind} {v : k.Value} (h : ¬ k.isWritten v = true) :
    k.argument v = .absent ∧ k.blank? = some v := by
  cases k with
  | flag =>
    cases v with
    | raised => exact absurd rfl h
    | blank => exact ⟨rfl, rfl⟩
  | _ => exact absurd rfl h

end Kind

/-! ### Tags outside the table -/

namespace UnknownTag

/-- The octets of one element are accepted as a content. -/
lemma checkContent_octets {i : Item} (h : i.Readable) (number : ℕ) :
    checkContent number i.octets = .ok () := by
  have hread := Cursor.element_octets_append h 0 []
  rw [List.append_nil] at hread
  unfold checkContent Cursor.start
  rw [hread, ok_bind]
  simp only [Cursor.atEnd_nil, if_true, pure_eq_ok]

/-- A tag outside the table is made of its number and its content, unless its number is taken. -/
theorem make_arguments {t : UnknownTag} (h : t.IsNormal) {others : List UnknownTag}
    (hnew : ∀ u ∈ others, u.number ≠ t.number) :
    make others (.integer t.number) (.octets t.content) = .ok t := by
  obtain ⟨hnone, hnumber, i, hi, hcontent⟩ := h
  have hrange : acceptRange numberName maxNumber t.number = .ok (t.number : ℤ) := by
    unfold acceptRange checkRange maxNumber
    change t.number < 2 ^ 28 at hnumber
    rw [if_neg (by omega), if_neg (by omega)]
    rfl
  have hother : others.any (fun u => u.number == t.number) = false := by
    simpa using hnew
  unfold make
  simp only [Argument.toInteger, ok_bind, hrange, Int.toNat_natCast, hnone, hother,
    Bool.false_eq_true, if_false, Argument.toOctets, hcontent, checkContent_octets hi]
  simp only [Except.mapError, ok_bind, pure_eq_ok, ← hcontent]

/-- The argument that stands for a tag outside the table. -/
def argument (t : UnknownTag) : Argument := .list [.integer t.number, .octets t.content]

/-- A tag is placed behind those with smaller numbers. -/
lemma place_append {t : UnknownTag} {tags : List UnknownTag}
    (h : ∀ u ∈ tags, u.number < t.number) : t.place tags = tags ++ [t] := by
  induction tags with
  | nil => rfl
  | cons u rest ih =>
    obtain ⟨hu, hrest⟩ := List.forall_mem_cons.mp h
    rw [place, if_neg (by omega), if_neg (by omega), ih hrest, List.cons_append]

/-- Normal tags in order are taken over one by one as they are. -/
lemma foldlM_addItem {done tags : List UnknownTag} (hascending : Ascending (done ++ tags))
    (hnormal : ∀ t ∈ tags, t.IsNormal) :
    (tags.map argument).foldlM addItem done = .ok (done ++ tags) := by
  induction tags generalizing done with
  | nil => rw [List.append_nil]; rfl
  | cons t rest ih =>
    obtain ⟨ht, hrest⟩ := List.forall_mem_cons.mp hnormal
    have hbefore : ∀ u ∈ done, u.number < t.number := fun u hu =>
      (List.pairwise_append.mp hascending).2.2 u hu t (List.mem_cons_self ..)
    have hadd : addItem done t.argument = .ok (done ++ [t]) := by
      have hmake := make_arguments ht fun u hu => (hbefore u hu).ne
      change (make done (.integer t.number) (.octets t.content) >>= fun t => .ok (t.place done)) = _
      rw [hmake, ok_bind, place_append hbefore]
    rw [List.append_cons] at hascending ⊢
    rw [List.map_cons, List.foldlM_cons, hadd, ok_bind, ih hascending hrest]

/-- Tags in order are made of their arguments. -/
theorem makeAll_arguments {tags : List UnknownTag} (hascending : Ascending tags)
    (hnormal : ∀ t ∈ tags, t.IsNormal) : makeAll (.list (tags.map argument)) = .ok tags := by
  have hloop : (tags.map argument).foldlM addItem [] = .ok ([] ++ tags) :=
    foldlM_addItem hascending hnormal
  exact hloop

end UnknownTag

/-! ### Authorization lists and records -/

/-- Arguments that may all be left out are accepted under their names. -/
lemma Arguments.check_eq_ok {arguments : Arguments} {names : List String}
    (h : ∀ entry ∈ arguments, entry.1 ∈ names) : arguments.check [] names = .ok () := by
  unfold Arguments.check
  rw [if_pos]
  rw [Bool.and_eq_true, List.all_eq_true]
  exact ⟨fun entry hentry => List.contains_iff_mem.mpr (h entry hentry), rfl⟩

/-- Fields have different names. -/
lemma Field.name_injective {f g : Field} (h : f.name = g.name) : f = g :=
  Option.some.inj (by rw [← ofName?_name f, h, ofName?_name])

/-- No field has the name under which the tags outside the table are given. -/
lemma Field.name_ne_unknownName (f : Field) : f.name ≠ AuthorizationList.unknownName := by
  cases f <;> decide

namespace AuthorizationList

/-- Arguments under the names of fields and of the unknown tags are accepted. -/
lemma check_names {arguments : Arguments}
    (h : ∀ entry ∈ arguments, entry.1 = unknownName ∨ ∃ f : Field, entry.1 = f.name) :
    arguments.check [] (unknownName :: Field.all.map Field.name) = .ok () := by
  refine Arguments.check_eq_ok fun entry hentry => ?_
  rcases h entry hentry with hname | ⟨f, hname⟩
  · rw [hname]
    exact List.mem_cons_self ..
  · rw [hname]
    exact List.mem_cons_of_mem _ (List.mem_map_of_mem (Field.mem_all f))

/-- The argument for the unknown tags is found behind those for fields. -/
lemma find?_append_unknownName {fields : Arguments}
    (h : ∀ entry ∈ fields, ∃ f : Field, entry.1 = f.name) (tags : Argument) :
    Arguments.find? (fields ++ [(unknownName, tags)]) unknownName = some tags := by
  have hfields : fields.lookup unknownName = none := by
    refine List.lookup_eq_none_iff.mpr fun entry hentry => ?_
    obtain ⟨f, hname⟩ := h entry hentry
    rw [hname]
    exact bne_iff_ne.mpr (Field.name_ne_unknownName f).symm
  unfold Arguments.find?
  rw [List.lookup_append, hfields]
  simp

/-- The argument for a field, if it has a value. -/
def argument? (a : AuthorizationList) (f : Field) : Option Argument :=
  (a.value f).map f.kind.argument

/-- The arguments for some fields of a list. -/
def fieldArguments (a : AuthorizationList) (fields : List Field) : Arguments :=
  fields.filterMap fun f => (a.argument? f).map fun argument => (f.name, argument)

/-- The arguments of which a list is made. -/
def arguments (a : AuthorizationList) : Arguments :=
  a.fieldArguments Field.all ++ [(unknownName, .list (a.unknown.map UnknownTag.argument))]

/-- The arguments for some fields have the names of fields. -/
lemma exists_of_mem_fieldArguments {a : AuthorizationList} {fields : List Field}
    {entry : String × Argument} (h : entry ∈ a.fieldArguments fields) :
    ∃ f : Field, entry.1 = f.name := by
  obtain ⟨f, -, hentry⟩ := List.mem_filterMap.mp h
  obtain ⟨argument, -, rfl⟩ := Option.map_eq_some_iff.mp hentry
  exact ⟨f, rfl⟩

/-- The arguments for some fields begin with that of the first one, if it has a value. -/
lemma fieldArguments_cons (a : AuthorizationList) (f : Field) (rest : List Field) :
    a.fieldArguments (f :: rest) =
      ((a.argument? f).map fun argument => (f.name, argument)).toList ++ a.fieldArguments rest := by
  unfold fieldArguments
  rw [List.filterMap_cons]
  cases a.argument? f <;> rfl

/-- The argument under the name of a field is the one for that field. -/
lemma lookup_fieldArguments (a : AuthorizationList) (fields : List Field) (f : Field) :
    (a.fieldArguments fields).lookup f.name = if f ∈ fields then a.argument? f else none := by
  induction fields with
  | nil => rfl
  | cons g rest ih =>
    have hfirst : (((a.argument? g).map fun argument => (g.name, argument)).toList).lookup f.name =
        if f = g then a.argument? f else none := by
      by_cases hfg : f = g
      · subst hfg
        cases a.argument? f <;> simp
      · have hname : ¬ f.name = g.name := fun heq => hfg (Field.name_injective heq)
        cases a.argument? g <;> simp [hname, hfg]
    rw [fieldArguments_cons, List.lookup_append, hfirst, ih]
    by_cases hfg : f = g <;> by_cases hrest : f ∈ rest <;> cases a.argument? f <;>
      simp [hfg, hrest]

/-- The argument of a field is found under its name. -/
lemma find?_arguments (a : AuthorizationList) (f : Field) :
    a.arguments.find? f.name = a.argument? f := by
  unfold Arguments.find? arguments
  rw [List.lookup_append, lookup_fieldArguments, if_pos (Field.mem_all f)]
  have hname : (f.name == unknownName) = false :=
    beq_eq_false_iff_ne.mpr (Field.name_ne_unknownName f)
  simp [List.lookup_cons, hname]

/-- The tags outside the table are found under their name. -/
lemma find?_unknownName (a : AuthorizationList) :
    a.arguments.find? unknownName = some (.list (a.unknown.map UnknownTag.argument)) :=
  find?_append_unknownName (fun _ hentry => exists_of_mem_fieldArguments hentry) _

/-- A list has no argument under a name that is not that of a field or of the unknown tags. -/
lemma check_arguments (a : AuthorizationList) :
    a.arguments.check [] (unknownName :: Field.all.map Field.name) = .ok () := by
  refine check_names fun entry hentry => ?_
  rcases List.mem_append.mp hentry with hentry | hentry
  · exact .inr (exists_of_mem_fieldArguments hentry)
  · rw [List.mem_singleton.mp hentry]
    exact .inl rfl

/-- Takes over the value that another list has for a field, if it has one. -/
def takeOver (a acc : AuthorizationList) (f : Field) : AuthorizationList :=
  match a.value f with
  | none => acc
  | some v => acc.set f v

/-- The argument for a field gives the field its value. -/
lemma addArgument_arguments {a : AuthorizationList} (h : a.IsNormal) (acc : AuthorizationList)
    (f : Field) : addArgument a.arguments acc f = .ok (a.takeOver acc f) := by
  unfold addArgument takeOver
  rw [find?_arguments, argument?]
  cases hv : a.value f with
  | none => rfl
  | some v =>
    by_cases hwritten : f.kind.isWritten v = true
    · have hcheck := Kind.check_argument (h.value f v hv) hwritten f.name
      have hgiven := Kind.argument_ne_absent hwritten
      rw [Option.map_some]
      split
      next heq => cases heq
      next heq => exact absurd (Option.some.inj heq) hgiven
      next argument _ heq =>
        obtain rfl := Option.some.inj heq
        rw [hcheck]
        rfl
    · obtain ⟨habsent, hblank⟩ := Kind.argument_of_not_isWritten hwritten
      rw [Option.map_some, habsent, hblank]
      rfl

/-- After some fields are taken over, just these have the values of the other list. -/
lemma value_foldl_takeOver (a acc : AuthorizationList) (fields : List Field) (f : Field) :
    (fields.foldl a.takeOver acc).value f =
      if f ∈ fields then (a.value f).or (acc.value f) else acc.value f := by
  induction fields generalizing acc with
  | nil => rfl
  | cons g rest ih =>
    have hstep : (a.takeOver acc g).value f =
        if f = g then (a.value f).or (acc.value f) else acc.value f := by
      unfold takeOver
      by_cases hfg : f = g
      · subst hfg
        cases a.value f with
        | none => simp
        | some v => simp [set]
      · rw [if_neg hfg]
        cases a.value g with
        | none => rfl
        | some v => exact value_assign_of_ne _ _ hfg
    rw [List.foldl_cons, ih, hstep]
    by_cases hfg : f = g <;> by_cases hmem : f ∈ rest <;> cases a.value f <;> simp_all

/-- Values alone are taken over. -/
lemma unknown_foldl_takeOver (a acc : AuthorizationList) (fields : List Field) :
    (fields.foldl a.takeOver acc).unknown = acc.unknown := by
  induction fields generalizing acc with
  | nil => rfl
  | cons f rest ih =>
    rw [List.foldl_cons, ih]
    unfold takeOver
    cases a.value f <;> rfl

/-- A list in normal form is made of its arguments. -/
theorem make_arguments {a : AuthorizationList} (h : a.IsNormal) : make a.arguments = .ok a := by
  have hfields : Field.all.foldlM (addArgument a.arguments) empty =
      .ok (Field.all.foldl a.takeOver empty) := by
    have hstep : addArgument a.arguments = fun acc f => pure (a.takeOver acc f) :=
      funext₂ fun acc f => addArgument_arguments h acc f
    rw [hstep, List.foldlM_pure]
    rfl
  have hunknown := UnknownTag.makeAll_arguments h.ascending h.unknown
  unfold make
  rw [check_arguments, ok_bind, hfields, ok_bind, find?_unknownName, Option.getD_some, hunknown,
    ok_bind, pure_eq_ok, Except.ok.injEq, ext_iff]
  refine ⟨fun f hf => ?_, rfl⟩
  change (Field.all.foldl a.takeOver empty).value f = a.value f
  rw [value_foldl_takeOver, if_pos hf]
  exact Option.or_none

namespace Builder

/-- A field is found under its name. -/
lemma field_name (f : Field) : field f.name = .ok f := by
  unfold field
  rw [Field.ofName?_name]

/-- What is assigned under a name is the field of this name. -/
lemma ofName?_of_field {name : String} {f : Field} (h : field name = .ok f) :
    Field.ofName? name = some f := by
  unfold field at h
  split at h
  next hfound => rw [hfound, Except.ok.inj h]
  · cases h

/-- What is set under a name is the field of this name. -/
lemma ofName?_of_setter {name : String} {f : Field} (h : setter name = .ok (.field f)) :
    Field.ofName? name = some f := by
  unfold setter at h
  split at h
  next hfound => rw [hfound, Setter.field.inj (Except.ok.inj h)]
  · split at h <;> cases h

/-- A normal value that is written is given to its field as it is. -/
lemma valueOf_argument {f : Field} {v : f.Value} (hnormal : f.kind.IsNormal v)
    (hwritten : f.kind.isWritten v = true) :
    valueOf f (f.kind.argument v) = .ok (some v) := by
  unfold valueOf
  split
  next habsent => exact absurd habsent (Kind.argument_ne_absent hwritten)
  · exact Kind.check_argument hnormal hwritten f.name

end Builder

end AuthorizationList

namespace KeyDescription

/-- The arguments of which a record is made. -/
def arguments (k : KeyDescription) : Arguments :=
  argumentNames.zip
    [.integer k.attestationVersion, .integer k.attestationSecurityLevel.code,
      .integer k.keymasterVersion, .integer k.keymasterSecurityLevel.code,
      .octets k.attestationChallenge, .octets k.uniqueId, .authorizationList k.softwareEnforced,
      .authorizationList k.teeEnforced]

/-- A record is made of its arguments. -/
theorem make_arguments (k : KeyDescription) : make k.arguments = .ok k := by
  have hmake : make k.arguments =
      ((Argument.integer k.attestationSecurityLevel.code).toSlot .securityLevel
          attestationSecurityLevelField >>= fun attestationLevel =>
        (Argument.integer k.keymasterSecurityLevel.code).toSlot .securityLevel
            keymasterSecurityLevelField >>= fun keymasterLevel =>
          .ok ⟨k.attestationVersion, attestationLevel, k.keymasterVersion, keymasterLevel,
            k.attestationChallenge, k.uniqueId, k.softwareEnforced, k.teeEnforced⟩) := rfl
  rw [hmake, Argument.toSlot_code, ok_bind, Argument.toSlot_code, ok_bind]

end KeyDescription

end AttestedKey
