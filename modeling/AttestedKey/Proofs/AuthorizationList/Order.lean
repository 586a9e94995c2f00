import AttestedKey.Proofs.AuthorizationList.Grammar
import AttestedKey.Proofs.Strictness

/-!
# The order on the wire

`AuthorizationList.Rearranged input input'` says that `input'` is `input` with its wrappers in
another order, and with the members of the sets in them in other orders: those of the set-valued
fields, of a set of authenticators, and of the packages and the digests of an application id.
Neither order means anything: the wire forms of a value are closed under it
(`Kind.Form.rearranged`), the same lists hold the rearranged entries (`Holds.rearranged`), and so
both inputs are read as the same list, in either mode (`decode_of_rearranged`).

Writing goes through the members of a set in an order of its own, which nothing fixes.
`AuthorizationList.Writes a x` says that `x` is the outcome for some choice of these orders.  For a
list that was read, the choice makes no difference (`Writes.eq_encode`).
-/

namespace AttestedKey

open Der Outcome

/-- What is a permutation of the values of some items is made of them in another order. -/
lemma exists_perm_of_map_perm {α β : Type} {f : α → β} {l : List α} {l' : List β}
    (h : (l.map f).Perm l') : ∃ m : List α, m.Perm l ∧ l' = m.map f := by
  have hcomp := congrFun (congrFun (List.eq_map_comp_perm f) l') l
  obtain ⟨m, hm, hperm⟩ := (Eq.symm hcomp).mp h.symm
  exact ⟨m, hperm, hm⟩

/-- Items with one tag and contents of one length are equally long. -/
lemma Der.Item.length_octets_of_header {i j : Item} (htag : i.tag = j.tag)
    (hlength : i.content.length = j.content.length) : i.octets.length = j.octets.length := by
  cases i
  cases j
  cases htag
  exact Item.length_octets_eq hlength

/-! ### The items of a field -/

/-- One item is another one with the members of its sets in another order. -/
inductive Kind.Rearranged : Kind → Item → Item → Prop
  /-- Nothing has moved. -/
  | refl (k : Kind) (i : Item) : Rearranged k i i
  /-- The members of a set have moved. -/
  | members (v : Vocabulary) {parts parts' : List Item} (hread : ∀ i ∈ parts, i.Readable)
    (hperm : parts.Perm parts') : Rearranged (.members v) (.set parts) (.set parts')
  /-- The numbers that make up a mask have moved. -/
  | authenticators {parts parts' : List Item} (hread : ∀ i ∈ parts, i.Readable)
    (hperm : parts.Perm parts') : Rearranged .authenticators (.set parts) (.set parts')
  /-- The packages and the digests of an application id have moved. -/
  | applicationId {packages packages' digests digests' : List Item}
    (hpackages : ∀ i ∈ packages, i.Readable) (hdigests : ∀ i ∈ digests, i.Readable)
    (hperm : packages.Perm packages') (hperm' : digests.Perm digests') :
    Rearranged .applicationId
      (.octetString (Item.sequence [.set packages, .set digests]).octets)
      (.octetString (Item.sequence [.set packages', .set digests']).octets)

namespace Kind

/-- The tag and the length stay as they are. -/
lemma Rearranged.header_eq {k : Kind} {i i' : Item} (h : Rearranged k i i') :
    i'.tag = i.tag ∧ i'.content.length = i.content.length := by
  cases h with
  | refl => exact ⟨rfl, rfl⟩
  | members v hread hperm => exact ⟨rfl, Item.length_join_of_perm hperm.symm⟩
  | authenticators hread hperm => exact ⟨rfl, Item.length_join_of_perm hperm.symm⟩
  | applicationId hpackages hdigests hperm hperm' =>
    refine ⟨rfl, Item.length_octets_eq ?_⟩
    simp only [Item.join_cons, Item.join_nil, List.length_append, Item.length_set_of_perm hperm,
      Item.length_set_of_perm hperm']

/-- What is rearranged can be read if the original can. -/
lemma Rearranged.readable {k : Kind} {i i' : Item} (h : Rearranged k i i') (hi : i.Readable) :
    i'.Readable := by
  obtain ⟨htag, hlength⟩ := h.header_eq
  exact ⟨htag ▸ hi.number_lt, hlength ▸ hi.length_lt⟩

/-- The parts of a readable set that holds the items of some values are those items. -/
lemma exists_perm_of_set_eq {α : Type} (form : α → Item) {l : List α} {parts parts' : List Item}
    (hi : (Item.set parts).Readable) (hread : ∀ i ∈ parts, i.Readable)
    (hnumber : ∀ a ∈ l, (form a).tag.number < 2 ^ 28)
    (heq : Item.set parts = Item.set (l.map form)) (hperm : parts.Perm parts') :
    ∃ m : List α, m.Perm l ∧ parts' = m.map form := by
  have hl : ∀ i ∈ l.map form, i.Readable := by
    rw [heq] at hi
    exact List.forall_mem_map.mpr (Item.readable_of_ofType_map hi hnumber)
  have hparts : parts = l.map form := Item.join_injective hread hl (Item.ofType_injective heq)
  exact exists_perm_of_map_perm (hparts ▸ hperm)

/-- A rearranged wire form is a wire form of the same value. -/
theorem Form.rearranged {k : Kind} {v : k.Value} {i i' : Item} (hi : i.Readable) (h : k.Form v i)
    (hr : Rearranged k i i') : k.Form v i' := by
  have hi' := hr.readable hi
  cases hr with
  | refl => exact h
  | members w hread hperm =>
    obtain ⟨slots, hslots, hcodes, heq⟩ := h
    obtain ⟨slots', hslots', rfl⟩ := exists_perm_of_set_eq Slot.item hi hread
      (fun s _ => Item.number_lt_of_ofType _ _) heq hperm
    exact ⟨slots', hslots'.trans hslots, fun s hs => hcodes s (hslots'.mem_iff.mp hs), rfl⟩
  | authenticators hread hperm =>
    obtain ⟨m, rfl, ⟨-, heq⟩ | ⟨codes, hcodes, rfl, heq⟩⟩ := h
    · cases congrArg Item.tag heq
    · obtain ⟨codes', hcodes', rfl⟩ := exists_perm_of_set_eq Item.integer hi hread
        (fun c _ => Item.number_lt_of_ofType _ _) heq hperm
      have hmask := Authenticators.mask_eq_of_mem fun c => (hcodes'.mem_iff (a := c)).symm
      exact ⟨_, rfl, .inr ⟨codes', fun c hc => hcodes c (hcodes'.mem_iff.mp hc), hmask, rfl⟩⟩
  -- The two sets are inside of the octets of a string, so they are found by reading these octets in
  -- the one way there is.
  | @applicationId packages _ digests _ hpackages hdigests hperm hperm' =>
    obtain ⟨j, hj, ⟨ps, ds, hps, hds, hrange, rfl⟩, heq⟩ := h
    have hsequence : (Item.sequence [.set packages, .set digests]).Readable :=
      Item.readable_of_octets (Item.number_lt_of_ofType _ _) hi.length_lt
    obtain ⟨hset, hset'⟩ := Item.readable_of_ofType_pair hsequence
    obtain ⟨hset₁, hset₁', -, -⟩ := ApplicationId.readable_of_itemOf hj
    have hitem := Item.octets_injective hsequence hj (Item.octetString_injective heq)
    have hsets : [Item.set packages, Item.set digests] =
        [.set (ps.map Package.item), .set (ds.map Item.octetString)] :=
      Item.join_injective (by simpa using ⟨hset, hset'⟩) (by simpa using ⟨hset₁, hset₁'⟩)
        (Item.ofType_injective hitem)
    obtain ⟨hfirst, hrest⟩ := List.cons.inj hsets
    obtain ⟨ps', hps', rfl⟩ := exists_perm_of_set_eq Package.item hset hpackages
      (fun p _ => Item.number_lt_of_ofType _ _) hfirst hperm
    obtain ⟨ds', hds', rfl⟩ := exists_perm_of_set_eq Item.octetString hset' hdigests
      (fun d _ => Item.number_lt_of_ofType _ _) (List.singleton_injective hrest) hperm'
    refine ⟨ApplicationId.itemOf ps' ds', ?_, ?_, rfl⟩
    · refine Item.readable_of_octets (Item.number_lt_of_ofType _ _) ?_
      exact hi'.length_lt
    · exact ⟨ps', ds', hps'.trans hps, hds'.trans hds,
        fun p hp => hrange p (hps'.mem_iff.mp hp), rfl⟩

end Kind

namespace AuthorizationList

/-! ### The entries of a list -/

/-- One entry is another one with the members of its sets in another order.  What a tag outside
the table holds is left as it is. -/
def Entry.Rearranged (e e' : Entry) : Prop :=
  e'.number = e.number ∧
    (e'.inner = e.inner ∨ ∃ f, Field.ofTag? e.number = some f ∧ f.kind.Rearranged e.inner e'.inner)

/-- The tag and the length of what an entry holds stay as they are. -/
lemma Entry.Rearranged.header_eq {e e' : Entry} (h : e.Rearranged e') :
    e'.inner.tag = e.inner.tag ∧ e'.inner.content.length = e.inner.content.length := by
  obtain ⟨-, hsame | ⟨f, -, hr⟩⟩ := h
  · rw [hsame]
    exact ⟨rfl, rfl⟩
  · exact hr.header_eq

/-- The items in two wrappers are equally long. -/
lemma Entry.Rearranged.length_eq {e e' : Entry} (h : e.Rearranged e') :
    e'.inner.octets.length = e.inner.octets.length :=
  Item.length_octets_of_header h.header_eq.1 h.header_eq.2

/-- An entry that is rearranged can be read if the original can. -/
lemma Entry.Rearranged.readable {e e' : Entry} (h : e.Rearranged e') (he : e.Readable) :
    e'.Readable := by
  obtain ⟨hwrapper, hinner⟩ := he
  obtain ⟨htag, hlength⟩ := h.header_eq
  refine ⟨⟨?_, ?_⟩, ⟨htag ▸ hinner.number_lt, hlength ▸ hinner.length_lt⟩⟩
  · exact lt_of_eq_of_lt h.1 hwrapper.number_lt
  · exact lt_of_eq_of_lt h.length_eq hwrapper.length_lt

/-- The entry of a field is another wire form of a value of that field. -/
lemma Entry.Rearranged.form {f : Field} {v : f.Value} {i : Item} {e' : Entry}
    (h : Entry.Rearranged ⟨f.tag, i⟩ e') (hi : i.Readable) (hform : f.kind.Form v i) :
    f.kind.Form v e'.inner := by
  obtain ⟨-, hsame | ⟨g, hg, hr⟩⟩ := h
  · rw [hsame]
    exact hform
  · obtain rfl : f = g := Option.some.inj ((Field.ofTag?_tag f).symm.trans hg)
    exact hform.rearranged hi hr

/-- The entry of a tag outside the table is the same entry. -/
lemma Entry.Rearranged.eq_of_unknown {e e' : Entry} (h : e.Rearranged e')
    (hnone : Field.ofTag? e.number = none) : e' = e := by
  obtain ⟨hnumber, hsame | ⟨f, hf, -⟩⟩ := h
  · cases e
    cases e'
    exact congrArg₂ Entry.mk hnumber hsame
  · rw [hnone] at hf
    cases hf

/-- A list that holds some entries holds rearranged ones. -/
theorem Holds.rearranged {a : AuthorizationList} {entries entries' : List Entry}
    (h : a.Holds entries) (hread : ∀ e ∈ entries, e.Readable)
    (hto : ∀ e ∈ entries, ∃ e' ∈ entries', e.Rearranged e')
    (hfrom : ∀ e' ∈ entries', ∃ e ∈ entries, e.Rearranged e') : a.Holds entries' where
  value_of_mem f i' hmem' := by
    obtain ⟨⟨n, i⟩, hmem, hr⟩ := hfrom _ hmem'
    obtain rfl : f.tag = n := hr.1
    obtain ⟨v, hv, hform⟩ := h.value_of_mem f i hmem
    exact ⟨v, hv, hr.form (hread _ hmem).2 hform⟩
  mem_of_value f v hv := by
    obtain ⟨i, hmem, hform⟩ := h.mem_of_value f v hv
    obtain ⟨⟨n, i'⟩, hmem', hr⟩ := hto _ hmem
    obtain rfl : n = f.tag := hr.1
    exact ⟨i', hmem', hr.form (hread _ hmem).2 hform⟩
  ascending := h.ascending
  mem_unknown t := by
    rw [h.mem_unknown]
    refine and_congr_right fun hnone => exists_congr fun i => and_congr_left fun _ => ?_
    constructor
    · intro hmem
      obtain ⟨e', hmem', hr⟩ := hto _ hmem
      rwa [hr.eq_of_unknown hnone] at hmem'
    · intro hmem'
      obtain ⟨e, hmem, hr⟩ := hfrom _ hmem'
      have hnumber : e.number = t.number := hr.1.symm
      rwa [← hr.eq_of_unknown (hnumber ▸ hnone)] at hmem

/-! ### The inputs -/

/-- One input is the sequence of some wrappers, and the other one that of the same wrappers with
the members of their sets, and then the wrappers themselves, in another order. -/
def Rearranged (input input' : Octets) : Prop :=
  ∃ entries moved entries' : List Entry, (∀ e ∈ entries, e.Readable) ∧
    (Item.sequence (entries.map Entry.wrapper)).Readable ∧
    input = (Item.sequence (entries.map Entry.wrapper)).octets ∧
    List.Forall₂ Entry.Rearranged entries moved ∧ moved.Perm entries' ∧
    input' = (Item.sequence (entries'.map Entry.wrapper)).octets

/-- Rearranging sets keeps the numbers of the entries. -/
lemma number_eq_of_forall₂ {entries moved : List Entry}
    (h : List.Forall₂ Entry.Rearranged entries moved) :
    moved.map Entry.number = entries.map Entry.number := by
  induction h with
  | nil => rfl
  | cons hr _ ih => rw [List.map_cons, List.map_cons, ih, hr.1]

/-- Rearranging sets keeps the length of all wrappers together. -/
lemma length_join_of_forall₂ {entries moved : List Entry}
    (h : List.Forall₂ Entry.Rearranged entries moved) :
    (Item.join (moved.map Entry.wrapper)).length =
      (Item.join (entries.map Entry.wrapper)).length := by
  induction h with
  | nil => rfl
  | @cons e e' _ _ hr _ ih =>
    have hwrapper : e'.wrapper.octets.length = e.wrapper.octets.length :=
      Item.length_octets_of_header (congrArg Tag.explicit hr.1) hr.length_eq
    simp only [List.map_cons, Item.join_cons, List.length_append, hwrapper, ih]

/-- Lenient reading reads rearranged inputs alike. -/
lemma decode_lenient_of_rearranged {input input' : Octets} {a : AuthorizationList}
    (h : Rearranged input input') (ha : decode .lenient input = .ok a) :
    decode .lenient input' = .ok a := by
  obtain ⟨entries, moved, entries', hread, hsequence, rfl, hmoved, hperm, rfl⟩ := h
  obtain ⟨i, hi, hoctets, known, hnodup, hreadKnown, hholds, rfl⟩ := decode_eq_ok_iff.mp ha
  have hwrappers := Item.join_injective (List.forall_mem_map.mpr fun e he => (hread e he).1)
    (List.forall_mem_map.mpr fun e he => (hreadKnown e he).1)
    (Item.ofType_injective (Item.octets_injective hsequence hi hoctets))
  obtain rfl : entries = known := wrappers_injective hread hreadKnown hwrappers
  have hto : ∀ e ∈ entries, ∃ e' ∈ entries', e.Rearranged e' := by
    intro e he
    obtain ⟨e', he', hr⟩ := exists_of_forall₂ hmoved.flip he
    exact ⟨e', hperm.mem_iff.mp he', hr⟩
  have hfrom : ∀ e' ∈ entries', ∃ e ∈ entries, e.Rearranged e' :=
    fun e' he' => exists_of_forall₂ hmoved (hperm.mem_iff.mpr he')
  refine decode_eq_ok_iff.mpr ⟨_, ⟨Item.number_lt_of_ofType _ _, ?_⟩, rfl, entries', ?_, ?_,
    hholds.rearranged hread hto hfrom, rfl⟩
  · have hlength := Item.length_join_of_perm (hperm.map Entry.wrapper)
    rw [length_join_of_forall₂ hmoved] at hlength
    exact lt_of_eq_of_lt hlength.symm hsequence.length_lt
  · refine (hperm.map Entry.number).nodup_iff.mp ?_
    rwa [number_eq_of_forall₂ hmoved]
  · intro e' he'
    obtain ⟨e, he, hr⟩ := hfrom e' he'
    exact hr.readable (hread e he)

/-- Strict reading reads rearranged inputs alike too. -/
lemma decode_rearranged {rigor : Rigor} {input input' : Octets} {a : AuthorizationList}
    (h : Rearranged input input') (ha : decode rigor input = .ok a) :
    decode rigor input' = .ok a := by
  have hlenient := (decode_agrees input).lenient_of_ok (decode · input) ha
  have hlenient' := decode_lenient_of_rearranged h hlenient
  cases rigor with
  | lenient => exact hlenient'
  | strict =>
    -- In strict mode the list is known, as it would have been refused otherwise, and so it is read
    -- from the other input too.
    have hrefuses := (decode_agrees input).refusesUnknown fun _ _ h => h.not_isKnown
    have hrefuses' := (decode_agrees input').refusesUnknown fun _ _ h => h.not_isKnown
    by_cases hknown : a.IsKnown
    · exact hrefuses'.strict_of_known a hlenient' hknown
    · obtain ⟨what, refusal, -, -, hrefused⟩ := hrefuses.strict_of_unknown a hlenient hknown
      rw [hrefused] at ha
      cases ha

end AuthorizationList

/-! ### Writing in any order -/

/-- Folds numbers one after another into a mask, and stops at the one for any authenticator. -/
def Authenticators.fold (mask : ℤ) : List ℤ → ℤ
  | [] => mask
  | code :: rest => if code = anyMask then anyMask else fold (bitOr mask code) rest

/-- Folding numbers into a mask comes to the one for any authenticator, or to all bits. -/
lemma Authenticators.fold_eq (codes : List ℤ) (m : ℤ) :
    fold m codes = if anyMask ∈ codes then anyMask else codes.foldl bitOr m := by
  induction codes generalizing m with
  | nil => rfl
  | cons code rest ih =>
    rw [fold, ih, List.foldl_cons]
    by_cases hany : code = anyMask
    · simp [hany]
    · simp [hany, eq_comm]

/-- In whatever order the numbers of some authenticators come, they fold into the mask. -/
lemma Authenticators.fold_eq_mask {chosen : Authenticators} {listed : List (Slot .userAuthType)}
    (h : listed.Perm chosen.toList) : fold 0 (listed.map Slot.code) = mask chosen.codes := by
  rw [fold_eq]
  exact mask_eq_of_mem fun _ => (h.map Slot.code).mem_iff

/-- Writing a value may have an outcome, if its sets are gone through in the right order. -/
def Kind.Writes : (k : Kind) → (field : String) → k.Value → Except RangeError Octets → Prop
  | .members v, field, slots, x => ∃ listed : List (Slot v), listed.Perm slots.toList ∧
      x = do
        let parts ← listed.mapM fun slot => encodeCode field slot.code
        return encodeSet parts
  | .authenticators, field, chosen, x => ∃ listed : List (Slot .userAuthType),
      listed.Perm chosen.toList ∧
        x = encodeCode field (Authenticators.fold 0 (listed.map Slot.code))
  | .applicationId, _, application, x => ∃ (packages : List Package) (digests : List Octets),
      packages.Perm application.packages.toList ∧ digests.Perm application.digests.toList ∧
        x = do
          let packages ← packages.mapM Package.encode
          return encodeOctets (encodeSequence
            [encodeSet packages, encodeSet (digests.map encodeOctets)])
  | k, field, v, x => x = k.encode field v

/-- Parts that can be written one after another, and are then put into order, come out alike in
whatever order they are written. -/
lemma assemble_mapM_of_perm {α ε : Type} {f : α → Except ε Octets} {assemble : List Octets → Octets}
    (hassemble : ∀ parts parts', parts.Perm parts' → assemble parts = assemble parts')
    {l l' : List α} (hperm : l.Perm l') {octets : Octets}
    (h : (l'.mapM f >>= fun parts => .ok (assemble parts)) = .ok octets) :
    (l.mapM f >>= fun parts => .ok (assemble parts)) = .ok octets := by
  obtain ⟨parts, hparts, hoctets⟩ := bind_eq_ok_iff.mp h
  obtain ⟨parts', hparts', hsame⟩ := mapM_eq_ok_of_perm hperm hparts
  rw [hparts', ok_bind, hassemble _ _ hsame]
  exact hoctets

namespace Kind

/-- Writing a value with its sets in the order of the writer is one of the ways to write it. -/
lemma writes_encode (k : Kind) (field : String) (v : k.Value) :
    k.Writes field v (k.encode field v) := by
  cases k with
  | members w => exact ⟨v.toList, .refl _, rfl⟩
  | authenticators =>
    refine ⟨v.toList, .refl _, ?_⟩
    rw [Authenticators.fold_eq_mask (.refl _)]
    rfl
  | applicationId =>
    refine ⟨v.packages.toList, v.digests.toList, .refl _, .refl _, ?_⟩
    simp only [encode, ApplicationId.encode, bind_assoc]
    rfl
  | _ => rfl

/-- If a value can be written, then in the same octets whatever the order in which its sets are
gone through. -/
theorem Writes.eq_ok {k : Kind} {field : String} {v : k.Value} {x : Except RangeError Octets}
    {octets : Octets} (hx : k.Writes field v x) (h : k.encode field v = .ok octets) :
    x = .ok octets := by
  cases k with
  | members w =>
    obtain ⟨listed, hlisted, rfl⟩ := hx
    exact assemble_mapM_of_perm (fun _ _ => encodeSet_eq_of_perm) hlisted h
  | authenticators =>
    obtain ⟨listed, hlisted, rfl⟩ := hx
    rw [Authenticators.fold_eq_mask hlisted]
    exact h
  | applicationId =>
    obtain ⟨packages, digests, hpackages, hdigests, rfl⟩ := hx
    rw [encodeSet_eq_of_perm (hdigests.map encodeOctets)]
    simp only [encode, ApplicationId.encode, bind_assoc] at h
    refine assemble_mapM_of_perm (fun parts parts' hparts => ?_) hpackages h
    rw [encodeSet_eq_of_perm hparts]
  | _ =>
    obtain rfl := hx
    exact h

/-- A value that was read is written in one way.  Only a verified boot state may not fit, and
nothing in a root of trust is gone through in an order. -/
theorem Writes.eq_encode {k : Kind} {field : String} {v : k.Value} {i : Item}
    {x : Except RangeError Octets} (hx : k.Writes field v x) (hform : k.Form v i) :
    x = k.encode field v := by
  -- A value whose numbers all fit is written, and then the order does not matter.
  have hencode : k.HasCodeState v → x = k.encode field v := by
    intro hstate
    have hwritten : k.encode field v = .ok (k.item v).octets :=
      encode_eq_ok_iff.mpr ⟨(inRange_iff_of_form hform).mpr hstate, rfl⟩
    exact (hx.eq_ok hwritten).trans hwritten.symm
  cases k with
  | rootOfTrust => exact hx
  | _ => exact hencode trivial

end Kind

namespace AuthorizationList

/-- Writes a list, given how the value of a field is written. -/
def encodeBy (write : (f : Field) → f.Value → Except RangeError Octets) (a : AuthorizationList) :
    Except RangeError Octets := do
  let known ← Field.all.filterMapM fun f =>
    match a.value f with
    | none => return none
    | some value => do
      if f.kind.isWritten value then
        let inner ← write f value
        return some (f.tag, inner)
      else
        return none
  let unknown := a.unknown.map fun t => (t.number, t.content)
  let entries := (known ++ unknown).mergeSort (fun p q => p.1 ≤ q.1)
  return encodeSequence (entries.map fun (tag, inner) => encodeExplicit tag inner)

/-- Writing a list is writing it with its values written each in its own way. -/
lemma encode_eq_encodeBy (a : AuthorizationList) :
    a.encode = a.encodeBy fun f => f.kind.encode f.name := by
  unfold encode entries fieldEntries encodeBy
  rw [bind_assoc]
  rfl

/-- Writing a list may have an outcome, if the sets in it are gone through in the right orders. -/
def Writes (a : AuthorizationList) (x : Except RangeError Octets) : Prop :=
  ∃ write : (f : Field) → f.Value → Except RangeError Octets,
    (∀ (f : Field) (v : f.Value), f.kind.Writes f.name v (write f v)) ∧ x = a.encodeBy write

/-- The orders of the writer are one choice. -/
lemma writes_encode (a : AuthorizationList) : a.Writes a.encode :=
  ⟨_, fun f v => f.kind.writes_encode f.name v, a.encode_eq_encodeBy⟩

/-- A list that was read is written in one way, whatever the orders in which its sets are gone
through. -/
theorem Writes.eq_encode {a : AuthorizationList} {entries : List Entry}
    {x : Except RangeError Octets} (hx : a.Writes x) (h : a.Holds entries) : x = a.encode := by
  obtain ⟨write, hwrite, rfl⟩ := hx
  rw [encode_eq_encodeBy]
  unfold encodeBy
  congr 2
  funext f
  cases hv : a.value f with
  | none => rfl
  | some v =>
    obtain ⟨i, -, hform⟩ := h.mem_of_value f v hv
    simp only [(hwrite f v).eq_encode hform]

/-- The order of the wrappers of a list, and of the members of the sets in it, carries no meaning:
what was read from one input is read from a rearranged one in the same mode, and it is written in
one way only. -/
theorem decode_of_rearranged {rigor : Rigor} {input input' : Octets} {a : AuthorizationList}
    (h : Rearranged input input') (ha : decode rigor input = .ok a) :
    decode rigor input' = .ok a ∧ a.Writes a.encode ∧
      ∀ x y, a.Writes x → a.Writes y → x = y := by
  have hlenient := (decode_agrees input).lenient_of_ok (decode · input) ha
  obtain ⟨-, -, -, entries, -, -, hholds, -⟩ := decode_eq_ok_iff.mp hlenient
  refine ⟨decode_rearranged h ha, a.writes_encode, fun x y hx hy => ?_⟩
  exact (hx.eq_encode hholds).trans (hy.eq_encode hholds).symm

/-- The entries of `mixedEntries` in ascending order, with the numbers of the mask in descending
order. -/
def movedEntries : List Entry :=
  [⟨3, .integer 256⟩, ⟨504, .set [.integer 8, .integer 1]⟩, ⟨1000, .null⟩]

/-- The input that these entries make up. -/
def movedEntriesOctets : Octets :=
  [48, 24, 163, 4, 2, 2, 1, 0, 191, 131, 120, 8, 49, 6, 2, 1, 8, 2, 1, 1, 191, 135, 104, 2, 5, 0]

/-- The two samples are rearrangements of each other. -/
lemma rearranged_movedEntries : Rearranged mixedEntriesOctets movedEntriesOctets := by
  have hgrammar := grammar_mixedEntries
  have hmask : Kind.authenticators.Rearranged (.set [.integer 1, .integer 8])
      (.set [.integer 8, .integer 1]) := by
    refine .authenticators ?_ (List.Perm.swap ..)
    simp only [List.forall_mem_cons]
    refine ⟨⟨by decide +kernel, by decide +kernel⟩, ⟨by decide +kernel, by decide +kernel⟩, ?_⟩
    exact fun _ hmem => absurd hmem List.not_mem_nil
  refine ⟨mixedEntries, movedEntries.reverse, movedEntries, hgrammar.readable,
    hgrammar.readable_sequence, hgrammar.octets, ?_, List.reverse_perm _, by decide +kernel⟩
  have hcodes : Entry.Rearranged ⟨504, .set [.integer 1, .integer 8]⟩
      ⟨504, .set [.integer 8, .integer 1]⟩ := ⟨rfl, .inr ⟨.userAuthType, rfl, hmask⟩⟩
  exact .cons ⟨rfl, .inl rfl⟩ (.cons hcodes (.cons ⟨rfl, .inl rfl⟩ .nil))

/-- Both inputs are read as the same list. -/
theorem exists_decode_movedEntries :
    Rearranged mixedEntriesOctets movedEntriesOctets ∧
      ∃ a, decode .lenient mixedEntriesOctets = .ok a ∧
        decode .lenient movedEntriesOctets = .ok a ∧ a.Writes a.encode ∧
        ∀ x y, a.Writes x → a.Writes y → x = y := by
  obtain ⟨a, ha⟩ := exists_decode_of_grammar grammar_mixedEntries
  exact ⟨rearranged_movedEntries, a, ha, decode_of_rearranged rearranged_movedEntries ha⟩

end AuthorizationList

end AttestedKey
