import AttestedKey.Proofs.Authenticators
import AttestedKey.Proofs.Location
import AttestedKey.Proofs.OrderedSet

/-!
# Strict reading against lenient reading

Two runs of a reader over the same part of a region, one lenient and one strict, are kept side by
side.  `Agrees region good bad` relates their outcomes: as long as nothing unknown was met both give
the same value, which is `good`, or the same plain fault; once the strict run has refused something
unknown, the lenient run can only end in a value that is `bad`, because it has what was refused, or
in a plain fault.  Each step of the readers keeps this relation, and so does every loop.

So strict reading is lenient reading and the refusal of the unknown (`decode_refusesUnknown`), where
a refusal says nothing about a number that is too long to be shown; and both find their faults in
place (`Agrees.located`).
-/

namespace AttestedKey

open Der Outcome

/-! ### Refusals -/

/-- A fault refuses something unrecognised that stands in a region.  It is refused as such, unless
the text would have to show a number that is too long for that. -/
inductive Fault.IsRefusal (region : Cursor) (what : Unrecognised) : Fault → Prop
  /-- The fault says what is unrecognised, and at which place of the region. -/
  | unrecognised {o : ℕ} (ho : region.offset ≤ o ∧ o ≤ region.stop)
    (hshort : ∀ n ∈ what.shown?, Text.HasNumeral n) :
    IsRefusal region what (.unrecognised what (some o))
  /-- The fault says only that a number is too long, which is one that the region holds. -/
  | unprintable {n : ℤ} (hshown : n ∈ what.shown?) (hholds : region.HoldsNumber n)
    (hlong : ¬ Text.HasNumeral n) : IsRefusal region what .unprintable

/-- A fault is found in a region: at an offset between its two ends, or it is only that the region
holds a number which is too long to be shown. -/
def Fault.IsLocated (region : Cursor) (fault : Fault) : Prop :=
  fault.IsWithin region.offset region.stop ∨ fault.IsUnprintable region

/-- An outcome is a value or a fault that is found in a region. -/
abbrev Located (region : Cursor) {α : Type} (x : Except Fault α) : Prop :=
  Ends (Fault.IsLocated region) (fun _ => True) x

section

variable {region : Cursor} {fault : Fault}

/-- A plain fault is found in its region. -/
lemma Fault.IsPlain.isLocated (h : fault.IsPlain region) : fault.IsLocated region :=
  h.imp_left Fault.IsMalformed.isWithin

/-- A plain fault does not say that something is unrecognised. -/
lemma Fault.IsPlain.ne_unrecognised (h : fault.IsPlain region) (what : Unrecognised)
    (offset : Option ℤ) : fault ≠ .unrecognised what offset := by
  rintro rfl
  rcases h with ⟨cause, o, hcause, -⟩ | ⟨hlong, -⟩
  · cases hcause
  · cases hlong

/-- A refusal is found in its region. -/
lemma Fault.IsRefusal.isLocated {what : Unrecognised} (h : fault.IsRefusal region what) :
    fault.IsLocated region := by
  cases h with
  | unrecognised ho hshort => exact .inl ⟨_, rfl, ho⟩
  | unprintable hshown hholds hlong => exact .inr ⟨rfl, _, hholds, hlong⟩

/-- Something unrecognised whose text shows no number is refused at a place of the region. -/
lemma Fault.isRefusal_of_shown?_eq_none {what : Unrecognised} (hwhat : what.shown? = none) {o : ℕ}
    (ho : region.offset ≤ o ∧ o ≤ region.stop) :
    Fault.IsRefusal region what (.unrecognised what (some o)) := by
  refine .unrecognised ho fun n hn => ?_
  rw [hwhat] at hn
  cases hn

end

/-! ### Two runs side by side -/

/-- The outcomes of a lenient and of a strict run that have read the same. -/
inductive Agrees (region : Cursor) {α : Type} (good : α → Prop) (bad : α → Unrecognised → Prop) :
    Except Fault α → Except Fault α → Prop
  /-- Both runs end in the same value, without anything unknown. -/
  | accepted {a : α} (h : good a) : Agrees region good bad (.ok a) (.ok a)
  /-- The lenient run ends in a value with something unknown, which the strict run refuses. -/
  | refused {a : α} {what : Unrecognised} {refusal : Fault} (h : bad a what)
    (hrefusal : refusal.IsRefusal region what) : Agrees region good bad (.ok a) (.error refusal)
  /-- Both runs end in the same fault. -/
  | failed {fault : Fault} (h : fault.IsPlain region) :
    Agrees region good bad (.error fault) (.error fault)
  /-- The strict run stops before the lenient run ends in a fault. -/
  | stopped {fault refusal : Fault} {what : Unrecognised} (h : fault.IsPlain region)
    (hrefusal : refusal.IsRefusal region what) :
    Agrees region good bad (.error fault) (.error refusal)

namespace Agrees

variable {region : Cursor} {α β σ : Type} {good : α → Prop} {bad : α → Unrecognised → Prop}
  {good' : β → Prop} {bad' : β → Unrecognised → Prop}

/-- A step without modes. -/
lemma of_ends {x : Except Fault α} (h : Ends (Fault.IsPlain region) good x) :
    Agrees region good bad x x := by
  cases x with
  | ok a => exact .accepted h
  | error fault => exact .failed h

/-- A step that strict reading does not even begin. -/
lemma of_refusal {x : Except Fault α} {what : Unrecognised} {refusal : Fault}
    (h : Ends (Fault.IsPlain region) (bad · what) x) (hrefusal : refusal.IsRefusal region what) :
    Agrees region good bad x (.error refusal) := by
  cases x with
  | ok a => exact .refused h hrefusal
  | error fault => exact .stopped h hrefusal

/-- A lenient run ends in a value of one of the two kinds or in a plain fault. -/
lemma ends {x y : Except Fault α} (h : Agrees region good bad x y) :
    Ends (Fault.IsPlain region) (fun a => good a ∨ ∃ what, bad a what) x := by
  cases h with
  | accepted h => exact .inl h
  | refused h hrefusal => exact .inr ⟨_, h⟩
  | failed h => exact h
  | stopped h hrefusal => exact h

/-- A value that either run ends in is the one that the lenient run ends in. -/
lemma lenient_of_ok (run : Rigor → Except Fault α)
    (h : Agrees region good bad (run .lenient) (run .strict)) {rigor : Rigor} {a : α}
    (hrun : run rigor = .ok a) : run .lenient = .ok a := by
  cases rigor with
  | lenient => exact hrun
  | strict =>
    generalize run .lenient = x at h
    rw [hrun] at h
    cases h
    rfl

/-- Whatever is wrong for either run is found in the region. -/
lemma located (run : Rigor → Except Fault α)
    (h : Agrees region good bad (run .lenient) (run .strict)) (rigor : Rigor) :
    Located region (run rigor) := by
  cases rigor with
  | lenient => exact (h.ends.mono fun _ => Fault.IsPlain.isLocated).imp fun _ _ => trivial
  | strict =>
    generalize run .lenient = x at h
    cases hstrict : run .strict with
    | ok a => exact trivial
    | error fault =>
      -- The fault is that of the lenient run or a refusal, and both are located.
      rw [hstrict] at h
      cases h with
      | refused _ hrefusal => exact hrefusal.isLocated
      | failed hplain => exact hplain.isLocated
      | stopped _ hrefusal => exact hrefusal.isLocated

/-- Two chains agree if their first steps do, and if their rests do on good values, and if the
lenient rest keeps what is bad. -/
lemma bind {x y : Except Fault α} {f g : α → Except Fault β} (h : Agrees region good bad x y)
    (hgood : ∀ a, good a → Agrees region good' bad' (f a) (g a))
    (hbad : ∀ a what, bad a what → Ends (Fault.IsPlain region) (bad' · what) (f a)) :
    Agrees region good' bad' (x >>= f) (y >>= g) := by
  cases h with
  | accepted h => exact hgood _ h
  | refused h hrefusal => exact of_refusal (hbad _ _ h) hrefusal
  | failed h => exact .failed h
  | stopped h hrefusal => exact .stopped h hrefusal

/-- Two chains with the same first step, one without modes, agree if their rests do. -/
lemma bind_same {p : α → Prop} {x : Except Fault α} {f g : α → Except Fault β}
    (hx : Ends (Fault.IsPlain region) p x) (h : ∀ a, p a → Agrees region good' bad' (f a) (g a)) :
    Agrees region good' bad' (x >>= f) (x >>= g) := by
  have hsame : Agrees region p (fun _ _ => False) x x := of_ends hx
  exact hsame.bind h fun _ _ hfalse => hfalse.elim

/-- Both runs end in the same malformation of the region. -/
lemma malformed {o : ℕ} (ho : region.offset ≤ o ∧ o ≤ region.stop) (cause : Malformation) :
    Agrees region good bad (malformedAt o cause) (malformedAt o cause) :=
  of_ends (Ends.plainAt ho cause)

/-- Two loops agree if their rounds do, and if a lenient round keeps what is bad. -/
lemma foldlM {good : σ → Prop} {bad : σ → Unrecognised → Prop} {f g : σ → α → Except Fault σ}
    {l : List α} (hgood : ∀ s, good s → ∀ a ∈ l, Agrees region good bad (f s a) (g s a))
    (hbad : ∀ s what, bad s what → ∀ a ∈ l, Ends (Fault.IsPlain region) (bad · what) (f s a))
    {s : σ} (hs : good s) : Agrees region good bad (l.foldlM f s) (l.foldlM g s) := by
  induction l generalizing s with
  | nil => exact .accepted hs
  | cons a l ih =>
    rw [List.foldlM_cons, List.foldlM_cons]
    -- Once something unknown was met, only the lenient loop goes on, and it keeps what it has met.
    refine bind (hgood s hs a (List.mem_cons_self ..)) (fun t ht => ?_) fun t what ht => ?_
    · exact ih (fun t ht b hb => hgood t ht b (List.mem_cons_of_mem _ hb))
        (fun t what ht b hb => hbad t what ht b (List.mem_cons_of_mem _ hb)) ht
    · exact Ends.foldlM (fun t ht b hb => hbad t what ht b (List.mem_cons_of_mem _ hb)) ht

/-- Two loops over a part of the region agree if their rounds do. -/
lemma foldlM_walk {good : σ → Prop} {bad : σ → Unrecognised → Prop}
    {f g : σ → Element → Except Fault σ}
    (hgood : ∀ s, good s → ∀ e, e.PartOf region → Agrees region good bad (f s e) (g s e))
    (hbad : ∀ s what, bad s what → ∀ e, e.PartOf region →
      Ends (Fault.IsPlain region) (bad · what) (f s e))
    {c : Cursor} (hc : c.PartOf region) {s : σ} (hs : good s) :
    Agrees region good bad (c.walk.foldlM f s) (c.walk.foldlM g s) := by
  have helements := (Cursor.walk_ends hc).1
  unfold Walk.foldlM
  have hloop := foldlM (l := c.walk.elements) (fun s hs e he => hgood s hs e (helements e he))
    (fun s what hs e he => hbad s what hs e (helements e he)) hs
  exact hloop.bind (fun t ht => of_ends (Cursor.walk_end hc ht)) fun t what ht =>
    Cursor.walk_end hc ht

/-- Two readers at a cursor agree if their interpreters do. -/
lemma read {interpret interpret' : Element → Except Fault α} {c : Cursor} (hc : c.PartOf region)
    (h : ∀ e, e.PartOf region → Agrees region good bad (interpret e) (interpret' e)) :
    Agrees region (fun p => good p.1 ∧ p.2.PartOf region)
      (fun p what => bad p.1 what ∧ p.2.PartOf region) (c.read interpret) (c.read interpret') := by
  unfold Cursor.read
  refine bind_same (Cursor.parts_ends hc).plain fun read hread => ?_
  obtain ⟨e, rest⟩ := read
  exact bind (h e hread.1) (fun a ha => .accepted ⟨ha, hread.2⟩) fun a what ha => ⟨ha, hread.2⟩

/-- Two readers of the only element of a region agree if their interpreters do, and what comes after
them. -/
lemma read_last {interpret interpret' : Element → Except Fault α} {next next' : α → Except Fault β}
    {c : Cursor} (hc : c.PartOf region)
    (h : ∀ e, e.PartOf region → Agrees region good bad (interpret e) (interpret' e))
    (hgood : ∀ a, good a → Agrees region good' bad' (next a) (next' a))
    (hbad : ∀ a what, bad a what → Ends (Fault.IsPlain region) (bad' · what) (next a))
    (cause : Malformation) :
    Agrees region good' bad'
      (c.read interpret >>= fun p =>
        if p.2.atEnd then next p.1 else malformedAt p.2.offset cause)
      (c.read interpret' >>= fun p =>
        if p.2.atEnd then next' p.1 else malformedAt p.2.offset cause) := by
  refine (Agrees.read hc h).bind (fun p hp => ?_) fun p what hp => ?_
  · split
    · exact hgood p.1 hp.1
    · exact Agrees.malformed hp.2.offset_bounds _
  · split
    · exact hbad p.1 what hp.1
    · exact Ends.plainAt hp.2.offset_bounds _

end Agrees

/-! ### Values without anything unknown -/

/-- The verified boot state has a name. -/
def RootOfTrust.IsKnown (r : RootOfTrust) : Prop := r.verifiedBootState.isKnown = true

instance : DecidablePred RootOfTrust.IsKnown := fun r =>
  inferInstanceAs (Decidable (r.verifiedBootState.isKnown = true))

/-- Every number of a vocabulary in a value has a name. -/
def Kind.IsKnown : (k : Kind) → k.Value → Prop
  | .member _, s => s.isKnown = true
  | .members _, s => ∀ t ∈ s.toList, t.isKnown = true
  | .authenticators, s => ∀ t ∈ s.toList, t.isKnown = true
  | .rootOfTrust, r => r.IsKnown
  | _, _ => True

/-- Every tag of a list is a field, and every value is known. -/
def AuthorizationList.IsKnown (a : AuthorizationList) : Prop :=
  a.unknown = [] ∧ ∀ (f : Field) (v : f.Value), a.value f = some v → f.kind.IsKnown v

/-- Both security levels have a name, and both lists are known. -/
def KeyDescription.IsKnown (k : KeyDescription) : Prop :=
  (k.attestationSecurityLevel.isKnown = true ∧ k.keymasterSecurityLevel.isKnown = true) ∧
    k.softwareEnforced.IsKnown ∧ k.teeEnforced.IsKnown

/-! ### What is unknown in a value -/

/-- A slot has a number without a name, which is refused in these words. -/
def Slot.HasUnknown {v : Vocabulary} (s : Slot v) (refusal : ℤ → Unrecognised)
    (what : Unrecognised) : Prop :=
  ¬ s.isKnown = true ∧ what = refusal s.code

/-- The verified boot state is what is unknown. -/
def RootOfTrust.HasUnknown (r : RootOfTrust) (what : Unrecognised) : Prop :=
  r.verifiedBootState.HasUnknown (.code .verifiedBootState · stateField none) what

/-- A number of a vocabulary, or the bits of a mask, are what is unknown in a value of a field. -/
def Kind.HasUnknown : (k : Kind) → (f : Field) → k.Value → Unrecognised → Prop
  | .member v, f, s, what => s.HasUnknown (.code v · f.name (some f.tag)) what
  | .members v, f, s, what => ∃ t ∈ s.toList, t.HasUnknown (.code v · f.name (some f.tag)) what
  | .authenticators, f, s, what => ∃ m, s = Authenticators.ofMask m ∧
      Authenticators.hasUnknown m = true ∧
        what = .authenticatorBits m (Authenticators.leftover m) (some f.tag)
  | .rootOfTrust, _, r, what => r.HasUnknown what
  | _, _, _, _ => False

/-- A tag outside the table, or something in a value, is what is unknown in a list. -/
def AuthorizationList.HasUnknown (a : AuthorizationList) (what : Unrecognised) : Prop :=
  (∃ t ∈ a.unknown, what = .tag t.number) ∨
    ∃ (f : Field) (v : f.Value), a.value f = some v ∧ f.kind.HasUnknown f v what

/-- A security level, or something in one of the lists, is what is unknown in a record. -/
def KeyDescription.HasUnknown (k : KeyDescription) (what : Unrecognised) : Prop :=
  k.attestationSecurityLevel.HasUnknown
      (.securityLevel .securityLevel · attestationSecurityLevelField none) what ∨
    k.keymasterSecurityLevel.HasUnknown
      (.securityLevel .securityLevel · keymasterSecurityLevelField none) what ∨
    k.softwareEnforced.HasUnknown what ∨ k.teeEnforced.HasUnknown what

/-- A value with something unknown is not known. -/
lemma Kind.HasUnknown.not_isKnown {k : Kind} {f : Field} {v : k.Value} {what : Unrecognised}
    (h : k.HasUnknown f v what) : ¬ k.IsKnown v := by
  cases k with
  | member w => exact h.1
  | members w =>
    obtain ⟨t, ht, hunknown, -⟩ := h
    exact fun hall => hunknown (hall t ht)
  | authenticators =>
    obtain ⟨m, rfl, hm, -⟩ := h
    intro hall
    rw [(Authenticators.forall_isKnown_ofMask m).mp hall] at hm
    cases hm
  | rootOfTrust => exact h.1
  | _ => exact h.elim

/-- A list with something unknown is not known. -/
lemma AuthorizationList.HasUnknown.not_isKnown {a : AuthorizationList} {what : Unrecognised}
    (h : a.HasUnknown what) : ¬ a.IsKnown := by
  rintro ⟨hempty, hvalues⟩
  rcases h with ⟨t, ht, -⟩ | ⟨f, v, hv, hunknown⟩
  · rw [hempty] at ht
    cases ht
  · exact hunknown.not_isKnown (hvalues f v hv)

/-- A record with something unknown is not known. -/
lemma KeyDescription.HasUnknown.not_isKnown {k : KeyDescription} {what : Unrecognised}
    (h : k.HasUnknown what) : ¬ k.IsKnown := by
  rintro ⟨⟨hattestation, hkeymaster⟩, hsoftware, htee⟩
  rcases h with h | h | h | h
  · exact h.1 hattestation
  · exact h.1 hkeymaster
  · exact h.not_isKnown hsoftware
  · exact h.not_isKnown htee

/-! ### Values of a field -/

section

variable {region : Cursor}

/-- A number without a name is refused, and shown, by strict reading only. -/
lemma Slot.recognise_agrees {v : Vocabulary} (refusal : ℤ → Unrecognised) {code : ℤ} {o : ℕ}
    (hshown : (refusal code).shown? = some code) (hcode : region.HoldsNumber code)
    (ho : region.offset ≤ o ∧ o ≤ region.stop) :
    Agrees region (fun s : Slot v => s.isKnown = true) (fun s => s.HasUnknown refusal)
      (recognise v .lenient (refusal code) (some o) code)
      (recognise v .strict (refusal code) (some o) code) := by
  have hrefusal : Fault.IsRefusal region (refusal code) (.refusal (refusal code) (some o)) := by
    rw [Fault.refusal_of_shown?_eq_some hshown]
    unfold Fault.showing
    split
    next hshort =>
      refine .unrecognised ho fun n hn => ?_
      rw [hshown] at hn
      exact Option.some.inj hn ▸ hshort
    next hlong => exact .unprintable hshown hcode hlong
  have hslot := code_ofCode (v := v) code
  unfold recognise
  cases hsame : ofCode v code with
  | known member => exact .accepted rfl
  | raw n unlisted =>
    rw [hsame] at hslot
    obtain rfl : n = code := hslot
    exact .refused ⟨Bool.false_ne_true, rfl⟩ hrefusal

/-- A mask with bits without a name is refused by strict reading only. -/
lemma Authenticators.recognise_agrees (f : Field) {o : ℕ}
    (ho : region.offset ≤ o ∧ o ≤ region.stop) (m : ℤ) :
    Agrees region (Kind.IsKnown .authenticators) (Kind.HasUnknown .authenticators f)
      (recognise .lenient (some f.tag) (some o) m) (recognise .strict (some f.tag) (some o) m) := by
  rw [recognise_lenient]
  unfold recognise
  cases hm : hasUnknown m with
  | false => exact .accepted ((forall_isKnown_ofMask m).mpr hm)
  | true => exact .refused ⟨m, rfl, hm, rfl⟩ (Fault.isRefusal_of_shown?_eq_none rfl ho)

/-- Both runs read a root of trust alike, up to an unknown state. -/
lemma RootOfTrust.ofElement_agrees {e : Element} (he : e.PartOf region) :
    Agrees region IsKnown HasUnknown (ofElement .lenient e) (ofElement .strict e) := by
  unfold ofElement
  refine Agrees.bind_same (Element.ofType_inside_ends he _) fun c hc => ?_
  refine Agrees.bind_same (Cursor.read_ends hc fun e he => Element.toOctets_ends he)
    fun first hfirst => ?_
  obtain ⟨key, afterKey⟩ := first
  refine Agrees.bind_same (Cursor.read_ends hfirst.2 fun e he => Element.toBoolean_ends he)
    fun second hsecond => ?_
  obtain ⟨locked, afterLocked⟩ := second
  refine Agrees.bind_same (Cursor.read_ends hsecond.2 fun e he => Element.toEnumerated_ends he)
    fun third hthird => ?_
  obtain ⟨state, afterState⟩ := third
  obtain ⟨hstate, hafterState⟩ := hthird
  simp only
  split
  · exact .of_ends (Ends.plainNumberAt hstate hsecond.2.offset_bounds _)
  · refine Agrees.bind_same (readHash_ends hafterState) fun last hafter => ?_
    obtain ⟨hash, after⟩ := last
    simp only
    split
    · refine Agrees.bind (Slot.recognise_agrees (.code .verifiedBootState · stateField none) rfl
        hstate hsecond.2.offset_bounds) (fun s hs => .accepted hs) fun s what hs => hs
    · exact Agrees.malformed hafter.offset_bounds _

section Members

variable {v : Vocabulary} {f : Field} {s : OrderedSet (Slot v)}

/-- After a member is added, all members have a name if it has one and the others have. -/
lemma forall_isKnown_insert {a : Slot v} :
    (∀ t ∈ (s.insert a).toList, t.isKnown = true) ↔
      a.isKnown = true ∧ ∀ t ∈ s.toList, t.isKnown = true := by
  simp only [OrderedSet.mem_insert, forall_eq_or_imp]

/-- Both runs add a member alike, as long as all members have a name. -/
lemma addMember_agrees (hs : ∀ t ∈ s.toList, t.isKnown = true) {e : Element}
    (he : e.PartOf region) :
    Agrees region (Kind.IsKnown (.members v)) (Kind.HasUnknown (.members v) f)
      (addMember v .lenient f s e) (addMember v .strict f s e) := by
  unfold addMember
  refine Agrees.bind_same (Element.toUnsigned_ends he _ _) fun code hcode => ?_
  split
  · exact Agrees.malformed he.offset_bounds _
  · refine Agrees.bind (Slot.recognise_agrees (.code v · f.name (some f.tag)) rfl hcode
      he.offset_bounds) (fun a ha => .accepted ?_) fun a what ha => ?_
    · exact forall_isKnown_insert.mpr ⟨ha, hs⟩
    · exact ⟨a, OrderedSet.mem_insert.mpr (.inl rfl), ha⟩

/-- What is unknown among some members stays there when another one is added. -/
lemma addMember_ends {what : Unrecognised} (hs : Kind.HasUnknown (.members v) f s what)
    {e : Element} (he : e.PartOf region) :
    Ends (Fault.IsPlain region) (Kind.HasUnknown (.members v) f · what)
      (addMember v .lenient f s e) := by
  obtain ⟨t, ht, hunknown⟩ := hs
  unfold addMember
  refine (Element.toUnsigned_ends he _ _).bind fun code _ => ?_
  split
  · exact Ends.plainAt he.offset_bounds _
  · rw [Slot.recognise_lenient]
    exact ⟨t, OrderedSet.mem_insert.mpr (.inr ht), hunknown⟩

end Members

/-- A value without numbers of a vocabulary is known. -/
lemma Kind.agrees_of_plain {k : Kind} {f : Field} (h : ∀ v, k.IsKnown v) {p : k.Value → Prop}
    {x : Except Fault k.Value} (hx : Ends (Fault.IsPlain region) p x) :
    Agrees region k.IsKnown (k.HasUnknown f) x x :=
  .of_ends (hx.imp fun v _ => h v)

/-- Both runs read a value alike, up to what is unknown in it. -/
lemma Kind.ofElement_agrees (k : Kind) (f : Field) {e : Element} (he : e.PartOf region) :
    Agrees region k.IsKnown (k.HasUnknown f) (k.ofElement .lenient f e)
      (k.ofElement .strict f e) := by
  cases k with
  | integer maximum =>
    exact agrees_of_plain (k := .integer maximum) (fun _ => trivial)
      (Element.toUnsigned_ends he _ _)
  | member v =>
    refine Agrees.bind_same (Element.toUnsigned_ends he _ _) fun code hcode => ?_
    exact Slot.recognise_agrees (.code v · f.name (some f.tag)) rfl hcode he.offset_bounds
  | members v =>
    refine Agrees.bind_same (Element.ofType_inside_ends he _) fun c hc => ?_
    exact Agrees.foldlM_walk (fun s hs e he => addMember_agrees hs he)
      (fun s what hs e he => addMember_ends hs he) hc fun t ht => by cases ht
  | authenticators =>
    refine Agrees.bind_same (readMask_ends f he) fun m _ => ?_
    exact Authenticators.recognise_agrees f he.offset_bounds m
  | flag =>
    have hraised : Ends (Fault.IsPlain region) (fun _ => True)
        (Kind.flag.ofElement .lenient f e) := (Element.toNull_ends he).bind fun _ _ => trivial
    exact agrees_of_plain (k := .flag) (fun _ => trivial) hraised
  | octets =>
    exact agrees_of_plain (k := .octets) (fun _ => trivial) (Element.toOctets_ends he)
  | rootOfTrust => exact RootOfTrust.ofElement_agrees he
  | applicationId =>
    exact agrees_of_plain (k := .applicationId) (fun _ => trivial)
      ((Element.ofType_inside_ends he _).bind fun c hc => ApplicationId.ofRegion_ends hc)

/-! ### Wrappers -/

namespace AuthorizationList

/-- Both runs read what a wrapper holds alike if they read its element alike. -/
lemma sole_agrees {α : Type} {good : α → Prop} {bad : α → Unrecognised → Prop}
    {interpret interpret' : Element → Except Fault α}
    (h : ∀ e, e.PartOf region → Agrees region good bad (interpret e) (interpret' e)) {w : Element}
    (hw : w.PartOf region) (expected : String) :
    Agrees region good bad (sole w expected interpret) (sole w expected interpret') := by
  unfold sole
  exact Agrees.read_last hw.inside h (fun _ ha => .accepted ha) (fun _ _ ha => ha) _

/-- Both runs read what the wrapper of a field holds alike, up to what is unknown in it. -/
lemma soleField_agrees (f : Field) {w : Element} (hw : w.PartOf region) :
    Agrees region f.kind.IsKnown (f.kind.HasUnknown f)
      (sole w f.name (f.kind.ofElement .lenient f)) (sole w f.name (f.kind.ofElement .strict f)) :=
  sole_agrees (fun _ he => Kind.ofElement_agrees f.kind f he) hw f.name

/-- A tag outside the table is refused at its wrapper. -/
lemma isRefusal_tag {w : Element} (hw : w.PartOf region) :
    Fault.IsRefusal region (.tag w.tag.number) (.refusal (.tag w.tag.number) (some w.offset)) :=
  Fault.isRefusal_of_shown?_eq_none rfl hw.offset_bounds

/-- A list has something unknown, under one of some tags. -/
def HasUnknownAt (tags : List ℕ) (a : AuthorizationList) (what : Unrecognised) : Prop :=
  (∃ t ∈ a.unknown, what = .tag t.number ∧ t.number ∈ tags) ∨
    ∃ (f : Field) (v : f.Value), a.value f = some v ∧ f.kind.HasUnknown f v what ∧ f.tag ∈ tags

/-- More tags may be named. -/
lemma HasUnknownAt.mono {tags tags' : List ℕ} {a : AuthorizationList} {what : Unrecognised}
    (h : a.HasUnknownAt tags what) (hsub : tags ⊆ tags') : a.HasUnknownAt tags' what := by
  rcases h with ⟨t, ht, hwhat, hmem⟩ | ⟨f, v, hv, hunknown, hmem⟩
  · exact .inl ⟨t, ht, hwhat, hsub hmem⟩
  · exact .inr ⟨f, v, hv, hunknown, hsub hmem⟩

/-- It need not be said under which tag there is something unknown. -/
lemma HasUnknownAt.hasUnknown {tags : List ℕ} {a : AuthorizationList} {what : Unrecognised}
    (h : a.HasUnknownAt tags what) : a.HasUnknown what := by
  rcases h with ⟨t, ht, hwhat, -⟩ | ⟨f, v, hv, hunknown, -⟩
  · exact .inl ⟨t, ht, hwhat⟩
  · exact .inr ⟨f, v, hv, hunknown⟩

/-- Lenient reading keeps a tag outside the table, whatever the list was before. -/
lemma addUnknown_ends (a : AuthorizationList) {w : Element} (hw : w.PartOf region) :
    Ends (Fault.IsPlain region) (fun a' => ∃ content, a' = a.setUnknown ⟨w.tag.number, content⟩)
      (addUnknown .lenient a w) := by
  unfold addUnknown
  have hkept : ∀ e : Element, e.PartOf region →
      Agrees region (fun _ => True) (fun _ _ => False) (.ok e : Except Fault Element) (.ok e) :=
    fun e _ => .accepted trivial
  exact (sole_agrees hkept hw _).ends.bind fun e _ => ⟨w.content, rfl⟩

/-- Both runs read the wrapper of a field alike, up to what is unknown in its value. -/
lemma addField_agrees {a : AuthorizationList} (ha : a.IsKnown) (f : Field) {w : Element}
    (hw : w.PartOf region) :
    Agrees region IsKnown (fun a' => a'.HasUnknownAt [f.tag]) (addField .lenient a f w)
      (addField .strict a f w) := by
  unfold addField
  refine (soleField_agrees f hw).bind (fun v hv => ?_) fun v what hv => ?_
  · refine .accepted ⟨ha.1, fun g u hu => ?_⟩
    by_cases hg : g = f
    · subst hg
      rw [set, value_assign_self, Option.some.injEq] at hu
      rwa [← hu]
    · rw [set, value_assign_of_ne _ _ hg] at hu
      exact ha.2 g u hu
  · exact .inr ⟨f, v, value_assign_self .., hv, List.mem_singleton_self _⟩

/-- Both runs read a wrapper alike by its tag, up to what is unknown under it. -/
lemma addByTag_agrees {a : AuthorizationList} (ha : a.IsKnown) {w : Element}
    (hw : w.PartOf region) :
    Agrees region IsKnown (fun a' => a'.HasUnknownAt [w.tag.number]) (addByTag .lenient a w)
      (addByTag .strict a w) := by
  unfold addByTag
  cases hf : Field.ofTag? w.tag.number with
  | none =>
    refine Agrees.of_refusal ((addUnknown_ends a hw).imp ?_) (isRefusal_tag hw)
    rintro _ ⟨content, rfl⟩
    exact .inl ⟨_, UnknownTag.mem_place_self .., rfl, List.mem_singleton_self _⟩
  | some f =>
    rw [← Field.tag_of_ofTag? hf]
    exact addField_agrees ha f hw

/-- What is unknown stays in the list while wrappers with other tags are read. -/
lemma addByTag_ends {a : AuthorizationList} {tags : List ℕ} {what : Unrecognised}
    (ha : a.HasUnknownAt tags what) {w : Element} (hw : w.PartOf region)
    (hnew : w.tag.number ∉ tags) :
    Ends (Fault.IsPlain region) (fun a' => a'.HasUnknownAt tags what) (addByTag .lenient a w) := by
  unfold addByTag
  cases hf : Field.ofTag? w.tag.number with
  | none =>
    refine (addUnknown_ends a hw).imp ?_
    rintro _ ⟨content, rfl⟩
    rcases ha with ⟨t, ht, hwhat, hmem⟩ | hvalue
    · have hne : t.number ≠ w.tag.number := fun heq => hnew (heq ▸ hmem)
      exact .inl ⟨t, UnknownTag.mem_place_of_mem ht hne, hwhat, hmem⟩
    · exact .inr hvalue
  | some f =>
    refine (soleField_agrees f hw).ends.bind fun v _ => ?_
    rcases ha with htag | ⟨g, u, hu, hunknown, hmem⟩
    · exact .inl htag
    · have hne : g ≠ f := by
        rintro rfl
        exact hnew (Field.tag_of_ofTag? hf ▸ hmem)
      exact .inr ⟨g, u, by rwa [set, value_assign_of_ne _ _ hne], hunknown, hmem⟩

/-- Both runs make the same round of the loop, as long as the list is known. -/
lemma addWrapper_agrees {p : Progress} (hp : p.list.IsKnown) {w : Element} (hw : w.PartOf region) :
    Agrees region (fun p => p.list.IsKnown) (fun p => p.list.HasUnknownAt p.seen)
      (addWrapper .lenient p w) (addWrapper .strict p w) := by
  rw [addWrapper_eq, addWrapper_eq]
  split
  · exact Agrees.malformed hw.offset_bounds _
  split
  · exact Agrees.malformed hw.offset_bounds _
  · refine (addByTag_agrees hp hw).bind (fun a ha => .accepted ha) fun a what ha => ?_
    refine ha.mono fun n hn => ?_
    rw [List.mem_singleton.mp hn]
    exact List.mem_cons_self ..

/-- A round of the lenient loop keeps what is unknown. -/
lemma addWrapper_ends {p : Progress} {what : Unrecognised} (hp : p.list.HasUnknownAt p.seen what)
    {w : Element} (hw : w.PartOf region) :
    Ends (Fault.IsPlain region) (fun p => p.list.HasUnknownAt p.seen what)
      (addWrapper .lenient p w) := by
  rw [addWrapper_eq]
  split
  · exact Ends.plainAt hw.offset_bounds _
  split
  · exact Ends.plainAt hw.offset_bounds _
  next hnew =>
    have hnotMem := fun hmem => hnew (List.contains_iff_mem.mpr hmem)
    exact (addByTag_ends hp hw hnotMem).bind fun a ha => ha.mono (List.subset_cons_self ..)

/-- Both runs read a list alike, up to what is unknown in it. -/
lemma ofRegion_agrees {c : Cursor} (hc : c.PartOf region) :
    Agrees region IsKnown HasUnknown (ofRegion .lenient c) (ofRegion .strict c) := by
  unfold ofRegion
  have hstart : Progress.start.list.IsKnown := ⟨rfl, fun f v hv => by cases hv⟩
  refine (Agrees.foldlM_walk (fun p hp w hw => addWrapper_agrees hp hw)
    (fun p what hp w hw => addWrapper_ends hp hw) hc hstart).bind (fun p hp => .accepted hp) ?_
  exact fun p what hp => hp.hasUnknown

/-- Both runs read an input that holds one list alike, up to what is unknown in it. -/
lemma decode_agrees (input : Octets) :
    Agrees (.start input) IsKnown HasUnknown (decode .lenient input) (decode .strict input) := by
  have hsequence : ∀ e : Element, e.PartOf (.start input) →
      Agrees (.start input) (fun c => c.PartOf (.start input)) (fun _ _ => False) e.toSequence
        e.toSequence :=
    fun _ he => .of_ends (Element.ofType_inside_ends he _)
  unfold decode
  exact Agrees.read_last (Cursor.partOf_self rfl) hsequence (fun _ hc => ofRegion_agrees hc)
    (fun _ _ hfalse => hfalse.elim) _

end AuthorizationList

/-! ### Records and roots of trust -/

/-- Both runs read an input that holds one root of trust alike, up to an unknown state. -/
lemma RootOfTrust.decode_agrees (input : Octets) :
    Agrees (.start input) IsKnown HasUnknown (decode .lenient input) (decode .strict input) := by
  unfold decode
  exact Agrees.read_last (Cursor.partOf_self rfl) (fun _ he => ofElement_agrees he)
    (fun _ hr => .accepted hr) (fun _ _ hr => hr) _

namespace KeyDescription

/-- A version is read, or there is a plain fault. -/
lemma toVersion_ends (field : String) {e : Element} (he : e.PartOf region) :
    Ends (Fault.IsPlain region) (fun _ => True) (toVersion field e) :=
  (toNatural_ends he (Element.toInteger_ends he) field).imp fun _ _ => trivial

/-- Both runs read a security level alike, up to an unknown one. -/
lemma toSecurityLevel_agrees (field : String) {e : Element} (he : e.PartOf region) :
    Agrees region (fun s => s.isKnown = true)
      (fun s => s.HasUnknown (.securityLevel .securityLevel · field none))
      (toSecurityLevel .lenient field e) (toSecurityLevel .strict field e) := by
  refine Agrees.bind_same (toNatural_ends he (Element.toEnumerated_ends he) field)
    fun code hcode => ?_
  exact Slot.recognise_agrees (.securityLevel .securityLevel · field none) rfl hcode
    he.offset_bounds

/-- Whatever follows the numbers of a record, the record has these numbers. -/
lemma afterNumbers_ends (attestationVersion keymasterVersion : ℤ)
    (attestationLevel keymasterLevel : Slot .securityLevel)
    {challenge uniqueId software tee : Element} (hchallenge : challenge.PartOf region)
    (huniqueId : uniqueId.PartOf region) (hsoftware : software.PartOf region)
    (htee : tee.PartOf region) :
    Ends (Fault.IsPlain region)
      (fun k : KeyDescription => k.attestationSecurityLevel = attestationLevel ∧
        k.keymasterSecurityLevel = keymasterLevel) (do
      let challenge ← challenge.toOctets
      let uniqueId ← uniqueId.toOctets
      let software ← software.toSequence
      let tee ← tee.toSequence
      let software ← AuthorizationList.ofRegion .lenient software
      let tee ← AuthorizationList.ofRegion .lenient tee
      return ⟨attestationVersion, attestationLevel, keymasterVersion, keymasterLevel, challenge,
        uniqueId, software, tee⟩) := by
  refine (Element.toOctets_ends hchallenge).bind fun challenge _ => ?_
  refine (Element.toOctets_ends huniqueId).bind fun uniqueId _ => ?_
  refine (Element.ofType_inside_ends hsoftware _).bind fun software hsoftware => ?_
  refine (Element.ofType_inside_ends htee _).bind fun tee htee => ?_
  refine (AuthorizationList.ofRegion_agrees hsoftware).ends.bind fun software _ => ?_
  refine (AuthorizationList.ofRegion_agrees htee).ends.bind fun tee _ => ?_
  exact ⟨rfl, rfl⟩

/-- Both runs make the same record of its eight elements, up to what is unknown in it. -/
lemma ofElements_agrees {e₁ e₂ e₃ e₄ e₅ e₆ e₇ e₈ : Element}
    (h : ∀ e ∈ [e₁, e₂, e₃, e₄, e₅, e₆, e₇, e₈], e.PartOf region) :
    Agrees region IsKnown HasUnknown (ofElements .lenient e₁ e₂ e₃ e₄ e₅ e₆ e₇ e₈)
      (ofElements .strict e₁ e₂ e₃ e₄ e₅ e₆ e₇ e₈) := by
  simp only [List.forall_mem_cons] at h
  obtain ⟨h₁, h₂, h₃, h₄, h₅, h₆, h₇, h₈, -⟩ := h
  unfold ofElements
  -- As long as everything is known both runs go on side by side.  From the first part on that has
  -- something unknown only the lenient run is left, and it only has to keep this part.
  refine Agrees.bind_same (toVersion_ends _ h₁) fun attestationVersion _ => ?_
  refine (toSecurityLevel_agrees _ h₂).bind (fun attestationLevel hattestation => ?_)
    fun attestationLevel what hattestation => ?_
  · refine Agrees.bind_same (toVersion_ends _ h₃) fun keymasterVersion _ => ?_
    refine (toSecurityLevel_agrees _ h₄).bind (fun keymasterLevel hkeymaster => ?_)
      fun keymasterLevel what hkeymaster => ?_
    · refine Agrees.bind_same (Element.toOctets_ends h₅) fun challenge _ => ?_
      refine Agrees.bind_same (Element.toOctets_ends h₆) fun uniqueId _ => ?_
      refine Agrees.bind_same (Element.ofType_inside_ends h₇ _) fun c₇ hc₇ => ?_
      refine Agrees.bind_same (Element.ofType_inside_ends h₈ _) fun c₈ hc₈ => ?_
      refine (AuthorizationList.ofRegion_agrees hc₇).bind (fun software hsoftware => ?_)
        fun software what hsoftware => ?_
      · refine (AuthorizationList.ofRegion_agrees hc₈).bind (fun tee htee => ?_)
          fun tee what htee => ?_
        · exact .accepted ⟨⟨hattestation, hkeymaster⟩, hsoftware, htee⟩
        · exact .inr (.inr (.inr htee))
      · refine (AuthorizationList.ofRegion_agrees hc₈).ends.bind fun tee _ => ?_
        exact .inr (.inr (.inl hsoftware))
    · refine (afterNumbers_ends attestationVersion keymasterVersion attestationLevel keymasterLevel
        h₅ h₆ h₇ h₈).imp fun k hk => .inr (.inl ?_)
      rw [hk.2]
      exact hkeymaster
  · refine (toVersion_ends _ h₃).bind fun keymasterVersion _ => ?_
    refine (toSecurityLevel_agrees _ h₄).ends.bind fun keymasterLevel _ => ?_
    refine (afterNumbers_ends attestationVersion keymasterVersion attestationLevel keymasterLevel
      h₅ h₆ h₇ h₈).imp fun k hk => .inl ?_
    rw [hk.1]
    exact hattestation

/-- Both runs read an input that holds one record alike, up to what is unknown in it. -/
lemma decode_agrees (input : Octets) :
    Agrees (.start input) IsKnown HasUnknown (decode .lenient input) (decode .strict input) := by
  unfold decode
  have hsequence : ∀ e : Element, e.PartOf (.start input) → Ends (Fault.IsPlain (.start input))
      (fun e' => e'.PartOf (.start input)) (e.ofType .sequence) :=
    fun e he => (Element.ofType_ends he _).plain.imp fun e' hsame => hsame ▸ he
  refine Agrees.bind_same (Cursor.read_ends (Cursor.partOf_self rfl) hsequence) fun read hread => ?_
  obtain ⟨sequence, after⟩ := read
  simp only
  split
  · refine Agrees.bind_same (Walk.complete_ends hread.1.inside) fun elements helements => ?_
    split
    · exact ofElements_agrees helements
    · exact Agrees.malformed hread.1.offset_bounds _
  · exact Agrees.malformed hread.2.offset_bounds _

end KeyDescription

end

/-! ### The two modes -/

/-- Strict reading of a region is lenient reading and the refusal of the unknown: the lenient run
refuses nothing as unrecognised; where it ends in a fault the strict run ends in the same one, or
refuses something in the region before it; and where it ends in a value the strict run ends in the
same one if it is known, and otherwise refuses something that is unknown in it.  A refusal is one as
unrecognised, unless it would have to show a number that is too long. -/
structure RefusesUnknown {α : Type} (region : Cursor) (isKnown : α → Prop)
    (hasUnknown : α → Unrecognised → Prop) (lenient strict : Except Fault α) : Prop where
  /-- Lenient reading refuses nothing as unrecognised. -/
  lenient_ne : ∀ what offset, lenient ≠ .error (.unrecognised what offset)
  /-- Strict reading finds the same faults. -/
  strict_of_error : ∀ fault, lenient = .error fault → strict = .error fault ∨
    ∃ what refusal, refusal.IsRefusal region what ∧ strict = .error refusal
  /-- Strict reading accepts the values without anything unknown. -/
  strict_of_known : ∀ a, lenient = .ok a → isKnown a → strict = .ok a
  /-- Strict reading refuses the others for something unknown in them. -/
  strict_of_unknown : ∀ a, lenient = .ok a → ¬ isKnown a → ∃ what refusal, hasUnknown a what ∧
    refusal.IsRefusal region what ∧ strict = .error refusal

/-- Two runs that agree are a lenient and a strict one. -/
lemma Agrees.refusesUnknown {region : Cursor} {α : Type} {isKnown : α → Prop}
    {hasUnknown : α → Unrecognised → Prop} (hnot : ∀ a what, hasUnknown a what → ¬ isKnown a)
    {x y : Except Fault α} (h : Agrees region isKnown hasUnknown x y) :
    RefusesUnknown region isKnown hasUnknown x y := by
  cases h with
  | accepted hknown =>
    refine ⟨fun _ _ h => (by cases h), fun _ h => (by cases h), fun a h _ => h, fun a h hno => ?_⟩
    obtain rfl := Except.ok.inj h
    exact absurd hknown hno
  | refused hunknown hrefusal =>
    refine ⟨fun _ _ h => (by cases h), fun _ h => (by cases h), fun a h hknown => ?_,
      fun a h _ => ?_⟩
    · obtain rfl := Except.ok.inj h
      exact absurd hknown (hnot _ _ hunknown)
    · obtain rfl := Except.ok.inj h
      exact ⟨_, _, hunknown, hrefusal, rfl⟩
  | failed hplain =>
    refine ⟨fun what o h => ?_, fun _ h => .inl h, fun _ h => (by cases h), fun _ h => (by cases h)⟩
    exact hplain.ne_unrecognised what o (Except.error.inj h)
  | stopped hplain hrefusal =>
    refine ⟨fun what o h => ?_, fun _ _ => .inr ⟨_, _, hrefusal, rfl⟩, fun _ h => (by cases h),
      fun _ h => (by cases h)⟩
    exact hplain.ne_unrecognised what o (Except.error.inj h)

/-- Records, authorization lists and roots of trust are read strictly as they are read leniently,
but for the refusal of the unknown. -/
theorem decode_refusesUnknown (input : Octets) :
    RefusesUnknown (.start input) KeyDescription.IsKnown KeyDescription.HasUnknown
        (KeyDescription.decode .lenient input) (KeyDescription.decode .strict input) ∧
      RefusesUnknown (.start input) AuthorizationList.IsKnown AuthorizationList.HasUnknown
        (AuthorizationList.decode .lenient input) (AuthorizationList.decode .strict input) ∧
      RefusesUnknown (.start input) RootOfTrust.IsKnown RootOfTrust.HasUnknown
        (RootOfTrust.decode .lenient input) (RootOfTrust.decode .strict input) := by
  refine ⟨?_, ?_, ?_⟩
  · exact (KeyDescription.decode_agrees input).refusesUnknown fun _ _ h => h.not_isKnown
  · exact (AuthorizationList.decode_agrees input).refusesUnknown fun _ _ h => h.not_isKnown
  · exact (RootOfTrust.decode_agrees input).refusesUnknown fun _ _ h => h.1

namespace RootOfTrust

/-- A root of trust whose verified boot state has more than 4300 digits. -/
def longState : RootOfTrust := ⟨[107], true, .ofCode _ (256 ^ 1999), none⟩

/-- Its one canonical form. -/
def longStateOctets : Octets :=
  [48, 130, 7, 218, 4, 1, 107, 1, 1, 255, 10, 130, 7, 208, 1] ++ List.replicate 1999 0

/-- A state that is too long to be shown is read leniently, and strict reading refuses it, but not
as unrecognised. -/
theorem decode_longState :
    decode .lenient longStateOctets = .ok longState ∧ ¬ longState.IsKnown ∧
      decode .strict longStateOctets = .error .unprintable := by
  decide +kernel

end RootOfTrust

end AttestedKey
