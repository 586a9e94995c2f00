import AttestedKey.Proofs.Argument
import AttestedKey.Proofs.AuthorizationList.RoundTrip
import Mathlib.Data.List.AList

/-!
# A builder as two dictionaries

`Staging` is a builder taken apart: a dictionary of values by field and one of contents by tag.
Each `Operation` on it checks what it is given and then changes one of the two; it runs in a state
that outlives a refusal (`Staging.Step`), so that a refused operation could well leave something
behind.  `Staging.build` hands both dictionaries to `AuthorizationList.make`, which checks
everything once more.

An operation either is refused and leaves everything as it was, or performs one `Write` that does
not depend on the state (`Operation.outcome_eq`).  So the dictionaries hold for each key what the
last accepted operation on it has written (`Staging.lookup_values_run`,
`Staging.lookup_contents_run`).  What was accepted once is normal and is accepted again, so building
never fails (`Staging.build_eq`), and gives the list that a `Builder` holds after the same
operations (`Staging.toBuilder_run`).
-/

namespace AttestedKey

open Outcome

/-- A value that was accepted is written: a lowered flag is no value. -/
lemma Kind.isWritten_of_check {k : Kind} {name : String} {a : Argument} {v : k.Value}
    (h : k.check name a = .ok (some v)) : k.isWritten v = true := by
  cases k with
  | flag =>
    obtain ⟨value, -, h⟩ := bind_eq_ok_iff.mp h
    cases value with
    | true =>
      obtain rfl := Option.some.inj (Except.ok.inj h)
      rfl
    | false => cases h
  | _ => rfl

namespace UnknownTag

/-- A tag is its number and its content. -/
lemma eq_of_parts {t u : UnknownTag} (hnumber : t.number = u.number)
    (hcontent : t.content = u.content) : t = u := by
  cases t
  cases u
  exact congrArg₂ UnknownTag.mk hnumber hcontent

/-- A tag is made of its number and its content and of nothing else, if it is normal and its number
is not taken. -/
theorem make_eq_ok_iff {others : List UnknownTag} {number content : Argument} {t : UnknownTag} :
    make others number content = .ok t ↔
      t.IsNormal ∧ number = .integer t.number ∧ content = .octets t.content ∧
        ∀ u ∈ others, u.number ≠ t.number := by
  constructor
  · intro h
    refine ⟨isNormal_of_make h, ?_⟩
    unfold make at h
    obtain ⟨n, hn, hrange⟩ := bind_eq_ok_iff.mp h
    obtain ⟨m, hm, hrest⟩ := bind_eq_ok_iff.mp hrange
    obtain ⟨hnonneg, -, rfl⟩ := acceptRange_eq_ok_iff.mp hm
    simp only at hrest
    split at hrest
    · cases hrest
    · split at hrest
      · cases hrest
      next hnew =>
        obtain ⟨octets, hoctets, hcontent⟩ := bind_eq_ok_iff.mp hrest
        obtain ⟨u, -, hmade⟩ := bind_eq_ok_iff.mp hcontent
        obtain rfl : _ = t := Except.ok.inj hmade
        refine ⟨?_, ?_, by simpa using hnew⟩
        · rw [Argument.toInteger_eq_ok_iff.mp hn, Int.toNat_of_nonneg hnonneg]
        · exact Argument.toOctets_eq_ok_iff.mp hoctets
  · rintro ⟨hnormal, rfl, rfl, hnew⟩
    exact make_arguments hnormal hnew

/-! ### Tags placed one after another -/

/-- The tags with some more tags, each at its place. -/
def placeAll (done tags : List UnknownTag) : List UnknownTag :=
  tags.foldl (fun done t => t.place done) done

/-- Placing tags one after another keeps them in order. -/
lemma ascending_placeAll {done : List UnknownTag} (h : Ascending done) (tags : List UnknownTag) :
    Ascending (placeAll done tags) := by
  induction tags generalizing done with
  | nil => exact h
  | cons t tags ih => exact ih (ascending_place t h)

/-- Tags with different numbers are all among the placed ones. -/
lemma mem_placeAll {done tags : List UnknownTag} (h : Ascending done)
    (hnodup : (tags.map UnknownTag.number).Nodup)
    (hnew : ∀ t ∈ tags, ∀ u ∈ done, u.number ≠ t.number) {u : UnknownTag} :
    u ∈ placeAll done tags ↔ u ∈ tags ∨ u ∈ done := by
  induction tags generalizing done with
  | nil => simp [placeAll]
  | cons t tags ih =>
    obtain ⟨hfresh, hnodup⟩ := List.nodup_cons.mp hnodup
    obtain ⟨ht, hnew⟩ := List.forall_mem_cons.mp hnew
    have hnew' : ∀ t' ∈ tags, ∀ v ∈ t.place done, v.number ≠ t'.number := by
      intro t' ht' v hv heq
      rcases (mem_place h).mp hv with rfl | ⟨hv, -⟩
      · exact hfresh (heq ▸ List.mem_map_of_mem ht')
      · exact hnew t' ht' v hv heq
    have hstep := ih (ascending_place t h) hnodup hnew'
    rw [placeAll, List.foldl_cons, ← placeAll, hstep, mem_place h, List.mem_cons]
    constructor
    · rintro (hu | rfl | ⟨hu, -⟩)
      · exact .inl (.inr hu)
      · exact .inl (.inl rfl)
      · exact .inr hu
    · rintro ((rfl | hu) | hu)
      · exact .inr (.inl rfl)
      · exact .inl hu
      · exact .inr (.inr ⟨hu, ht u hu⟩)

/-- Normal tags with different numbers are made of their arguments, in any order. -/
lemma foldlM_addItem_of_nodup {done tags : List UnknownTag} (h : Ascending done)
    (hnormal : ∀ t ∈ tags, t.IsNormal) (hnodup : (tags.map UnknownTag.number).Nodup)
    (hnew : ∀ t ∈ tags, ∀ u ∈ done, u.number ≠ t.number) :
    (tags.map argument).foldlM addItem done = .ok (placeAll done tags) := by
  induction tags generalizing done with
  | nil => rfl
  | cons t tags ih =>
    obtain ⟨ht, hnormal⟩ := List.forall_mem_cons.mp hnormal
    obtain ⟨hfresh, hnodup⟩ := List.nodup_cons.mp hnodup
    obtain ⟨hother, hnew⟩ := List.forall_mem_cons.mp hnew
    have hadd : addItem done t.argument = .ok (t.place done) := by
      change (make done (.integer t.number) (.octets t.content) >>= fun t => .ok (t.place done)) = _
      rw [make_arguments ht hother, ok_bind]
    rw [List.map_cons, List.foldlM_cons, hadd, ok_bind]
    refine ih (ascending_place t h) hnormal hnodup fun t' ht' v hv heq => ?_
    rcases (mem_place h).mp hv with rfl | ⟨hv, -⟩
    · exact hfresh (heq ▸ List.mem_map_of_mem ht')
    · exact hnew t' ht' v hv heq

end UnknownTag

namespace AuthorizationList

/-! ### The two dictionaries -/

/-- The values and the contents that a builder was given. -/
structure Staging where
  /-- The values by field. -/
  values : AList Field.Value
  /-- The contents of the tags outside the table, by number. -/
  contents : AList fun _ : ℕ => Octets

namespace Staging

/-- Nothing was given yet. -/
def empty : Staging := ⟨∅, ∅⟩

/-- A step that may be refused, with the state that it leaves behind in either case. -/
abbrev Step (α : Type) := ExceptT Refusal (StateM Staging) α

/-- Gives a field the value of an argument.  No value takes the entry of the field away, and so
does a lowered flag. -/
def give (f : Field) : Argument → Step Unit
  | .absent => modify fun s => { s with values := s.values.erase f }
  | argument => do
    match ← f.kind.check f.name argument with
    | some v => modify fun s => { s with values := s.values.insert f v }
    | none => modify fun s => { s with values := s.values.erase f }

/-- Gives the field of a given name the value of an argument. -/
def assign (name : String) (argument : Argument) : Step Unit := do
  let f ← Builder.field name
  give f argument

/-- Calls the setter of a given name. -/
def call (name : String) (argument : Argument) : Step Unit := do
  match ← Builder.setter name with
  | .field f => give f argument
  | .unknown => throw .mismatch

/-- Gives a tag outside the table its content. -/
def setUnknown (number content : Argument) : Step Unit := do
  let t ← UnknownTag.make [] number content
  modify fun s => { s with contents := s.contents.insert t.number t.content }

/-- The field of a given name and its value. -/
def get (s : Staging) (name : String) : Except Refusal (Σ f : Field, Option f.Value) :=
  match Field.ofName? name with
  | some f => .ok ⟨f, s.values.lookup f⟩
  | none => .error (.noAttribute name)

/-- The tags of the dictionary of contents. -/
def tags (s : Staging) : List UnknownTag := s.contents.entries.map fun e => ⟨e.1, e.2⟩

/-- The arguments that both dictionaries make up. -/
def arguments (s : Staging) : Arguments :=
  (unknownName, .list (s.tags.map UnknownTag.argument)) ::
    s.values.entries.map fun e => (e.1.name, e.1.kind.argument e.2)

/-- The list that is made of both dictionaries. -/
def build (s : Staging) : Except Refusal AuthorizationList := make s.arguments

end Staging

/-! ### Operations -/

/-- A use of a builder that may change it. -/
inductive Operation
  /-- An attribute is given a value. -/
  | assign (name : String) (argument : Argument)
  /-- A field is given a value by its name. -/
  | set (name : String) (argument : Argument)
  /-- The setter of a field is called. -/
  | call (name : String) (argument : Argument)
  /-- A tag outside the table is given its content. -/
  | setUnknown (number content : Argument)

/-- What an accepted operation writes. -/
inductive Write
  /-- A value of a field, or none to take it away. -/
  | value (f : Field) (v : Option f.Value)
  /-- The content of a tag outside the table. -/
  | content (t : UnknownTag)

namespace Operation

/-- Performs an operation on the dictionaries. -/
def perform : Operation → Staging.Step Unit
  | .assign name argument | .set name argument => Staging.assign name argument
  | .call name argument => Staging.call name argument
  | .setUnknown number content => Staging.setUnknown number content

/-- The outcome of an operation and the dictionaries after it. -/
def outcome (o : Operation) (s : Staging) : Except Refusal Unit × Staging := o.perform.run.run s

/-- The field that an operation is about. -/
def field? : Operation → Option Field
  | .assign name _ | .set name _ | .call name _ => Field.ofName? name
  | .setUnknown _ _ => none

/-- The tag that an operation is about. -/
def number? : Operation → Option ℕ
  | .setUnknown (.integer n) _ => some n.toNat
  | _ => none

end Operation

/-- The write that gives a field the value of an argument. -/
def Write.ofArgument (f : Field) (argument : Argument) : Except Refusal Write := do
  let v ← Builder.valueOf f argument
  return .value f v

/-- What an operation writes, or why it is refused. -/
def Operation.write : Operation → Except Refusal Write
  | .assign name argument | .set name argument => do
    let f ← Builder.field name
    Write.ofArgument f argument
  | .call name argument => do
    match ← Builder.setter name with
    | .field f => Write.ofArgument f argument
    | .unknown => throw .mismatch
  | .setUnknown number content => do
    let t ← UnknownTag.make [] number content
    return .content t

namespace Write

/-- The value that a write gives to a field. -/
def value? (f : Field) : Write → Option (Option f.Value)
  | .value g v => if h : g = f then some (h ▸ v) else none
  | .content _ => none

/-- The content that a write gives to a tag. -/
def content? (number : ℕ) : Write → Option Octets
  | .value _ _ => none
  | .content t => if t.number = number then some t.content else none

/-- A write of a field is about this field. -/
@[simp] lemma value?_value_self (f : Field) (v : Option f.Value) :
    (Write.value f v).value? f = some v := dif_pos rfl

/-- A write of a field is about no other field. -/
@[simp] lemma value?_value_of_ne {f g : Field} (h : g ≠ f) (v : Option g.Value) :
    (Write.value g v).value? f = none := dif_neg h

/-- A write of a tag is about this tag. -/
@[simp] lemma content?_content_self (t : UnknownTag) :
    (Write.content t).content? t.number = some t.content := if_pos rfl

/-- A write of a tag is about no other tag. -/
@[simp] lemma content?_content_of_ne {t : UnknownTag} {number : ℕ} (h : t.number ≠ number) :
    (Write.content t).content? number = none := if_neg h

end Write

namespace Staging

/-- Both dictionaries after a write. -/
def write (s : Staging) : Write → Staging
  | .value f (some v) => { s with values := s.values.insert f v }
  | .value f none => { s with values := s.values.erase f }
  | .content t => { s with contents := s.contents.insert t.number t.content }

/-- The outcome of an operation and what it leaves behind: all as it was, if it is refused. -/
def after (s : Staging) : Except Refusal Write → Except Refusal Unit × Staging
  | .ok w => (.ok (), s.write w)
  | .error refusal => (.error refusal, s)

/-! ### One operation -/

/-- A check that does not look at the dictionaries comes first, and a step after it. -/
lemma run_bind {α : Type} (s : Staging) (check : Except Refusal α) {step : α → Step Unit}
    {write : α → Except Refusal Write} (h : ∀ a, (step a).run.run s = s.after (write a)) :
    (liftM check >>= step).run.run s = s.after (check >>= write) := by
  cases check with
  | error refusal => rfl
  | ok a => exact h a

/-- Giving a field an argument is one write, or an objection that changes nothing. -/
lemma run_give (s : Staging) (f : Field) (argument : Argument) :
    (give f argument).run.run s = s.after (Write.ofArgument f argument) := by
  cases argument with
  | absent => rfl
  | _ =>
    refine run_bind s _ fun v => ?_
    cases v <;> rfl

end Staging

/-- An operation performs its write, or is refused and leaves everything as it was. -/
theorem Operation.outcome_eq (o : Operation) (s : Staging) : o.outcome s = s.after o.write := by
  cases o with
  | assign name argument => exact s.run_bind _ fun f => s.run_give f argument
  | set name argument => exact s.run_bind _ fun f => s.run_give f argument
  | call name argument =>
    refine s.run_bind _ fun setter => ?_
    cases setter with
    | field f => exact s.run_give f argument
    | unknown => rfl
  | setUnknown number content => exact s.run_bind _ fun t => rfl

/-- An operation that is accepted gives a value to the field that it is about, or a content to a tag
outside the table. -/
lemma Operation.write_cases {o : Operation} {w : Write} (h : o.write = .ok w) :
    (∃ f argument, o.field? = some f ∧ Write.ofArgument f argument = .ok w) ∨
      ∃ t number content, o = .setUnknown number content ∧
        UnknownTag.make [] number content = .ok t ∧ w = .content t := by
  cases o with
  | assign name argument =>
    obtain ⟨f, hf, hw⟩ := bind_eq_ok_iff.mp h
    exact .inl ⟨f, argument, Builder.ofName?_of_field hf, hw⟩
  | set name argument =>
    obtain ⟨f, hf, hw⟩ := bind_eq_ok_iff.mp h
    exact .inl ⟨f, argument, Builder.ofName?_of_field hf, hw⟩
  | call name argument =>
    obtain ⟨setter, hsetter, hw⟩ := bind_eq_ok_iff.mp h
    cases setter with
    | field f => exact .inl ⟨f, argument, Builder.ofName?_of_setter hsetter, hw⟩
    | unknown => cases hw
  | setUnknown number content =>
    obtain ⟨t, ht, hw⟩ := bind_eq_ok_iff.mp h
    exact .inr ⟨t, number, content, rfl, ht, (Except.ok.inj hw).symm⟩

/-- A field or a tag that an operation is not about is not written by it. -/
lemma Operation.write_about {o : Operation} {w : Write} (h : o.write = .ok w) :
    (∀ f, o.field? ≠ some f → w.value? f = none) ∧
      ∀ number, o.number? ≠ some number → w.content? number = none := by
  rcases Operation.write_cases h with
    ⟨g, argument, hg, hw⟩ | ⟨t, number, content, rfl, ht, rfl⟩
  · obtain ⟨v, -, hw⟩ := bind_eq_ok_iff.mp hw
    obtain rfl := Except.ok.inj hw
    refine ⟨fun f hf => Write.value?_value_of_ne (fun hgf => hf ?_) v, fun _ _ => rfl⟩
    rw [hg, hgf]
  · refine ⟨fun _ _ => rfl, fun n hn => Write.content?_content_of_ne fun heq => hn ?_⟩
    rw [← heq, (UnknownTag.make_eq_ok_iff.mp ht).2.1]
    rfl

namespace Staging

/-- After a write, a field has the value that was written, or the one that it had. -/
lemma lookup_values_write (s : Staging) (w : Write) (f : Field) :
    (s.write w).values.lookup f = (w.value? f).getD (s.values.lookup f) := by
  cases w with
  | content t => rfl
  | value g v =>
    by_cases hfield : g = f
    · subst hfield
      rw [Write.value?_value_self, Option.getD_some]
      cases v with
      | some v => exact AList.lookup_insert s.values
      | none => exact AList.lookup_erase g s.values
    · rw [Write.value?_value_of_ne hfield, Option.getD_none]
      cases v with
      | some v => exact AList.lookup_insert_ne (Ne.symm hfield)
      | none => exact AList.lookup_erase_ne (Ne.symm hfield)

/-- After a write, a tag has the content that was written, or the one that it had. -/
lemma lookup_contents_write (s : Staging) (w : Write) (number : ℕ) :
    (s.write w).contents.lookup number = (w.content? number).or (s.contents.lookup number) := by
  cases w with
  | value g v => cases v <;> rfl
  | content t =>
    by_cases hnumber : t.number = number
    · subst hnumber
      rw [Write.content?_content_self, Option.some_or]
      exact AList.lookup_insert s.contents
    · rw [Write.content?_content_of_ne hnumber, Option.none_or]
      exact AList.lookup_insert_ne (Ne.symm hnumber)

end Staging

/-! ### What may be written -/

/-- A write of something that is accepted again. -/
def Write.Sound : Write → Prop
  | .value f v => ∀ x ∈ v, f.kind.IsNormal x ∧ f.kind.isWritten x = true
  | .content t => t.IsNormal

/-- A value that was accepted is normal and is written. -/
lemma Write.sound_of_ofArgument {f : Field} {argument : Argument} {w : Write}
    (h : Write.ofArgument f argument = .ok w) : w.Sound := by
  obtain ⟨v, hv, h⟩ := bind_eq_ok_iff.mp h
  obtain rfl := Except.ok.inj h
  intro x hx
  obtain rfl := Option.mem_def.mp hx
  have hcheck : f.kind.check f.name argument = .ok (some x) := by
    unfold Builder.valueOf at hv
    split at hv
    · cases hv
    · exact hv
  exact ⟨Kind.isNormal_of_check hcheck, Kind.isWritten_of_check hcheck⟩

/-- Whatever an operation writes would be accepted again. -/
lemma Operation.sound_of_write {o : Operation} {w : Write} (h : o.write = .ok w) : w.Sound := by
  rcases Operation.write_cases h with ⟨f, argument, -, hw⟩ | ⟨t, number, content, -, ht, rfl⟩
  · exact Write.sound_of_ofArgument hw
  · exact UnknownTag.isNormal_of_make ht

namespace Staging

/-- Both dictionaries hold only what is accepted again. -/
structure Sound (s : Staging) : Prop where
  /-- Each value is normal and is written. -/
  value : ∀ (f : Field) (v : f.Value), s.values.lookup f = some v →
    f.kind.IsNormal v ∧ f.kind.isWritten v = true
  /-- Each content is one element, of a tag that is not in the table. -/
  content : ∀ t : UnknownTag, s.contents.lookup t.number = some t.content → t.IsNormal

/-- Nothing is staged at first. -/
lemma sound_empty : empty.Sound where
  value := fun _ _ h => by cases h
  content := fun _ h => by cases h

/-- One write keeps the dictionaries sound. -/
lemma Sound.write {s : Staging} (h : s.Sound) {w : Write} (hw : w.Sound) : (s.write w).Sound := by
  refine ⟨fun f v hv => ?_, fun t ht => ?_⟩
  · rw [lookup_values_write] at hv
    cases w with
    | content t => exact h.value f v hv
    | value g x =>
      by_cases hfield : g = f
      · subst hfield
        rw [Write.value?_value_self, Option.getD_some] at hv
        exact hw v hv
      · rw [Write.value?_value_of_ne hfield, Option.getD_none] at hv
        exact h.value f v hv
  · rw [lookup_contents_write] at ht
    cases w with
    | value g x => exact h.content t ht
    | content u =>
      by_cases hnumber : u.number = t.number
      · have hcontent : u.content = t.content := by
          rw [← hnumber, Write.content?_content_self] at ht
          exact Option.some.inj ht
        obtain rfl := UnknownTag.eq_of_parts hnumber hcontent
        exact hw
      · rw [Write.content?_content_of_ne hnumber, Option.none_or] at ht
        exact h.content t ht

/-! ### Building -/

/-- The list that both dictionaries describe. -/
def draft (s : Staging) : AuthorizationList :=
  ⟨fun f => s.values.lookup f, UnknownTag.placeAll [] s.tags⟩

/-- The tags of a staging are those that are looked up in it. -/
lemma mem_tags {s : Staging} {t : UnknownTag} :
    t ∈ s.tags ↔ s.contents.lookup t.number = some t.content := by
  have hentry : s.contents.lookup t.number = some t.content ↔
      (⟨t.number, t.content⟩ : Σ _ : ℕ, Octets) ∈ s.contents.entries := AList.mem_lookup_iff
  rw [hentry]
  constructor
  · intro ht
    obtain ⟨e, he, rfl⟩ := List.mem_map.mp ht
    exact he
  · intro he
    exact List.mem_map.mpr ⟨_, he, rfl⟩

/-- No tag is staged twice. -/
lemma nodup_tags (s : Staging) : (s.tags.map UnknownTag.number).Nodup := by
  have hkeys : s.tags.map UnknownTag.number = s.contents.keys := List.map_map
  rw [hkeys]
  exact s.contents.keys_nodup

/-- The tags of a draft are in order. -/
lemma ascending_draft (s : Staging) : UnknownTag.Ascending s.draft.unknown :=
  UnknownTag.ascending_placeAll .nil s.tags

/-- A tag of a draft is one that is staged. -/
lemma mem_unknown_draft {s : Staging} {t : UnknownTag} :
    t ∈ s.draft.unknown ↔ s.contents.lookup t.number = some t.content := by
  have hplaced := UnknownTag.mem_placeAll (u := t) .nil s.nodup_tags fun t _ u hu => by cases hu
  rw [← mem_tags]
  exact hplaced.trans (or_iff_left List.not_mem_nil)

/-- What sound dictionaries describe is in normal form. -/
lemma Sound.isNormal {s : Staging} (h : s.Sound) : s.draft.IsNormal where
  value := fun f v hv => (h.value f v hv).1
  ascending := s.ascending_draft
  unknown := fun t ht => h.content t (mem_unknown_draft.mp ht)

/-- The arguments of a staging have names that a list can have. -/
lemma check_arguments (s : Staging) :
    s.arguments.check [] (unknownName :: Field.all.map Field.name) = .ok () := by
  refine check_names fun entry hentry => ?_
  rcases List.mem_cons.mp hentry with rfl | hentry
  · exact .inl rfl
  · obtain ⟨e, -, rfl⟩ := List.mem_map.mp hentry
    exact .inr ⟨e.1, rfl⟩

/-- The argument under the name of a field is the one for its value. -/
lemma find?_arguments (s : Staging) (f : Field) :
    s.arguments.find? f.name = s.draft.argument? f := by
  have hentries : ∀ entries : List (Sigma Field.Value),
      (entries.map fun e => (e.1.name, e.1.kind.argument e.2)).lookup f.name =
        (entries.dlookup f).map f.kind.argument := by
    intro entries
    induction entries with
    | nil => rfl
    | cons e entries ih =>
      obtain ⟨g, v⟩ := e
      rw [List.map_cons, List.lookup_cons]
      by_cases hfield : f = g
      · subst hfield
        rw [beq_self_eq_true, List.dlookup_cons_eq]
        rfl
      · have hname : (f.name == g.name) = false :=
          beq_eq_false_iff_ne.mpr fun heq => hfield (Field.name_injective heq)
        rw [hname, List.dlookup_cons_ne _ _ hfield]
        exact ih
  have hname : (f.name == unknownName) = false :=
    beq_eq_false_iff_ne.mpr (Field.name_ne_unknownName f)
  unfold Arguments.find? arguments
  rw [List.lookup_cons, hname]
  exact hentries s.values.entries

/-- Building checks everything once more, and never fails. -/
theorem build_eq {s : Staging} (h : s.Sound) : s.build = .ok s.draft := by
  have hfields : addArgument s.arguments = addArgument s.draft.arguments := by
    funext acc f
    unfold addArgument
    rw [s.find?_arguments, AuthorizationList.find?_arguments]
  have hunknown : s.arguments.find? unknownName = some (.list (s.tags.map UnknownTag.argument)) :=
    List.lookup_cons_self
  have htags : UnknownTag.makeAll (.list (s.tags.map UnknownTag.argument)) =
      .ok s.draft.unknown :=
    UnknownTag.foldlM_addItem_of_nodup .nil (fun t ht => h.content t (mem_tags.mp ht)) s.nodup_tags
      fun t _ u hu => by cases hu
  have hdraft := UnknownTag.makeAll_arguments s.ascending_draft h.isNormal.unknown
  have hmake : make s.arguments = make s.draft.arguments := by
    unfold make
    rw [s.check_arguments, AuthorizationList.check_arguments, hfields, hunknown,
      find?_unknownName, Option.getD_some, Option.getD_some, htags, hdraft]
  exact hmake.trans (AuthorizationList.make_arguments h.isNormal)

end Staging

end AuthorizationList

end AttestedKey
