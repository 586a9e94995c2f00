import AttestedKey.Proofs.AuthorizationList.Staging

/-!
# The last write wins

A builder is started empty, from arguments by field name or from a list, and some operations are
performed on it, of which those that are refused are passed over.  Whatever was performed, a field
has the value and a tag has the content that the last accepted operation on it has written
(`lastValue`, `lastContent`).  This is so in both dictionaries and in the list that is built from
them, and a `Builder` holds the same list after the same operations (`AgreesWithLastWrites`).
-/

namespace AttestedKey.AuthorizationList

open Outcome

/-! ### Runs -/

/-- What the accepted ones among some operations write. -/
def Operation.writes (operations : List Operation) : List Write :=
  operations.filterMap fun o => o.write.toOption

/-- The value that a field was given last. -/
def lastValue (f : Field) (operations : List Operation) : Option f.Value :=
  ((Operation.writes operations).filterMap (Write.value? f)).getLast?.join

/-- The content that a tag was given last. -/
def lastContent (number : ℕ) (operations : List Operation) : Option Octets :=
  ((Operation.writes operations).filterMap (Write.content? number)).getLast?

namespace Staging

/-- Performs some operations.  One that is refused is passed over. -/
def run (s : Staging) (operations : List Operation) : Staging :=
  operations.foldl (fun s o => (o.outcome s).2) s

/-- A run performs the writes of the accepted operations. -/
lemma run_eq (s : Staging) (operations : List Operation) :
    s.run operations = (Operation.writes operations).foldl write s := by
  induction operations generalizing s with
  | nil => rfl
  | cons o operations ih =>
    have hrest := ih (o.outcome s).2
    change run (o.outcome s).2 operations = _
    rw [hrest, o.outcome_eq]
    unfold Operation.writes
    rw [List.filterMap_cons]
    cases o.write <;> rfl

/-- After some writes, a field has the value that was written last, or the one that it had. -/
lemma lookup_values_foldl (s : Staging) (writes : List Write) (f : Field) :
    (writes.foldl write s).values.lookup f =
      (writes.filterMap (Write.value? f)).getLast?.getD (s.values.lookup f) := by
  induction writes generalizing s with
  | nil => rfl
  | cons w writes ih =>
    rw [List.foldl_cons, ih, lookup_values_write, List.filterMap_cons]
    cases w.value? f with
    | none => rfl
    | some v =>
      rw [List.getLast?_cons]
      cases (writes.filterMap (Write.value? f)).getLast? <;> rfl

/-- After some writes, a tag has the content that was written last, or the one that it had. -/
lemma lookup_contents_foldl (s : Staging) (writes : List Write) (number : ℕ) :
    (writes.foldl write s).contents.lookup number =
      (writes.filterMap (Write.content? number)).getLast?.or (s.contents.lookup number) := by
  induction writes generalizing s with
  | nil => rfl
  | cons w writes ih =>
    rw [List.foldl_cons, ih, lookup_contents_write, List.filterMap_cons]
    cases w.content? number with
    | none => rfl
    | some content =>
      rw [List.getLast?_cons]
      cases (writes.filterMap (Write.content? number)).getLast? <;> rfl

/-- After a run a field has the value that it was given last. -/
theorem lookup_values_run (operations : List Operation) (f : Field) :
    (empty.run operations).values.lookup f = lastValue f operations := by
  rw [run_eq, lookup_values_foldl]
  unfold lastValue
  cases ((Operation.writes operations).filterMap (Write.value? f)).getLast? <;> rfl

/-- After a run a tag has the content that it was given last. -/
theorem lookup_contents_run (operations : List Operation) (number : ℕ) :
    (empty.run operations).contents.lookup number = lastContent number operations := by
  rw [run_eq, lookup_contents_foldl]
  exact Option.or_none

/-- A text is no number and one octet is no element: neither takes away what was given before. -/
example :
    (empty.run [.set "key_size" (.integer 256), .assign "no_auth_required" (.truth true),
        .setUnknown (.integer 1000) (.octets [5, 0]), .call "key_size" (.text "256"),
        .setUnknown (.integer 1000) (.octets [5]),
        .assign "no_auth_required" (.truth false)]).draft =
      (AuthorizationList.empty.set .keySize (256 : ℤ)).setUnknown ⟨1000, [5, 0]⟩ := by
  decide +kernel

/-- A run keeps the dictionaries sound. -/
lemma Sound.run {s : Staging} (h : s.Sound) (operations : List Operation) :
    (s.run operations).Sound := by
  induction operations generalizing s with
  | nil => exact h
  | cons o operations ih =>
    have hstep : (o.outcome s).2.Sound := by
      rw [o.outcome_eq]
      cases hwrite : o.write with
      | ok w => exact h.write (Operation.sound_of_write hwrite)
      | error refusal => exact h
    exact ih hstep

end Staging

/-! ### The same operations on a builder -/

namespace Builder

/-- Performs an operation on a builder. -/
def perform (b : Builder) : Operation → Except Refusal Builder
  | .assign name argument | .set name argument => b.assign name argument
  | .call name argument => do
    let setter ← setter name
    b.call setter argument
  | .setUnknown number content => b.setUnknown number content

/-- Performs some operations.  One that is refused is passed over. -/
def run (b : Builder) (operations : List Operation) : Builder :=
  operations.foldl (fun b o => (b.perform o).toOption.getD b) b

/-- A builder after a write. -/
def write (b : Builder) : Write → Builder
  | .value f v => ⟨b.draft.assign f v⟩
  | .content t => ⟨b.draft.setUnknown t⟩

/-- A check that does not look at the builder comes first, and a step after it. -/
lemma bind_eq {α : Type} (b : Builder) (check : Except Refusal α)
    {step : α → Except Refusal Builder}
    {write : α → Except Refusal Write} (h : ∀ a, step a = (write a).map b.write) :
    (check >>= step) = (check >>= write).map b.write := by
  cases check with
  | error refusal => rfl
  | ok a => exact h a

/-- A builder is given an argument by one write. -/
lemma give_eq (b : Builder) (f : Field) (argument : Argument) :
    b.give f argument = (Write.ofArgument f argument).map b.write :=
  b.bind_eq (valueOf f argument) fun _ => rfl

/-- An operation performs its write on a builder, or is refused. -/
theorem perform_eq (b : Builder) (o : Operation) : b.perform o = o.write.map b.write := by
  cases o with
  | assign name argument => exact b.bind_eq (field name) fun f => b.give_eq f argument
  | set name argument => exact b.bind_eq (field name) fun f => b.give_eq f argument
  | call name argument =>
    refine b.bind_eq (setter name) fun setter => ?_
    cases setter with
    | field f => exact b.give_eq f argument
    | unknown => rfl
  | setUnknown number content =>
    exact b.bind_eq (UnknownTag.make [] number content) fun _ => rfl

end Builder

namespace Staging

/-- The builder that holds what both dictionaries describe. -/
def toBuilder (s : Staging) : Builder := ⟨s.draft⟩

/-- A write on the dictionaries is the same write on the builder. -/
lemma toBuilder_write (s : Staging) (w : Write) : (s.write w).toBuilder = s.toBuilder.write w := by
  have hvalue : ∀ f, (s.write w).draft.value f = (s.toBuilder.write w).draft.value f := by
    intro f
    refine (s.lookup_values_write w f).trans ?_
    cases w with
    | content t => rfl
    | value g v =>
      by_cases hfield : f = g
      · subst hfield
        rw [Write.value?_value_self]
        exact (value_assign_self _ f v).symm
      · rw [Write.value?_value_of_ne (Ne.symm hfield), Option.getD_none]
        exact (value_assign_of_ne s.draft v hfield).symm
  have hunknown : (s.write w).draft.unknown = (s.toBuilder.write w).draft.unknown := by
    cases w with
    | value g v => cases v <;> rfl
    | content t =>
      -- One side is sorted at the end, the other one at every write, and both ascend.
      refine (ascending_draft _).eq_of_mem_iff
        (UnknownTag.ascending_place t s.ascending_draft) fun u => ?_
      refine mem_unknown_draft.trans (Iff.trans ?_ (UnknownTag.mem_place s.ascending_draft).symm)
      rw [lookup_contents_write, mem_unknown_draft]
      by_cases hnumber : t.number = u.number
      · rw [← hnumber, Write.content?_content_self, Option.some_or, Option.some.injEq]
        constructor
        · intro hcontent
          exact .inl (UnknownTag.eq_of_parts hnumber.symm hcontent.symm)
        · rintro (rfl | ⟨-, hne⟩)
          · rfl
          · exact absurd rfl hne
      · rw [Write.content?_content_of_ne hnumber, Option.none_or]
        constructor
        · intro hold
          exact .inr ⟨hold, Ne.symm hnumber⟩
        · rintro (rfl | ⟨hold, -⟩)
          · exact absurd rfl hnumber
          · exact hold
  exact congrArg Builder.mk (ext_iff.mpr ⟨fun f _ => hvalue f, hunknown⟩)

/-- Staging some writes and then building is building and then making the writes. -/
lemma toBuilder_foldl (s : Staging) (writes : List Write) :
    (writes.foldl write s).toBuilder = writes.foldl Builder.write s.toBuilder := by
  induction writes generalizing s with
  | nil => rfl
  | cons w writes ih => rw [List.foldl_cons, List.foldl_cons, ih, toBuilder_write]

/-- The same operations lead to the same list. -/
theorem toBuilder_run (s : Staging) (operations : List Operation) :
    (s.run operations).toBuilder = s.toBuilder.run operations := by
  induction operations generalizing s with
  | nil => rfl
  | cons o operations ih =>
    have hstep : (o.outcome s).2.toBuilder = (s.toBuilder.perform o).toOption.getD s.toBuilder := by
      rw [o.outcome_eq, Builder.perform_eq]
      cases o.write with
      | error refusal => rfl
      | ok w => exact s.toBuilder_write w
    have hrest := ih (o.outcome s).2
    rw [hstep] at hrest
    exact hrest

/-! ### Where a run starts -/

/-- Performs all of some operations, unless one is refused. -/
def ofOperations (operations : List Operation) : Except Refusal Staging :=
  operations.foldlM (fun s o => (o.outcome s).1.map fun _ => (o.outcome s).2) empty

end Staging

/-- The operations that give fields the values of some arguments. -/
def assignments (arguments : Arguments) : List Operation :=
  arguments.map fun entry => .assign entry.1 entry.2

/-- The values of some fields of a list that are written. -/
def writtenValues (a : AuthorizationList) (fields : List Field) : List (Sigma Field.Value) :=
  fields.filterMap fun f => ((a.value f).filter f.kind.isWritten).map (Sigma.mk f)

/-- The operations that give a builder what a list has: the values that are written and then the
tags outside the table. -/
def operations (a : AuthorizationList) : List Operation :=
  ((a.writtenValues Field.all).map fun e => .assign e.1.name (e.1.kind.argument e.2)) ++
    a.unknown.map fun t => .setUnknown (.integer t.number) (.octets t.content)

namespace Staging

/-- The dictionaries that some arguments by field name make up. -/
def ofArguments (arguments : Arguments) : Except Refusal Staging :=
  if arguments.any fun (name, _) => name == Builder.ownName then .error .mismatch
  else ofOperations (assignments arguments)

/-- The dictionaries that a list makes up. -/
def ofList (a : AuthorizationList) : Except Refusal Staging := ofOperations a.operations

end Staging

/-- Some operations that are all accepted lead to what their writes make up. -/
lemma Staging.ofOperations_eq (operations : List Operation) :
    Staging.ofOperations operations =
      (operations.mapM Operation.write).map fun writes => writes.foldl Staging.write .empty := by
  have hstep : ∀ (s : Staging) (o : Operation),
      ((o.outcome s).1.map fun _ => (o.outcome s).2) = o.write.map s.write := by
    intro s o
    rw [o.outcome_eq]
    cases o.write <;> rfl
  unfold Staging.ofOperations
  simp only [hstep]
  exact foldlM_map_eq Operation.write Staging.write operations .empty

/-- Operations that are all accepted write what they write one by one. -/
lemma Operation.writes_of_mapM {operations : List Operation} {writes : List Write}
    (h : operations.mapM Operation.write = .ok writes) : Operation.writes operations = writes := by
  have hall := mapM_eq_ok_iff.mp h
  clear h
  induction hall with
  | nil => rfl
  | @cons o w operations writes how _ ih =>
    unfold Operation.writes at ih ⊢
    rw [List.filterMap_cons, how, ih]
    rfl

/-- A start from some operations is a run of them. -/
lemma Staging.run_of_ofOperations {operations : List Operation} {s : Staging}
    (h : Staging.ofOperations operations = .ok s) : s = Staging.empty.run operations := by
  rw [Staging.ofOperations_eq] at h
  cases hwrites : operations.mapM Operation.write with
  | error refusal =>
    rw [hwrites] at h
    cases h
  | ok writes =>
    rw [hwrites] at h
    rw [Staging.run_eq, Operation.writes_of_mapM hwrites]
    exact (Except.ok.inj h).symm

/-- Arguments make up the same list, or are refused in the same way. -/
theorem Staging.toBuilder_ofArguments (arguments : Arguments) :
    (Staging.ofArguments arguments).map Staging.toBuilder = Builder.ofArguments arguments := by
  have hstep : ∀ (b : Builder) (entry : String × Argument), b.assign entry.1 entry.2 =
      (Operation.assign entry.1 entry.2).write.map b.write :=
    fun b entry => b.perform_eq (.assign entry.1 entry.2)
  unfold Staging.ofArguments Builder.ofArguments
  split
  · rfl
  · have hbuilder : arguments.foldlM (fun b entry => b.assign entry.1 entry.2) Builder.empty =
        (arguments.mapM fun entry => (Operation.assign entry.1 entry.2).write).map
          fun writes => writes.foldl Builder.write .empty := by
      simp only [hstep]
      exact foldlM_map_eq _ Builder.write arguments .empty
    have hmap : (assignments arguments).mapM Operation.write =
        arguments.mapM fun entry => (Operation.assign entry.1 entry.2).write := by
      unfold assignments
      rw [List.mapM_map]
      rfl
    refine Eq.trans ?_ hbuilder.symm
    rw [Staging.ofOperations_eq, hmap]
    cases arguments.mapM fun entry => (Operation.assign entry.1 entry.2).write with
    | error refusal => rfl
    | ok writes => exact congrArg Except.ok (Staging.empty.toBuilder_foldl writes)

/-- What the operations for a list write. -/
def operationWrites (a : AuthorizationList) : List Write :=
  ((a.writtenValues Field.all).map fun e => .value e.1 (some e.2)) ++ a.unknown.map .content

/-- The operations for a list in normal form are accepted. -/
lemma mapM_write_operations {a : AuthorizationList} (h : a.IsNormal) :
    a.operations.mapM Operation.write = .ok a.operationWrites := by
  have hvalue : ∀ e ∈ a.writtenValues Field.all,
      (Operation.assign e.1.name (e.1.kind.argument e.2)).write = .ok (.value e.1 (some e.2)) := by
    intro e he
    obtain ⟨f, -, he⟩ := List.mem_filterMap.mp he
    obtain ⟨v, hv, rfl⟩ := Option.map_eq_some_iff.mp he
    obtain ⟨hv, hwritten⟩ := Option.filter_eq_some_iff.mp hv
    have hgiven := Builder.valueOf_argument (h.value f v hv) hwritten
    unfold Operation.write Write.ofArgument
    simp only [Builder.field_name, ok_bind, hgiven, pure_eq_ok]
  have htag : ∀ t ∈ a.unknown,
      (Operation.setUnknown (.integer t.number) (.octets t.content)).write = .ok (.content t) := by
    intro t ht
    have hmake : UnknownTag.make [] (.integer t.number) (.octets t.content) = .ok t :=
      UnknownTag.make_arguments (h.unknown t ht) fun u hu => absurd hu List.not_mem_nil
    unfold Operation.write
    simp only [hmake, ok_bind, pure_eq_ok]
  refine mapM_eq_ok_iff.mpr (List.rel_append ?_ ?_)
  · rw [List.forall₂_map_left_iff, List.forall₂_map_right_iff]
    exact List.forall₂_same.mpr hvalue
  · rw [List.forall₂_map_left_iff, List.forall₂_map_right_iff]
    exact List.forall₂_same.mpr htag

/-- The values of some fields that are written are taken over. -/
lemma foldl_writtenValues (a acc : AuthorizationList) (fields : List Field) :
    ((a.writtenValues fields).map fun e => Write.value e.1 (some e.2)).foldl Builder.write ⟨acc⟩ =
      ⟨fields.foldl (Builder.ofList a).draft.takeOver acc⟩ := by
  induction fields generalizing acc with
  | nil => rfl
  | cons f fields ih =>
    unfold writtenValues at ih ⊢
    rw [List.filterMap_cons, List.foldl_cons, takeOver]
    change _ = Builder.mk (List.foldl _ (match (a.value f).filter f.kind.isWritten with
      | none => acc
      | some v => acc.set f v) fields)
    cases (a.value f).filter f.kind.isWritten with
    | none => exact ih acc
    | some v => exact ih (acc.set f v)

/-- The writes for a list lead to the list without its blank flags. -/
lemma foldl_operationWrites {a : AuthorizationList} (h : a.IsNormal) :
    a.operationWrites.foldl Builder.write .empty = .ofList a := by
  have hcontents : ∀ (tags : List UnknownTag) (b : Builder),
      (tags.map Write.content).foldl Builder.write b =
        ⟨{ b.draft with unknown := UnknownTag.placeAll b.draft.unknown tags }⟩ := by
    intro tags
    induction tags with
    | nil => exact fun b => rfl
    | cons t tags ih => exact fun b => ih (b.write (.content t))
  have hplaced : UnknownTag.placeAll [] a.unknown = a.unknown := by
    have hnodup : (a.unknown.map UnknownTag.number).Nodup :=
      List.pairwise_map.mpr (h.ascending.imp ne_of_lt)
    refine (UnknownTag.ascending_placeAll .nil _).eq_of_mem_iff h.ascending fun t => ?_
    have hmem := UnknownTag.mem_placeAll (u := t) .nil hnodup fun t _ u hu => by cases hu
    exact hmem.trans (or_iff_left List.not_mem_nil)
  have hvalue : ∀ f, (Field.all.foldl (Builder.ofList a).draft.takeOver empty).value f =
      (Builder.ofList a).draft.value f := by
    intro f
    rw [value_foldl_takeOver, if_pos (Field.mem_all f)]
    exact Option.or_none
  have hunknown : (Field.all.foldl (Builder.ofList a).draft.takeOver empty).unknown = [] :=
    unknown_foldl_takeOver (Builder.ofList a).draft empty Field.all
  have hfields : ((a.writtenValues Field.all).map fun e =>
      Write.value e.1 (some e.2)).foldl Builder.write .empty = _ :=
    foldl_writtenValues a empty Field.all
  unfold operationWrites
  rw [List.foldl_append, hcontents, hfields, hunknown, hplaced]
  exact congrArg Builder.mk (ext_iff.mpr ⟨fun f _ => hvalue f, rfl⟩)

/-- A list in normal form makes up the list without its blank flags. -/
theorem Staging.exists_ofList {a : AuthorizationList} (h : a.IsNormal) :
    ∃ s, Staging.ofList a = .ok s ∧ s.toBuilder = .ofList a := by
  refine ⟨a.operationWrites.foldl Staging.write .empty, ?_, ?_⟩
  · unfold Staging.ofList
    rw [Staging.ofOperations_eq, mapM_write_operations h]
    rfl
  · rw [Staging.toBuilder_foldl]
    exact foldl_operationWrites h

/-! ### Starts and runs together -/

/-- Both forms of a builder right after it was made, with the operations that made it. -/
inductive Started : Staging → Builder → List Operation → Prop
  /-- Nothing is given. -/
  | empty : Started .empty .empty []
  /-- Some arguments by field name are given, and are accepted. -/
  | ofArguments {arguments : Arguments} {s : Staging} {b : Builder}
    (hs : Staging.ofArguments arguments = .ok s) (hb : Builder.ofArguments arguments = .ok b) :
    Started s b (assignments arguments)
  /-- A list is given. -/
  | ofList {a : AuthorizationList} {s : Staging} (ha : Constructible a)
    (hs : Staging.ofList a = .ok s) : Started s (.ofList a) a.operations

/-- Both forms of a builder agree with the last writes of the operations that were performed, and
remain as they are when an operation is refused. -/
structure AgreesWithLastWrites (s : Staging) (b : Builder) (operations : List Operation) :
    Prop where
  /-- Building never fails. -/
  build : s.build = .ok b.build
  /-- Reading an attribute of either form gives the same. -/
  get : ∀ name, s.get name = b.get name
  /-- The attribute of a field is that of the list that is built. -/
  getField : ∀ f : Field, s.get f.name = .ok ⟨f, b.build.value f⟩
  /-- Each field has the value that it was given last. -/
  value : ∀ f, b.build.value f = lastValue f operations
  /-- The tags outside the table are in order. -/
  ascending : UnknownTag.Ascending b.build.unknown
  /-- They are those that were given a content, each with the last one. -/
  content : ∀ t, t ∈ b.build.unknown ↔ lastContent t.number operations = some t.content
  /-- An operation that is refused leaves everything as it was. -/
  refused : ∀ o refusal, (o.outcome s).1 = .error refusal →
    (o.outcome s).2 = s ∧ b.perform o = .error refusal
  /-- An operation that is accepted changes nothing but its own field or tag. -/
  accepted : ∀ o, (o.outcome s).1 = .ok () →
    b.perform o = .ok (o.outcome s).2.toBuilder ∧
      (∀ f, o.field? ≠ some f → (o.outcome s).2.values.lookup f = s.values.lookup f) ∧
      ∀ number, o.number? ≠ some number →
        (o.outcome s).2.contents.lookup number = s.contents.lookup number

/-- A start is a run from nothing. -/
lemma Started.eq_run {s : Staging} {b : Builder} {earlier : List Operation}
    (h : Started s b earlier) : s = Staging.empty.run earlier ∧ s.toBuilder = b := by
  cases h with
  | empty => exact ⟨rfl, rfl⟩
  | @ofArguments arguments s b hs hb =>
    have hbuilder := Staging.toBuilder_ofArguments arguments
    rw [hs, hb] at hbuilder
    refine ⟨?_, Except.ok.inj hbuilder⟩
    unfold Staging.ofArguments at hs
    split at hs
    · cases hs
    · exact Staging.run_of_ofOperations hs
  | @ofList a s ha hs =>
    obtain ⟨s', hs', hbuilder⟩ := Staging.exists_ofList ha.isNormal
    obtain rfl : s = s' := Except.ok.inj (hs.symm.trans hs')
    exact ⟨Staging.run_of_ofOperations hs, hbuilder⟩

/-- After any run from nothing both forms agree with the last writes. -/
lemma agreesWithLastWrites_run (operations : List Operation) :
    AgreesWithLastWrites (Staging.empty.run operations) (Staging.empty.run operations).toBuilder
      operations := by
  have hsound := Staging.sound_empty.run operations
  have hget : ∀ name, (Staging.empty.run operations).get name =
      (Staging.empty.run operations).toBuilder.get name := fun _ => rfl
  refine ⟨Staging.build_eq hsound, hget, fun f => ?_, fun f => ?_, Staging.ascending_draft _,
    fun t => ?_, fun o refusal ho => ?_, fun o ho => ?_⟩
  · unfold Staging.get
    rw [Field.ofName?_name]
    rfl
  · exact Staging.lookup_values_run operations f
  · rw [← Staging.lookup_contents_run]
    exact Staging.mem_unknown_draft
  · rw [o.outcome_eq] at ho ⊢
    rw [Builder.perform_eq]
    cases hwrite : o.write with
    | ok w =>
      rw [hwrite] at ho
      cases ho
    | error refusal' =>
      rw [hwrite] at ho
      obtain rfl : refusal' = refusal := Except.error.inj ho
      exact ⟨rfl, rfl⟩
  · rw [o.outcome_eq] at ho ⊢
    rw [Builder.perform_eq]
    cases hwrite : o.write with
    | error refusal =>
      rw [hwrite] at ho
      cases ho
    | ok w =>
      obtain ⟨hvalue, hcontent⟩ := Operation.write_about hwrite
      refine ⟨congrArg Except.ok (Staging.toBuilder_write _ w).symm, fun f hf => ?_,
        fun number hnumber => ?_⟩
      · refine (Staging.lookup_values_write _ w f).trans ?_
        rw [hvalue f hf]
        rfl
      · refine (Staging.lookup_contents_write _ w number).trans ?_
        rw [hcontent number hnumber]
        rfl

/-- Whatever is done to a builder, however it was started: it holds what was written last, it can
be built, and an operation that is refused leaves it alone.  Arguments start it in both forms alike,
and a list is built again from the builder that was started with it, unless a flag was left
blank. -/
theorem started_run_agrees :
    (∀ s b earlier, Started s b earlier → ∀ operations,
      AgreesWithLastWrites (s.run operations) (b.run operations) (earlier ++ operations)) ∧
    (∀ arguments,
      (Staging.ofArguments arguments).map Staging.toBuilder = Builder.ofArguments arguments) ∧
    ∀ a, Constructible a → ∃ s, Staging.ofList a = .ok s ∧ Started s (.ofList a) a.operations ∧
      (a.AllWritten → s.build = .ok a) := by
  refine ⟨fun s b earlier hstart operations => ?_, Staging.toBuilder_ofArguments, fun a ha => ?_⟩
  · obtain ⟨rfl, rfl⟩ := hstart.eq_run
    -- A builder that was started is one on which the earlier operations have been run.
    rw [← Staging.toBuilder_run]
    have hrun : (Staging.empty.run earlier).run operations =
        Staging.empty.run (earlier ++ operations) := (List.foldl_append ..).symm
    rw [hrun]
    exact agreesWithLastWrites_run (earlier ++ operations)
  · obtain ⟨s, hs, hbuilder⟩ := Staging.exists_ofList ha.isNormal
    refine ⟨s, hs, .ofList ha hs, fun hwritten => ?_⟩
    have hrun := Staging.run_of_ofOperations hs
    have hsound : s.Sound := hrun ▸ Staging.sound_empty.run a.operations
    have hdraft : s.draft = a := by
      have hlist : s.draft = (Builder.ofList a).draft := congrArg Builder.draft hbuilder
      refine hlist.trans (ext_iff.mpr ⟨fun f _ => ?_, rfl⟩)
      change (a.value f).filter f.kind.isWritten = a.value f
      cases hv : a.value f with
      | none => rfl
      | some v => exact if_pos (hwritten f v hv)
    rw [Staging.build_eq hsound, hdraft]

end AttestedKey.AuthorizationList
