import AttestedKey.Proofs.AuthorizationList.Form

/-!
# The written form of an authorization list

`AuthorizationList.written` lists the entries of a list by ascending number, and
`AuthorizationList.item` is the sequence of their wrappers.  A list in normal form
(`AuthorizationList.IsNormal`), which every list is that was read, is written as this item
(`encode_eq_ok_iff`), and holds just these entries (`holds_written`), so it is read back from it.
Of the wire forms of a list, the written one is the one with ascending numbers and canonical values
(`item_eq_iff`), and it is at most twice as long as any other (`length_item_le`).
-/

namespace AttestedKey

open Der Outcome

/-- A reader can read the tag of every field. -/
lemma Field.tag_lt (f : Field) : f.tag < 2 ^ 28 := by
  cases f <;> decide

/-- A tag has a number outside the table that a reader accepts, and holds one element. -/
def UnknownTag.IsNormal (t : UnknownTag) : Prop :=
  Field.ofTag? t.number = none ∧ t.number < 2 ^ 28 ∧ ∃ i : Item, i.Readable ∧ t.content = i.octets

namespace AuthorizationList

/-- The entry of a field, if the field is written. -/
def fieldItem (a : AuthorizationList) (f : Field) : Option Entry :=
  (a.value f).bind fun v => if f.kind.isWritten v then some ⟨f.tag, f.kind.item v⟩ else none

/-- The entry of a tag outside the table. -/
def unknownItem (t : UnknownTag) : Entry := ⟨t.number, (Item.split t.content).headD .null⟩

/-- The entries of a list by ascending number. -/
def written (a : AuthorizationList) : List Entry :=
  (Field.all.filterMap a.fieldItem ++ a.unknown.map unknownItem).mergeSort
    fun d e => d.number ≤ e.number

/-- The form in which a list is written. -/
def item (a : AuthorizationList) : Item := .sequence (a.written.map Entry.wrapper)

/-- Sets of authenticators stand for masks, and the unknown tags are in order, outside the table
and each around one element. -/
structure IsNormal (a : AuthorizationList) : Prop where
  /-- Each value is normal. -/
  value : ∀ (f : Field) (v : f.Value), a.value f = some v → f.kind.IsNormal v
  /-- The unknown tags are in order. -/
  ascending : UnknownTag.Ascending a.unknown
  /-- Each of them has a number outside the table and holds one element. -/
  unknown : ∀ t ∈ a.unknown, t.IsNormal

/-- The numbers of the written values fit into their fields. -/
def InRange (a : AuthorizationList) : Prop :=
  ∀ (f : Field) (v : f.Value), a.value f = some v → f.kind.isWritten v = true → f.kind.InRange v

/-- No field was left blank. -/
def AllWritten (a : AuthorizationList) : Prop :=
  ∀ (f : Field) (v : f.Value), a.value f = some v → f.kind.isWritten v = true

/-! ### The entries -/

/-- A field has an entry if it has a value that is written. -/
lemma fieldItem_eq_some_iff {a : AuthorizationList} {f : Field} {e : Entry} :
    a.fieldItem f = some e ↔
      ∃ v, a.value f = some v ∧ f.kind.isWritten v = true ∧ e = ⟨f.tag, f.kind.item v⟩ := by
  unfold fieldItem
  rw [Option.bind_eq_some_iff]
  refine exists_congr fun v => and_congr_right fun _ => ?_
  split
  next hwritten =>
    rw [Option.some.injEq, eq_comm]
    exact (and_iff_right hwritten).symm
  next hblank => exact iff_of_false (by simp) fun h => hblank h.1

/-- The entries of a list are those of its fields and those of its unknown tags. -/
lemma mem_written {a : AuthorizationList} {e : Entry} :
    e ∈ a.written ↔
      (∃ (f : Field) (v : f.Value), a.value f = some v ∧ f.kind.isWritten v = true ∧
        e = ⟨f.tag, f.kind.item v⟩) ∨ ∃ t ∈ a.unknown, e = unknownItem t := by
  rw [written, List.mem_mergeSort, List.mem_append, List.mem_filterMap, List.mem_map]
  refine or_congr (exists_congr fun f => ?_)
    (exists_congr fun t => and_congr_right fun _ => eq_comm)
  rw [fieldItem_eq_some_iff]
  exact and_iff_right (Field.mem_all f)

/-- The fields are written by ascending tag. -/
lemma ascending_fieldItems (a : AuthorizationList) :
    (Field.all.filterMap a.fieldItem).Pairwise fun d e => d.number < e.number := by
  apply Field.all_ascending.filterMap a.fieldItem
  intro f g hlt d hd e he
  obtain ⟨v, -, -, rfl⟩ := fieldItem_eq_some_iff.mp hd
  obtain ⟨w, -, -, rfl⟩ := fieldItem_eq_some_iff.mp he
  exact hlt

/-- The entries of a normal list have strictly ascending numbers. -/
theorem IsNormal.ascending_written {a : AuthorizationList} (h : a.IsNormal) :
    a.written.Pairwise fun d e => d.number < e.number := by
  have hnodup : (Field.all.filterMap a.fieldItem ++ a.unknown.map unknownItem).Pairwise
      fun d e => d.number ≠ e.number := by
    refine List.pairwise_append.mpr ⟨(ascending_fieldItems a).imp fun hlt => hlt.ne, ?_, ?_⟩
    · rw [List.pairwise_map]
      exact h.ascending.imp fun hlt => hlt.ne
    · intro d hd e he heq
      obtain ⟨f, -, hf⟩ := List.mem_filterMap.mp hd
      obtain ⟨v, -, -, rfl⟩ := fieldItem_eq_some_iff.mp hf
      obtain ⟨t, ht, rfl⟩ := List.mem_map.mp he
      have hnone := (h.unknown t ht).1
      change f.tag = t.number at heq
      rw [← heq, Field.ofTag?_tag] at hnone
      cases hnone
  have hsorted : a.written.Pairwise fun d e => decide (d.number ≤ e.number) = true := by
    refine List.pairwise_mergeSort (fun d e c => ?_) (fun d e => ?_) _
    · simp only [decide_eq_true_eq]
      omega
    · simp only [Bool.or_eq_true, decide_eq_true_eq]
      omega
  have hdistinct : a.written.Pairwise fun d e => d.number ≠ e.number :=
    (List.mergeSort_perm ..).symm.pairwise hnodup fun hne => hne.symm
  refine hsorted.imp₂ (fun d e hle hne => ?_) hdistinct
  rw [decide_eq_true_eq] at hle
  omega

/-- The content of an unknown tag of a normal list is what its entry holds. -/
lemma IsNormal.octets_unknownItem {a : AuthorizationList} (h : a.IsNormal) {t : UnknownTag}
    (ht : t ∈ a.unknown) :
    (unknownItem t).inner.Readable ∧ (unknownItem t).inner.octets = t.content := by
  obtain ⟨-, -, i, hi, hcontent⟩ := h.unknown t ht
  have hitem : (unknownItem t).inner = i := by
    rw [unknownItem, hcontent, Item.split_octets hi, List.headD_cons]
  rw [hitem]
  exact ⟨hi, hcontent.symm⟩

/-- A reader can read the numbers of the entries of a normal list, and the tags in them. -/
lemma IsNormal.number_lt_of_mem_written {a : AuthorizationList} (h : a.IsNormal) {e : Entry}
    (he : e ∈ a.written) : e.number < 2 ^ 28 ∧ e.inner.tag.number < 2 ^ 28 := by
  rcases mem_written.mp he with ⟨f, v, -, -, rfl⟩ | ⟨t, ht, rfl⟩
  · exact ⟨Field.tag_lt f, Kind.number_lt_item ..⟩
  · exact ⟨(h.unknown t ht).2.1, (h.octets_unknownItem ht).1.number_lt⟩

/-- The entries of a normal list can be read if the whole can. -/
lemma IsNormal.readable_of_mem_written {a : AuthorizationList} (h : a.IsNormal)
    (hread : a.item.Readable) : ∀ e ∈ a.written, e.Readable := by
  intro e he
  have hwrapper : e.wrapper.Readable := by
    refine Item.readable_of_ofType_join hread ?_ _ (List.mem_map_of_mem he)
    intro i hi
    obtain ⟨d, hd, rfl⟩ := List.mem_map.mp hi
    exact (h.number_lt_of_mem_written hd).1
  exact ⟨hwrapper,
    Item.readable_of_octets (h.number_lt_of_mem_written he).2 hwrapper.length_lt⟩

/-! ### Writing -/

/-- A field is written as its entry, if its numbers are in range. -/
lemma fieldEntry_eq_ok_iff {a : AuthorizationList} (f : Field) (o : Option (ℕ × Octets)) :
    a.fieldEntry f = .ok o ↔
      (∀ v, a.value f = some v → f.kind.isWritten v = true → f.kind.InRange v) ∧
        o = (a.fieldItem f).map fun e => (e.number, e.inner.octets) := by
  unfold fieldEntry fieldItem
  cases hv : a.value f with
  | none =>
    rw [pure_eq_ok, Except.ok.injEq, Option.bind_none, Option.map_none]
    exact eq_comm.trans (and_iff_right fun v h => by cases h).symm
  | some v =>
    simp only [Option.bind_some, Option.some.injEq, forall_eq']
    by_cases hwritten : f.kind.isWritten v = true
    · rw [if_pos hwritten, if_pos hwritten, bind_eq_ok_iff]
      simp only [Kind.encode_eq_ok_iff, hwritten, forall_const, pure_eq_ok, Except.ok.injEq]
      constructor
      · intro h
        rcases h with ⟨inner, ⟨hrange, rfl⟩, rfl⟩
        exact ⟨hrange, rfl⟩
      · rintro ⟨hrange, rfl⟩
        exact ⟨_, ⟨hrange, rfl⟩, rfl⟩
    · rw [if_neg hwritten, if_neg hwritten, pure_eq_ok, Except.ok.injEq, Option.map_none]
      exact eq_comm.trans (and_iff_right fun h => absurd h hwritten).symm

/-- The entries as they are written: a number and the octets behind it. -/
def Entry.pair (e : Entry) : ℕ × Octets := (e.number, e.inner.octets)

/-- What is written of a normal list are its entries. -/
lemma IsNormal.entries_eq_ok_iff {a : AuthorizationList} (h : a.IsNormal)
    {l : List (ℕ × Octets)} :
    a.entries = .ok l ↔ a.InRange ∧ l = a.written.map Entry.pair := by
  have hunknown : a.unknown.map (fun t => (t.number, t.content)) =
      (a.unknown.map unknownItem).map Entry.pair := by
    rw [List.map_map]
    refine List.map_congr_left fun t ht => ?_
    rw [Function.comp_apply, Entry.pair, (h.octets_unknownItem ht).2]
    rfl
  have hsort : a.written.map Entry.pair =
      ((Field.all.filterMap a.fieldItem).map Entry.pair ++
        a.unknown.map fun t => (t.number, t.content)).mergeSort fun p q => p.1 ≤ q.1 := by
    rw [hunknown, ← List.map_append]
    exact List.map_mergeSort fun _ _ _ _ => rfl
  have hfields : ∀ l', a.fieldEntries = .ok l' ↔
      a.InRange ∧ l' = (Field.all.filterMap a.fieldItem).map Entry.pair := by
    intro l'
    unfold fieldEntries
    rw [filterMapM_eq_ok_iff_filterMap fieldEntry_eq_ok_iff, List.map_filterMap]
    refine and_congr_left fun _ => ⟨fun hall f => hall f (Field.mem_all f), fun hall f _ => hall f⟩
  unfold entries
  rw [bind_eq_ok_iff]
  constructor
  · rintro ⟨known, hknown, hl⟩
    obtain ⟨hrange, rfl⟩ := (hfields known).mp hknown
    exact ⟨hrange, (Except.ok.inj hl).symm.trans hsort.symm⟩
  · rintro ⟨hrange, rfl⟩
    exact ⟨_, (hfields _).mpr ⟨hrange, rfl⟩, congrArg Except.ok hsort.symm⟩

/-- A normal list is written in its written form, if its numbers are in range. -/
theorem IsNormal.encode_eq_ok_iff {a : AuthorizationList} (h : a.IsNormal) {b : Octets} :
    a.encode = .ok b ↔ a.InRange ∧ b = a.item.octets := by
  have hitem : encodeSequence ((a.written.map Entry.pair).map
      fun p => encodeExplicit p.1 p.2) = a.item.octets := by
    rw [item, ← Item.encodeSequence_eq, List.map_map, List.map_map]
    rfl
  unfold encode
  rw [bind_eq_ok_iff]
  constructor
  · rintro ⟨l, hl, hb⟩
    obtain ⟨hrange, rfl⟩ := h.entries_eq_ok_iff.mp hl
    exact ⟨hrange, (Except.ok.inj hb).symm.trans hitem⟩
  · rintro ⟨hrange, rfl⟩
    exact ⟨_, h.entries_eq_ok_iff.mpr ⟨hrange, rfl⟩, congrArg Except.ok hitem⟩

/-! ### The written form among the others -/

/-- A normal list holds just the entries that are written of it. -/
theorem IsNormal.holds_written {a : AuthorizationList} (h : a.IsNormal) (hwritten : a.AllWritten)
    (hrange : a.InRange) (hread : ∀ e ∈ a.written, e.Readable) : a.Holds a.written := by
  have hform : ∀ (f : Field) (v : f.Value), a.value f = some v →
      ⟨f.tag, f.kind.item v⟩ ∈ a.written ∧ f.kind.Form v (f.kind.item v) := by
    intro f v hv
    have hmem := mem_written.mpr (.inl ⟨f, v, hv, hwritten f v hv, rfl⟩)
    exact ⟨hmem, Kind.form_item (hread _ hmem).2 (hrange f v hv (hwritten f v hv))
      (h.value f v hv) (hwritten f v hv)⟩
  refine ⟨fun f i hmem => ?_, fun f v hv => ⟨_, hform f v hv⟩, h.ascending, fun t => ?_⟩
  · rcases mem_written.mp hmem with ⟨g, v, hv, -, heq⟩ | ⟨t, ht, heq⟩
    · obtain ⟨htag, rfl⟩ := Entry.mk.inj heq
      have hfield := Field.ofTag?_tag f
      rw [htag, Field.ofTag?_tag, Option.some.injEq] at hfield
      subst hfield
      exact ⟨v, hv, (hform g v hv).2⟩
    · have hnone := (h.unknown t ht).1
      obtain ⟨htag, -⟩ := Entry.mk.inj heq
      rw [← htag, Field.ofTag?_tag] at hnone
      cases hnone
  · constructor
    · intro ht
      exact ⟨(h.unknown t ht).1, (unknownItem t).inner, mem_written.mpr (.inr ⟨t, ht, rfl⟩),
        (h.octets_unknownItem ht).2.symm⟩
    · intro hentry
      rcases hentry with ⟨hnone, i, hmem, hcontent⟩
      rcases mem_written.mp hmem with ⟨g, v, -, -, heq⟩ | ⟨u, hu, heq⟩
      · rw [(Entry.mk.inj heq).1, Field.ofTag?_tag] at hnone
        cases hnone
      · have hinner : i = (unknownItem u).inner := (Entry.mk.inj heq).2
        rw [hinner, (h.octets_unknownItem hu).2] at hcontent
        obtain rfl : t = u := by
          cases t
          cases u
          exact congrArg₂ UnknownTag.mk (Entry.mk.inj heq).1 hcontent
        exact hu

/-- A normal list that is written in readable octets has its written form as a wire form. -/
theorem IsNormal.form_item {a : AuthorizationList} (h : a.IsNormal) (hwritten : a.AllWritten)
    (hrange : a.InRange) (hread : a.item.Readable) : a.Form a.item := by
  have hentries := h.readable_of_mem_written hread
  refine ⟨a.written, ?_, hentries, h.holds_written hwritten hrange hentries, rfl⟩
  exact List.pairwise_map.mpr (h.ascending_written.imp fun hlt => hlt.ne)

/-- Whatever can be written of a normal list without blank flags, in as many octets as can be read,
is read back. -/
theorem IsNormal.decode_of_encode {a : AuthorizationList} {b : Octets} (h : a.IsNormal)
    (hwritten : a.AllWritten) (hb : a.encode = .ok b) (hlength : b.length < 2 ^ 32) :
    decode .lenient b = .ok a := by
  obtain ⟨hrange, rfl⟩ := h.encode_eq_ok_iff.mp hb
  have hread : a.item.Readable := Item.readable_of_octets (Item.number_lt_of_ofType _ _) hlength
  exact decode_eq_ok_iff.mpr ⟨a.item, hread, rfl, h.form_item hwritten hrange hread⟩

/-- A list that holds readable entries is in normal form. -/
lemma isNormal_of_holds {a : AuthorizationList} {entries : List Entry} (h : a.Holds entries)
    (hread : ∀ e ∈ entries, e.Readable) : a.IsNormal where
  value := by
    intro f v hv
    obtain ⟨i, -, hform⟩ := h.mem_of_value f v hv
    exact Kind.isNormal_of_form hform
  ascending := h.ascending
  unknown := by
    intro t ht
    obtain ⟨hnone, i, hmem, hcontent⟩ := (h.mem_unknown t).mp ht
    obtain ⟨hwrapper, hi⟩ := hread _ hmem
    exact ⟨hnone, hwrapper.number_lt, i, hi, hcontent⟩

/-- What was read is in normal form. -/
theorem isNormal_of_form {a : AuthorizationList} {i : Item} (h : a.Form i) : a.IsNormal := by
  obtain ⟨entries, -, hread, hholds, -⟩ := h
  exact isNormal_of_holds hholds hread

/-- What was read has no blank flag. -/
lemma allWritten_of_form {a : AuthorizationList} {i : Item} (h : a.Form i) : a.AllWritten := by
  obtain ⟨entries, -, -, hholds, -⟩ := h
  intro f v hv
  obtain ⟨j, -, hform⟩ := hholds.mem_of_value f v hv
  exact Kind.isWritten_of_form hform

/-- The verified boot state of the root of trust, if there is one, fits into 32 bits. -/
def HasCodeState (a : AuthorizationList) : Prop :=
  ∀ r ∈ a.value .rootOfTrust, r.verifiedBootState.code ≤ uint32Max

instance : DecidablePred HasCodeState := fun a =>
  inferInstanceAs (Decidable (∀ r ∈ a.value .rootOfTrust, r.verifiedBootState.code ≤ uint32Max))

/-- Only the one root of trust of a list has a verified boot state. -/
lemma hasCodeState_iff {a : AuthorizationList} :
    a.HasCodeState ↔ ∀ (f : Field) (v : f.Value), a.value f = some v → f.kind.HasCodeState v := by
  constructor
  · intro h f v hv
    cases f with
    | rootOfTrust => exact h v hv
    | _ => trivial
  · intro h r hr
    exact h .rootOfTrust r hr

/-- What was read can be written, if its boot state fits into 32 bits. -/
theorem inRange_iff_of_form {a : AuthorizationList} {i : Item} (h : a.Form i) :
    a.InRange ↔ a.HasCodeState := by
  have hwritten := allWritten_of_form h
  obtain ⟨entries, -, -, hholds, -⟩ := h
  rw [hasCodeState_iff]
  refine forall_congr' fun f => forall_congr' fun v => forall_congr' fun hv => ?_
  obtain ⟨j, -, hform⟩ := hholds.mem_of_value f v hv
  rw [forall_prop_of_true (hwritten f v hv)]
  exact Kind.inRange_iff_of_form hform

/-- A form whose numbers ascend, and whose values are all canonical. -/
def IsCanonical (i : Item) : Prop :=
  (i.parts.map fun w => w.tag.number).Pairwise (· < ·) ∧
    ∀ w ∈ i.parts, ∀ f ∈ Field.ofTag? w.tag.number, ∀ j ∈ w.parts, f.kind.IsCanonical j

instance : DecidablePred IsCanonical := fun _ => inferInstanceAs (Decidable (_ ∧ _))

/-- A sequence of wrappers is canonical if its numbers ascend and each field is canonical. -/
lemma isCanonical_sequence_iff {entries : List Entry} (hread : ∀ e ∈ entries, e.Readable) :
    IsCanonical (.sequence (entries.map Entry.wrapper)) ↔
      (entries.Pairwise fun d e => d.number < e.number) ∧
        ∀ e ∈ entries, ∀ f ∈ Field.ofTag? e.number, f.kind.IsCanonical e.inner := by
  have hitems : ∀ i ∈ entries.map Entry.wrapper, i.Readable := by
    simpa only [List.forall_mem_map] using fun e he => (hread e he).1
  rw [IsCanonical, Item.parts_sequence hitems, List.pairwise_map, List.pairwise_map,
    List.forall_mem_map]
  refine and_congr_right fun _ => forall₂_congr fun e he => forall₂_congr fun f _ => ?_
  rw [Entry.wrapper, Item.parts_explicit (hread e he).2, List.forall_mem_singleton]

/-- The written entries are the given ones exactly if these ascend and are canonical. -/
lemma Holds.written_eq_iff {a : AuthorizationList} {entries : List Entry} (h : a.Holds entries)
    (hread : ∀ e ∈ entries, e.Readable) :
    a.written = entries ↔ (entries.Pairwise fun d e => d.number < e.number) ∧
      ∀ e ∈ entries, ∀ f ∈ Field.ofTag? e.number, f.kind.IsCanonical e.inner := by
  have hnormal := isNormal_of_holds h hread
  have hvalue : ∀ (f : Field) (v : f.Value) (i : Item), a.value f = some v →
      ⟨f.tag, i⟩ ∈ entries → f.kind.Form v i := by
    intro f v i hv hmem
    obtain ⟨w, hw, hform⟩ := h.value_of_mem f i hmem
    rw [hv, Option.some.injEq] at hw
    rwa [hw]
  constructor
  · intro heq
    refine ⟨heq ▸ hnormal.ascending_written, fun e he f hf => ?_⟩
    -- An entry that is written is that of a field, or of a tag that is not in the table.
    rcases mem_written.mp (heq.symm ▸ he) with ⟨g, v, hv, -, rfl⟩ | ⟨t, ht, rfl⟩
    · rw [Option.mem_def, Field.ofTag?_tag, Option.some.injEq] at hf
      subst hf
      exact (Kind.item_eq_iff (hread _ he).2 (hvalue g v _ hv he)).mp rfl
    · have hnone := (hnormal.unknown t ht).1
      rw [Option.mem_def] at hf
      exact absurd (hnone.symm.trans hf) (by simp)
  · rintro ⟨hascending, hcanonical⟩
    have hirrefl : Std.Irrefl fun d e : Entry => d.number < e.number :=
      ⟨fun e => lt_irrefl e.number⟩
    have hitem : ∀ (f : Field) (v : f.Value) (i : Item), a.value f = some v →
        ⟨f.tag, i⟩ ∈ entries → f.kind.item v = i := by
      intro f v i hv hmem
      apply (Kind.item_eq_iff (hread _ hmem).2 (hvalue f v i hv hmem)).mpr
      exact hcanonical _ hmem f (Field.ofTag?_tag f)
    -- Both sides ascend, so it is enough that they have the same entries.
    refine List.Pairwise.eq_of_mem_iff hnormal.ascending_written hascending fun e => ?_
    rw [mem_written]
    constructor
    · intro hcases
      rcases hcases with ⟨f, v, hv, -, rfl⟩ | ⟨t, ht, rfl⟩
      · obtain ⟨i, hmem, -⟩ := h.mem_of_value f v hv
        rwa [hitem f v i hv hmem]
      · obtain ⟨-, i, hmem, hcontent⟩ := (h.mem_unknown t).mp ht
        have hinner : (unknownItem t).inner = i := by
          rw [unknownItem, hcontent, Item.split_octets (hread _ hmem).2, List.headD_cons]
        rwa [← hinner] at hmem
    · intro he
      obtain ⟨n, i⟩ := e
      cases hf : Field.ofTag? n with
      | some f =>
        obtain rfl : f.tag = n := Field.tag_of_ofTag? hf
        obtain ⟨v, hv, hform⟩ := h.value_of_mem f i he
        exact .inl ⟨f, v, hv, Kind.isWritten_of_form hform, by rw [hitem f v i hv he]⟩
      | none =>
        refine .inr ⟨⟨n, i.octets⟩, (h.mem_unknown _).mpr ⟨hf, i, he, rfl⟩, ?_⟩
        rw [unknownItem, Item.split_octets (hread _ he).2, List.headD_cons]

/-- A wire form is the written one exactly if it is canonical. -/
theorem item_eq_iff {a : AuthorizationList} {i : Item} (hi : i.Readable) (h : a.Form i) :
    a.item = i ↔ IsCanonical i := by
  obtain ⟨entries, -, hread, hholds, rfl⟩ := h
  rw [isCanonical_sequence_iff hread, ← hholds.written_eq_iff hread]
  constructor
  · intro heq
    have hwritten := (isNormal_of_holds hholds hread).readable_of_mem_written (heq ▸ hi)
    refine wrappers_injective hwritten hread (Item.join_injective ?_ ?_ (Item.ofType_injective heq))
    · simpa only [List.forall_mem_map] using fun e he => (hwritten e he).1
    · simpa only [List.forall_mem_map] using fun e he => (hread e he).1
  · intro heq
    rw [item, heq]

/-- What was read is written in its written form if its verified boot state fits. -/
lemma encode_eq_ok_iff_of_form {a : AuthorizationList} {i : Item} (h : a.Form i) {b : Octets} :
    a.encode = .ok b ↔ a.HasCodeState ∧ b = a.item.octets := by
  rw [(isNormal_of_form h).encode_eq_ok_iff, inRange_iff_of_form h]

/-- If what was read can be written, the written form is a wire form too. -/
lemma form_item_of_form {a : AuthorizationList} {i : Item} (h : a.Form i)
    (hstate : a.HasCodeState) (hread : a.item.Readable) : a.Form a.item :=
  (isNormal_of_form h).form_item (allWritten_of_form h) ((inRange_iff_of_form h).mpr hstate) hread

/-- A canonical form of a list is what is written of the list. -/
lemma encode_of_isCanonical {a : AuthorizationList} {input : Octets}
    (h : decode .lenient input = .ok a) (hstate : a.HasCodeState)
    (hcanonical : ∀ i ∈ Item.split input, IsCanonical i) : a.encode = .ok input := by
  obtain ⟨i, hi, rfl, hform⟩ := decode_eq_ok_iff.mp h
  rw [Item.split_octets hi, List.forall_mem_singleton] at hcanonical
  rw [encode_eq_ok_iff_of_form hform, (item_eq_iff hi hform).mpr hcanonical]
  exact ⟨hstate, rfl⟩

/-! ### Lengths -/

/-- An entry with the written form of its value instead of the form it has. -/
def rewritten (a : AuthorizationList) (e : Entry) : Entry :=
  ((Field.ofTag? e.number).bind a.fieldItem).getD e

/-- The entry of a written field is written in the form of its value. -/
lemma rewritten_field {a : AuthorizationList} {f : Field} {v : f.Value} (hv : a.value f = some v)
    (hwritten : f.kind.isWritten v = true) (i : Item) :
    a.rewritten ⟨f.tag, i⟩ = ⟨f.tag, f.kind.item v⟩ := by
  have hfield : a.fieldItem f = some ⟨f.tag, f.kind.item v⟩ :=
    fieldItem_eq_some_iff.mpr ⟨v, hv, hwritten, rfl⟩
  rw [rewritten, Field.ofTag?_tag, Option.bind_some, hfield, Option.getD_some]

/-- The entry of a tag outside the table is written as it is. -/
lemma rewritten_unknown {a : AuthorizationList} {e : Entry} (h : Field.ofTag? e.number = none) :
    a.rewritten e = e := by
  rw [rewritten, h, Option.bind_none, Option.getD_none]

/-- Each of the given entries has its written form among those that are written. -/
lemma Holds.rewritten_cases {a : AuthorizationList} {entries : List Entry} (h : a.Holds entries)
    {e : Entry} (he : e ∈ entries) :
    (∃ (f : Field) (v : f.Value), a.value f = some v ∧ f.kind.Form v e.inner ∧
      e.number = f.tag ∧ a.rewritten e = ⟨f.tag, f.kind.item v⟩) ∨
    (Field.ofTag? e.number = none ∧ a.rewritten e = e) := by
  obtain ⟨n, i⟩ := e
  cases hf : Field.ofTag? n with
  | none => exact .inr ⟨rfl, rewritten_unknown hf⟩
  | some f =>
    obtain rfl : f.tag = n := Field.tag_of_ofTag? hf
    obtain ⟨v, hv, hform⟩ := h.value_of_mem f i he
    exact .inl ⟨f, v, hv, hform, rfl, rewritten_field hv (Kind.isWritten_of_form hform) i⟩

/-- What is written are the given entries, each in its written form. -/
lemma Holds.written_perm {a : AuthorizationList} {entries : List Entry} (h : a.Holds entries)
    (hread : ∀ e ∈ entries, e.Readable) (hnodup : (entries.map Entry.number).Nodup) :
    a.written.Perm (entries.map a.rewritten) := by
  have hwritten : a.written.Nodup := by
    refine (isNormal_of_holds h hread).ascending_written.imp fun {d e} hlt => ?_
    rintro rfl
    exact lt_irrefl _ hlt
  have hnumber : ∀ e ∈ entries, (a.rewritten e).number = e.number := by
    intro e he
    rcases h.rewritten_cases he with ⟨f, v, -, -, htag, hitem⟩ | ⟨-, hsame⟩
    · rw [hitem, htag]
    · rw [hsame]
  have hnodup' : (entries.map a.rewritten).Nodup := by
    apply List.Nodup.of_map Entry.number
    rw [List.map_map]
    change (entries.map fun e => (a.rewritten e).number).Nodup
    rwa [List.map_congr_left hnumber]
  refine (List.perm_ext_iff_of_nodup hwritten hnodup').mpr fun d => ?_
  rw [mem_written, List.mem_map]
  constructor
  · intro hcases
    rcases hcases with ⟨f, v, hv, hw, rfl⟩ | ⟨t, ht, rfl⟩
    · obtain ⟨i, hmem, -⟩ := h.mem_of_value f v hv
      exact ⟨_, hmem, rewritten_field hv hw i⟩
    · obtain ⟨hnone, i, hmem, hcontent⟩ := (h.mem_unknown t).mp ht
      refine ⟨_, hmem, ?_⟩
      rw [rewritten_unknown (e := ⟨t.number, i⟩) hnone, unknownItem, hcontent,
        Item.split_octets (hread _ hmem).2, List.headD_cons]
  · rintro ⟨e, he, rfl⟩
    rcases h.rewritten_cases he with ⟨f, v, hv, hform, -, hitem⟩ | ⟨hnone, hsame⟩
    · exact .inl ⟨f, v, hv, Kind.isWritten_of_form hform, hitem⟩
    · refine .inr ⟨⟨e.number, e.inner.octets⟩, (h.mem_unknown _).mpr ⟨hnone, _, he, rfl⟩, ?_⟩
      rw [hsame, unknownItem, Item.split_octets (hread _ he).2, List.headD_cons]

/-- The written form of an entry is at most twice as long. -/
lemma Holds.length_rewritten_le {a : AuthorizationList} {entries : List Entry}
    (h : a.Holds entries) {e : Entry} (he : e ∈ entries) :
    (a.rewritten e).wrapper.octets.length ≤ 2 * e.wrapper.octets.length := by
  rcases h.rewritten_cases he with ⟨f, v, -, hform, htag, hitem⟩ | ⟨-, hsame⟩
  · rw [hitem, Entry.wrapper, Entry.wrapper, htag]
    exact Item.length_octets_double (Kind.length_item_le hform)
  · rw [hsame]
    omega

/-- The written form of a list is at most twice as long as any other. -/
theorem length_item_le {a : AuthorizationList} {i : Item} (h : a.Form i) :
    a.item.octets.length ≤ 2 * i.octets.length := by
  obtain ⟨entries, hnodup, hread, hholds, rfl⟩ := h
  apply Item.length_octets_double
  rw [Item.length_join_of_perm ((hholds.written_perm hread hnodup).map Entry.wrapper),
    List.map_map]
  exact Item.length_join_map_double fun e he => hholds.length_rewritten_le he

end AuthorizationList

end AttestedKey
