import AttestedKey.Proofs.Kind

/-!
# The wire forms of an authorization list

An `Entry` is a tag number with the one item that its wrapper holds.
`AuthorizationList.Holds a entries` says that `a` has just the values and the unknown tags that the
entries describe, and `AuthorizationList.Form a i` that `i` is a sequence of the wrappers of such
entries, no two with the same number.  Reading a wrapper adds one entry (`addWrapper_eq_ok_iff`),
and what the loop has read is what the entries so far describe (`Progress.Met`).  So lenient reading
accepts just the wire forms (`decode_eq_ok_iff`), each of one list only (`Holds.unique`).
-/

namespace AttestedKey

open Der Outcome

/-! ### Tags outside the table -/

namespace UnknownTag

/-- The tags stand by strictly ascending number. -/
def Ascending (tags : List UnknownTag) : Prop := tags.Pairwise fun t u => t.number < u.number

/-- Ascending tags are determined by which ones they are. -/
lemma Ascending.eq_of_mem_iff {tags tags' : List UnknownTag} (h : Ascending tags)
    (h' : Ascending tags') (hmem : ∀ t, t ∈ tags ↔ t ∈ tags') : tags = tags' := by
  have hirrefl : Std.Irrefl fun t u : UnknownTag => t.number < u.number :=
    ⟨fun t => lt_irrefl t.number⟩
  exact List.Pairwise.eq_of_mem_iff h h' hmem

/-- A placed tag stands among the others. -/
lemma mem_place_self (t : UnknownTag) (tags : List UnknownTag) : t ∈ t.place tags := by
  induction tags with
  | nil => exact List.mem_singleton_self t
  | cons first rest ih =>
    unfold place
    split
    · exact List.mem_cons_self ..
    split
    · exact List.mem_cons_self ..
    · exact List.mem_cons_of_mem _ ih

/-- A tag with another number keeps its place. -/
lemma mem_place_of_mem {t u : UnknownTag} {tags : List UnknownTag} (hu : u ∈ tags)
    (hne : u.number ≠ t.number) : u ∈ t.place tags := by
  induction tags with
  | nil => cases hu
  | cons first rest ih =>
    unfold place
    split
    · exact List.mem_cons_of_mem _ hu
    split
    next heq =>
      rcases List.mem_cons.mp hu with rfl | hu
      · exact absurd heq.symm hne
      · exact List.mem_cons_of_mem _ hu
    next =>
      rcases List.mem_cons.mp hu with rfl | hu
      · exact List.mem_cons_self ..
      · exact List.mem_cons_of_mem _ (ih hu)

/-- A placed tag stands among those with other numbers. -/
lemma mem_place {t u : UnknownTag} {tags : List UnknownTag} (h : Ascending tags) :
    u ∈ t.place tags ↔ u = t ∨ u ∈ tags ∧ u.number ≠ t.number := by
  -- The tags behind one with a larger number have larger numbers too, so none of them is replaced.
  induction tags with
  | nil => simp [place]
  | cons first rest ih =>
    obtain ⟨hfirst, hrest⟩ := List.pairwise_cons.mp h
    unfold place
    split
    next hlt =>
      have hother : ∀ x ∈ first :: rest, x.number ≠ t.number := by
        intro x hx
        rcases List.mem_cons.mp hx with rfl | hx
        · omega
        · have := hfirst x hx
          omega
      rw [List.mem_cons]
      exact or_congr_right ⟨fun hu => ⟨hu, hother u hu⟩, fun hu => hu.1⟩
    split
    next heq =>
      have hother : ∀ x ∈ rest, x.number ≠ t.number := by
        intro x hx
        have := hfirst x hx
        omega
      rw [List.mem_cons, List.mem_cons]
      refine or_congr_right ⟨fun hu => ⟨.inr hu, hother u hu⟩, ?_⟩
      rintro ⟨rfl | hu, hne⟩
      · exact absurd heq.symm hne
      · exact hu
    next hge hne =>
      rw [List.mem_cons, ih hrest, List.mem_cons]
      constructor
      · rintro (rfl | rfl | ⟨hu, hne'⟩)
        · exact .inr ⟨.inl rfl, fun heq => hne heq.symm⟩
        · exact .inl rfl
        · exact .inr ⟨.inr hu, hne'⟩
      · rintro (rfl | ⟨rfl | hu, hne'⟩)
        · exact .inr (.inl rfl)
        · exact .inl rfl
        · exact .inr (.inr ⟨hu, hne'⟩)

/-- Placing a tag keeps the order strict. -/
lemma ascending_place (t : UnknownTag) {tags : List UnknownTag} (h : Ascending tags) :
    Ascending (t.place tags) := by
  induction tags with
  | nil => exact List.pairwise_singleton ..
  | cons first rest ih =>
    obtain ⟨hfirst, hrest⟩ := List.pairwise_cons.mp h
    unfold place
    split
    next hlt =>
      refine List.pairwise_cons.mpr ⟨fun x hx => ?_, h⟩
      rcases List.mem_cons.mp hx with rfl | hx
      · exact hlt
      · exact hlt.trans (hfirst x hx)
    split
    next heq =>
      refine List.pairwise_cons.mpr ⟨fun x hx => ?_, hrest⟩
      rw [heq]
      exact hfirst x hx
    next hge hne =>
      refine List.pairwise_cons.mpr ⟨fun x hx => ?_, ih hrest⟩
      rcases (mem_place hrest).mp hx with rfl | ⟨hx, -⟩
      · omega
      · exact hfirst x hx

end UnknownTag

namespace AuthorizationList

/-! ### Entries -/

/-- A tag number with the item that its wrapper holds. -/
structure Entry where
  /-- The number of the tag. -/
  number : ℕ
  /-- What the wrapper holds. -/
  inner : Item
  deriving DecidableEq

/-- The wrapper of an entry. -/
def Entry.wrapper (e : Entry) : Item := .explicit e.number e.inner

/-- A reader can read the wrapper of an entry and what it holds. -/
def Entry.Readable (e : Entry) : Prop := e.wrapper.Readable ∧ e.inner.Readable

/-- Readable wrappers tell their entries apart. -/
lemma wrappers_injective {entries entries' : List Entry} (h : ∀ e ∈ entries, e.Readable)
    (h' : ∀ e ∈ entries', e.Readable)
    (heq : entries.map Entry.wrapper = entries'.map Entry.wrapper) : entries = entries' := by
  induction entries generalizing entries' with
  | nil => exact (List.map_eq_nil_iff.mp heq.symm).symm
  | cons e entries ih =>
    obtain ⟨e', rest, rfl, hwrapper, hrest⟩ := List.map_eq_cons_iff.mp heq.symm
    obtain ⟨he, h⟩ := List.forall_mem_cons.mp h
    obtain ⟨he', h'⟩ := List.forall_mem_cons.mp h'
    obtain ⟨hnumber, hinner⟩ := Item.explicit_injective he'.2 he.2 hwrapper
    rw [ih h h' hrest.symm]
    cases e
    cases e'
    exact congrArg (· :: rest) (congrArg₂ Entry.mk hnumber.symm hinner.symm)

/-- A list has just the values and the unknown tags that some entries describe. -/
structure Holds (a : AuthorizationList) (entries : List Entry) : Prop where
  /-- Each entry of a field is a form of its value. -/
  value_of_mem : ∀ (f : Field) (i : Item), ⟨f.tag, i⟩ ∈ entries →
    ∃ v, a.value f = some v ∧ f.kind.Form v i
  /-- Each value has an entry. -/
  mem_of_value : ∀ (f : Field) (v : f.Value), a.value f = some v →
    ∃ i : Item, ⟨f.tag, i⟩ ∈ entries ∧ f.kind.Form v i
  /-- The unknown tags are in order. -/
  ascending : UnknownTag.Ascending a.unknown
  /-- The unknown tags are the other entries. -/
  mem_unknown : ∀ t : UnknownTag, t ∈ a.unknown ↔
    Field.ofTag? t.number = none ∧ ∃ i : Item, ⟨t.number, i⟩ ∈ entries ∧ t.content = i.octets

/-- An item is a wire form of a list. -/
def Form (a : AuthorizationList) (i : Item) : Prop :=
  ∃ entries : List Entry, (entries.map Entry.number).Nodup ∧ (∀ e ∈ entries, e.Readable) ∧
    a.Holds entries ∧ i = .sequence (entries.map Entry.wrapper)

/-- One more entry makes one list of another. -/
inductive Adds (a : AuthorizationList) : Entry → AuthorizationList → Prop
  /-- The entry of a field gives it a value. -/
  | field {f : Field} {v : f.Value} {i : Item} (h : f.kind.Form v i) : Adds a ⟨f.tag, i⟩ (a.set f v)
  /-- Any other entry is kept as it is. -/
  | unknown {n : ℕ} {i : Item} (h : Field.ofTag? n = none) :
    Adds a ⟨n, i⟩ (a.setUnknown ⟨n, i.octets⟩)

/-- Two lists that the same readable entries describe are the same. -/
theorem Holds.unique {a b : AuthorizationList} {entries : List Entry}
    (hread : ∀ e ∈ entries, e.Readable) (ha : a.Holds entries) (hb : b.Holds entries) :
    a = b := by
  have hsub : ∀ {c d : AuthorizationList}, c.Holds entries → d.Holds entries →
      ∀ (f : Field) (v : f.Value), c.value f = some v → d.value f = some v := by
    intro c d hc hd f v hv
    obtain ⟨i, hmem, hform⟩ := hc.mem_of_value f v hv
    obtain ⟨w, hw, hform'⟩ := hd.value_of_mem f i hmem
    rw [hw, Kind.form_unique (hread _ hmem).2 hform hform']
  rw [ext_iff]
  constructor
  · intro f _
    exact Option.ext fun v => ⟨hsub ha hb f v, hsub hb ha f v⟩
  · refine ha.ascending.eq_of_mem_iff hb.ascending fun t => ?_
    rw [ha.mem_unknown, hb.mem_unknown]

/-- The empty list holds no entries. -/
lemma holds_empty : empty.Holds [] where
  value_of_mem := fun _ _ h => absurd h List.not_mem_nil
  mem_of_value := fun _ _ h => by cases h
  ascending := .nil
  mem_unknown := fun t => by simp [empty]

/-- A field that has no entry yet is given a value by one more entry. -/
lemma Holds.set {a : AuthorizationList} {entries : List Entry} {f : Field} {v : f.Value} {i : Item}
    (h : a.Holds entries) (hnew : ∀ e ∈ entries, e.number ≠ f.tag) (hform : f.kind.Form v i) :
    (a.set f v).Holds (entries ++ [⟨f.tag, i⟩]) := by
  refine ⟨fun g j hmem => ?_, fun g w hw => ?_, h.ascending, fun t => ?_⟩
  · rcases List.mem_append.mp hmem with hold | hmem
    · have hne : g ≠ f := by
        rintro rfl
        exact hnew _ hold rfl
      obtain ⟨w, hw, hform⟩ := h.value_of_mem g j hold
      exact ⟨w, by rwa [AuthorizationList.set, value_assign_of_ne _ _ hne], hform⟩
    · obtain ⟨htag, rfl⟩ := Entry.mk.inj (List.mem_singleton.mp hmem)
      have hfield := Field.ofTag?_tag g
      rw [htag, Field.ofTag?_tag, Option.some.injEq] at hfield
      subst hfield
      exact ⟨v, value_assign_self .., hform⟩
  · by_cases hne : g = f
    · subst hne
      rw [AuthorizationList.set, value_assign_self, Option.some.injEq] at hw
      subst hw
      exact ⟨i, List.mem_append_right _ (List.mem_singleton_self _), hform⟩
    · rw [AuthorizationList.set, value_assign_of_ne _ _ hne] at hw
      obtain ⟨j, hmem, hform⟩ := h.mem_of_value g w hw
      exact ⟨j, List.mem_append_left _ hmem, hform⟩
  · rw [AuthorizationList.set, unknown_assign, h.mem_unknown]
    refine and_congr_right fun hnone => exists_congr fun j => and_congr_left fun _ => ?_
    rw [List.mem_append, List.mem_singleton, Entry.mk.injEq]
    have hne : t.number ≠ f.tag := by
      intro heq
      rw [heq, Field.ofTag?_tag] at hnone
      cases hnone
    simp [hne]

/-- A tag outside the table that has no entry yet is kept by one more entry. -/
lemma Holds.setUnknown {a : AuthorizationList} {entries : List Entry} {n : ℕ} {i : Item}
    (h : a.Holds entries) (hnew : ∀ e ∈ entries, e.number ≠ n) (hnone : Field.ofTag? n = none) :
    (a.setUnknown ⟨n, i.octets⟩).Holds (entries ++ [⟨n, i⟩]) := by
  have hfield : ∀ g : Field, g.tag ≠ n := by
    rintro g rfl
    rw [Field.ofTag?_tag] at hnone
    cases hnone
  refine ⟨fun g j hmem => ?_, fun g w hw => ?_, UnknownTag.ascending_place _ h.ascending,
    fun t => ?_⟩
  · rcases List.mem_append.mp hmem with hmem | hmem
    · exact h.value_of_mem g j hmem
    · exact absurd (Entry.mk.inj (List.mem_singleton.mp hmem)).1 (hfield g)
  · obtain ⟨j, hmem, hform⟩ := h.mem_of_value g w hw
    exact ⟨j, List.mem_append_left _ hmem, hform⟩
  · change t ∈ UnknownTag.place _ a.unknown ↔ _
    rw [UnknownTag.mem_place h.ascending, h.mem_unknown]
    constructor
    · intro hcases
      rcases hcases with rfl | ⟨⟨hnone', j, hmem, hcontent⟩, -⟩
      · exact ⟨hnone, i, List.mem_append_right _ (List.mem_singleton_self _), rfl⟩
      · exact ⟨hnone', j, List.mem_append_left _ hmem, hcontent⟩
    · intro hcases
      rcases hcases with ⟨hnone', j, hmem, hcontent⟩
      rcases List.mem_append.mp hmem with hmem | hmem
      · exact .inr ⟨⟨hnone', j, hmem, hcontent⟩, hnew _ hmem⟩
      · obtain ⟨hnumber, rfl⟩ := Entry.mk.inj (List.mem_singleton.mp hmem)
        left
        cases t
        exact congrArg₂ UnknownTag.mk hnumber hcontent

/-- An entry with a new number is added to those that a list holds. -/
theorem Holds.append {a a' : AuthorizationList} {entries : List Entry} {e : Entry}
    (h : a.Holds entries) (hnew : ∀ d ∈ entries, d.number ≠ e.number) (hadd : a.Adds e a') :
    a'.Holds (entries ++ [e]) := by
  cases hadd with
  | field hform => exact h.set hnew hform
  | unknown hnone => exact h.setUnknown hnew hnone

/-! ### Reading -/

/-- A wrapper is read if it holds just one item that can be read. -/
lemma sole_eq_ok_iff {α : Type} {w : Item} {o : ℕ} {expected : String}
    {interpret : Element → Except Fault α} {v : α} :
    sole (w.placed o) expected interpret = .ok v ↔
      ∃ i : Item, i.Readable ∧ w.content = i.octets ∧
        interpret (i.placed (o + w.header.length)) = .ok v := by
  unfold sole
  rw [Item.inside_placed]
  refine Cursor.read_last_eq_ok_iff.trans ?_
  constructor
  · rintro ⟨i, v', hi, hcontent, hv, h⟩
    obtain rfl : v' = v := Except.ok.inj h
    exact ⟨i, hi, hcontent, hv⟩
  · rintro ⟨i, hi, hcontent, hv⟩
    exact ⟨i, v, hi, hcontent, hv, rfl⟩

/-- Reads a wrapper for the field of its number, if there is one. -/
def addByTag (rigor : Rigor) (a : AuthorizationList) (wrapper : Element) :
    Except Fault AuthorizationList :=
  match Field.ofTag? wrapper.tag.number with
  | none => addUnknown rigor a wrapper
  | some f => addField rigor a f wrapper

/-- Reading a wrapper checks its tag and its number and then goes by the field. -/
lemma addWrapper_eq (rigor : Rigor) (p : Progress) (wrapper : Element) :
    addWrapper rigor p wrapper =
      if !wrapper.tag.isExplicit then malformedAt wrapper.offset (.notExplicit wrapper.tag)
      else if p.seen.contains wrapper.tag.number then
        malformedAt wrapper.offset (.repeatedTag wrapper.tag.number)
      else addByTag rigor p.list wrapper >>= fun list =>
        .ok ⟨list, wrapper.tag.number :: p.seen⟩ := by
  unfold addWrapper addByTag
  split
  · rfl
  · simp only
    split
    · rfl
    · cases Field.ofTag? wrapper.tag.number <;> rfl

/-- A wrapper adds its one entry. -/
lemma addByTag_eq_ok_iff {a a' : AuthorizationList} {w : Item} {o : ℕ}
    (hw : w.tag = .explicit w.tag.number) :
    addByTag .lenient a (w.placed o) = .ok a' ↔
      ∃ e : Entry, e.inner.Readable ∧ w = e.wrapper ∧ a.Adds e a' := by
  have hwrapper {i : Item} (hcontent : w.content = i.octets) :
      w = Entry.wrapper ⟨w.tag.number, i⟩ := by
    cases w
    exact congrArg₂ Item.mk hw hcontent
  unfold addByTag
  rw [Item.tag_placed]
  constructor
  · intro h
    split at h
    next hnone =>
      obtain ⟨e, he, h⟩ := bind_eq_ok_iff.mp h
      obtain ⟨i, hi, hcontent, -⟩ := sole_eq_ok_iff.mp he
      obtain rfl : _ = a' := Except.ok.inj h
      refine ⟨⟨w.tag.number, i⟩, hi, hwrapper hcontent, ?_⟩
      rw [Item.tag_placed, Item.content_placed, hcontent]
      exact .unknown hnone
    next f hsome =>
      obtain ⟨v, hv, h⟩ := bind_eq_ok_iff.mp h
      obtain ⟨i, hi, hcontent, hform⟩ := sole_eq_ok_iff.mp hv
      obtain rfl : _ = a' := Except.ok.inj h
      refine ⟨⟨w.tag.number, i⟩, hi, hwrapper hcontent, ?_⟩
      rw [← Field.tag_of_ofTag? hsome]
      exact .field ((Kind.ofElement_eq_ok_iff hi).mp hform)
  · rintro ⟨e, hi, rfl, hadd⟩
    cases hadd with
    | @field f v i hform =>
      change (match Field.ofTag? f.tag with | none => _ | some f => _) = _
      rw [Field.ofTag?_tag]
      exact bind_eq_ok_iff.mpr ⟨v,
        sole_eq_ok_iff.mpr ⟨i, hi, rfl, (Kind.ofElement_eq_ok_iff hi).mpr hform⟩, rfl⟩
    | @unknown n i hnone =>
      change (match Field.ofTag? n with | none => _ | some f => _) = _
      rw [hnone]
      exact bind_eq_ok_iff.mpr ⟨_, sole_eq_ok_iff.mpr ⟨i, hi, rfl, rfl⟩, rfl⟩

/-- A wrapper is read if its number is new, and adds its entry to the list. -/
theorem addWrapper_eq_ok_iff {p p' : Progress} {w : Item} {o : ℕ} :
    addWrapper .lenient p (w.placed o) = .ok p' ↔
      ∃ e : Entry, e.inner.Readable ∧ w = e.wrapper ∧ e.number ∉ p.seen ∧
        p.list.Adds e p'.list ∧ p'.seen = e.number :: p.seen := by
  rw [addWrapper_eq, Item.tag_placed]
  constructor
  · intro h
    split at h
    · cases h
    next hexplicit =>
      have hw : w.tag = .explicit w.tag.number := by simpa [Tag.isExplicit_iff] using hexplicit
      split at h
      · cases h
      next hnew =>
        obtain ⟨a', ha', h⟩ := bind_eq_ok_iff.mp h
        obtain ⟨e, hi, rfl, hadd⟩ := (addByTag_eq_ok_iff hw).mp ha'
        obtain rfl : _ = p' := Except.ok.inj h
        exact ⟨e, hi, rfl, fun hmem => hnew (List.contains_iff_mem.mpr hmem), hadd, rfl⟩
  · intro h
    rcases h with ⟨e, hi, rfl, hnew, hadd, hseen⟩
    have hexplicit : e.wrapper.tag.isExplicit = true := (Tag.isExplicit_iff _).mpr rfl
    have hseen' : ¬ p.seen.contains e.wrapper.tag.number = true := by
      rw [List.contains_iff_mem]
      exact hnew
    rw [if_neg (by simp [hexplicit]), if_neg hseen']
    refine bind_eq_ok_iff.mpr ⟨p'.list, (addByTag_eq_ok_iff rfl).mpr ⟨e, hi, rfl, hadd⟩, ?_⟩
    cases p'
    exact congrArg Except.ok (congrArg (Progress.mk _) hseen.symm)

/-- What has been read is what some entries describe. -/
structure Progress.Met (p : Progress) (entries : List Entry) : Prop where
  /-- The tags that were met are those of the entries, the last one first. -/
  seen : p.seen = (entries.map Entry.number).reverse
  /-- No tag was met twice. -/
  nodup : (entries.map Entry.number).Nodup
  /-- The list is the one that the entries describe. -/
  holds : p.list.Holds entries

/-- Nothing has been met before the first wrapper. -/
lemma Progress.met_start : Progress.start.Met [] := ⟨rfl, .nil, holds_empty⟩

/-- Reading one wrapper keeps the invariant, with one entry more. -/
lemma Progress.Met.step {p p' : Progress} {entries : List Entry} {e : Entry} (h : p.Met entries)
    (hnew : e.number ∉ p.seen) (hadd : p.list.Adds e p'.list)
    (hseen : p'.seen = e.number :: p.seen) : p'.Met (entries ++ [e]) := by
  have hout : e.number ∉ entries.map Entry.number := by
    rwa [h.seen, List.mem_reverse] at hnew
  refine ⟨?_, ?_, h.holds.append (fun d hd heq => hout ?_) hadd⟩
  · rw [hseen, h.seen, List.map_append, List.reverse_append]
    rfl
  · rw [List.map_append, List.nodup_append]
    refine ⟨h.nodup, List.nodup_singleton _, ?_⟩
    rintro _ hn _ hm rfl
    rw [List.map_singleton, List.mem_singleton] at hm
    exact hout (hm ▸ hn)
  · exact List.mem_map.mpr ⟨d, hd, heq⟩

/-- The loop over some wrappers keeps the invariant. -/
theorem Progress.Met.run {items : List Item} (hitems : ∀ i ∈ items, i.Readable) {o : ℕ}
    {p p' : Progress} {entries : List Entry} (h : p.Met entries)
    (hrun : (Item.layout o items).foldlM (addWrapper .lenient) p = .ok p') :
    ∃ new : List Entry, (∀ e ∈ new, e.Readable) ∧ items = new.map Entry.wrapper ∧
      p'.Met (entries ++ new) := by
  -- On the wrappers: what the list holds after each of them is what was held before and its entry.
  induction items generalizing o p entries with
  | nil =>
    obtain rfl : p = p' := Except.ok.inj hrun
    exact ⟨[], by simp, rfl, by rwa [List.append_nil]⟩
  | cons i items ih =>
    obtain ⟨hi, hrest⟩ := List.forall_mem_cons.mp hitems
    obtain ⟨p₁, hstep, hrun⟩ := foldlM_cons_eq_ok_iff.mp hrun
    obtain ⟨e, he, rfl, hnew, hadd, hseen⟩ := addWrapper_eq_ok_iff.mp hstep
    obtain ⟨new, hread, rfl, hmet⟩ := ih hrest (h.step hnew hadd hseen) hrun
    refine ⟨e :: new, List.forall_mem_cons.mpr ⟨⟨hi, he⟩, hread⟩, rfl, ?_⟩
    rwa [List.append_assoc, List.singleton_append] at hmet

/-- The loop over the wrappers of acceptable entries with new numbers reaches the end. -/
lemma Progress.run_of_acceptable {new : List Entry} (hread : ∀ e ∈ new, e.Readable)
    (haccept : ∀ e ∈ new, ∀ f, Field.ofTag? e.number = some f → ∃ v, f.kind.Form v e.inner)
    (hnodup : (new.map Entry.number).Nodup) (o : ℕ) {p : Progress}
    (hout : ∀ e ∈ new, e.number ∉ p.seen) :
    ∃ p', (Item.layout o (new.map Entry.wrapper)).foldlM (addWrapper .lenient) p = .ok p' := by
  induction new generalizing o p with
  | nil => exact ⟨p, rfl⟩
  | cons e new ih =>
    obtain ⟨he, hread⟩ := List.forall_mem_cons.mp hread
    obtain ⟨hfield, haccept⟩ := List.forall_mem_cons.mp haccept
    obtain ⟨hnew, hout⟩ := List.forall_mem_cons.mp hout
    obtain ⟨hfresh, hnodup⟩ := List.nodup_cons.mp hnodup
    have hadd : ∃ a', p.list.Adds e a' := by
      cases hf : Field.ofTag? e.number with
      | none => exact ⟨_, .unknown hf⟩
      | some f =>
        obtain ⟨v, hv⟩ := hfield f hf
        obtain ⟨n, i⟩ := e
        obtain rfl : f.tag = n := Field.tag_of_ofTag? hf
        exact ⟨_, .field hv⟩
    obtain ⟨a', hadd⟩ := hadd
    have hstep : addWrapper .lenient p (e.wrapper.placed o) = .ok ⟨a', e.number :: p.seen⟩ :=
      addWrapper_eq_ok_iff.mpr ⟨e, he.2, rfl, hnew, hadd, rfl⟩
    have hout' : ∀ d ∈ new, d.number ∉ e.number :: p.seen := by
      intro d hd hmem
      rcases List.mem_cons.mp hmem with heq | hmem
      · exact hfresh (List.mem_map.mpr ⟨d, hd, heq⟩)
      · exact hout d hd hmem
    obtain ⟨p', hp'⟩ := ih hread haccept hnodup (o + e.wrapper.octets.length)
      (p := ⟨a', e.number :: p.seen⟩) hout'
    exact ⟨p', foldlM_cons_eq_ok_iff.mpr ⟨_, hstep, hp'⟩⟩

/-- A region holds a list if it is made of the wrappers of entries that describe the list. -/
theorem ofRegion_eq_ok_iff {o : ℕ} {content : Octets} {a : AuthorizationList} :
    ofRegion .lenient ⟨o, content, 0⟩ = .ok a ↔
      ∃ entries : List Entry, (entries.map Entry.number).Nodup ∧ (∀ e ∈ entries, e.Readable) ∧
        a.Holds entries ∧ content = Item.join (entries.map Entry.wrapper) := by
  unfold ofRegion
  rw [bind_eq_ok_iff]
  constructor
  · rintro ⟨p, hp, h⟩
    obtain ⟨items, hitems, rfl, hrun⟩ := (Cursor.foldlM_walk_eq_ok_iff rfl).mp hp
    obtain ⟨entries, hread, rfl, hmet⟩ := Progress.met_start.run hitems hrun
    rw [List.nil_append] at hmet
    obtain rfl : p.list = a := Except.ok.inj h
    exact ⟨entries, hmet.nodup, hread, hmet.holds, rfl⟩
  · intro h
    rcases h with ⟨entries, hnodup, hread, hholds, rfl⟩
    have hitems : ∀ i ∈ entries.map Entry.wrapper, i.Readable := by
      simpa only [List.forall_mem_map] using fun e he => (hread e he).1
    have haccept : ∀ e ∈ entries, ∀ f, Field.ofTag? e.number = some f →
        ∃ v, f.kind.Form v e.inner := by
      rintro ⟨n, i⟩ he f hf
      obtain rfl : f.tag = n := Field.tag_of_ofTag? hf
      obtain ⟨v, -, hform⟩ := hholds.value_of_mem f i he
      exact ⟨v, hform⟩
    obtain ⟨p, hrun⟩ := Progress.run_of_acceptable hread haccept hnodup o
      (p := .start) fun _ _ h => absurd h List.not_mem_nil
    obtain ⟨new, hread', hnew, hmet⟩ := Progress.met_start.run hitems hrun
    rw [List.nil_append] at hmet
    obtain rfl : entries = new := wrappers_injective hread hread' hnew
    refine ⟨p, (Cursor.foldlM_walk_eq_ok_iff rfl).mpr ⟨_, hitems, rfl, hrun⟩, ?_⟩
    rw [hmet.holds.unique hread hholds]
    rfl

/-- An input holds a list if it is one of its wire forms. -/
theorem decode_eq_ok_iff {input : Octets} {a : AuthorizationList} :
    decode .lenient input = .ok a ↔ ∃ i : Item, i.Readable ∧ input = i.octets ∧ a.Form i := by
  refine Cursor.read_last_eq_ok_iff.trans ?_
  constructor
  · rintro ⟨i, c, hi, hinput, hc, h⟩
    obtain ⟨content, rfl, rfl⟩ := Element.toSequence_eq_ok_iff.mp hc
    obtain ⟨entries, hnodup, hread, hholds, rfl⟩ := ofRegion_eq_ok_iff.mp h
    exact ⟨_, hi, hinput, entries, hnodup, hread, hholds, rfl⟩
  · rintro ⟨_, hi, hinput, entries, hnodup, hread, hholds, rfl⟩
    refine ⟨_, _, hi, hinput, Element.toSequence_eq_ok_iff.mpr ⟨_, rfl, rfl⟩, ?_⟩
    exact ofRegion_eq_ok_iff.mpr ⟨entries, hnodup, hread, hholds, rfl⟩

end AuthorizationList

end AttestedKey
