import AttestedKey.Proofs.AuthorizationList.Form

/-!
# The grammar of an authorization list

`Kind.Accepts k i` is the type that the field table gives to the fields of a kind, said of an item
without any value: a number up to a maximum, a set of distinct numbers of 32 bits, a null, and so
on.  `AuthorizationList.Grammar input entries` says that an input is one sequence of wrappers with
distinct numbers, each around exactly one item, which has the type of its field if its number is in
the table.

Lenient reading accepts exactly the inputs with such entries (`decode_ok_iff_grammar`).  An input
has its entries in one way only (`Grammar.unique`), so they say what the value of every field is and
which other tags there are.
-/

namespace AttestedKey

open Der Outcome

/-! ### The types of the fields -/

/-- An item is a root of trust: a key, one octet for a truth value, a state that is not negative,
and possibly a hash. -/
def RootOfTrust.Accepts (i : Item) : Prop :=
  ∃ (key : Octets) (locked : UInt8) (state : ℕ) (hash : Option Octets),
    i = .sequence ([.octetString key, .boolean locked, .enumerated state] ++
      hash.toList.map Item.octetString)

/-- An item has the type that the fields of a kind have. -/
def Kind.Accepts : Kind → Item → Prop
  | .integer maximum, i => ∃ n : ℤ, (0 ≤ n ∧ n ≤ maximum) ∧ i = .integer n
  | .member _, i => ∃ n : ℤ, IsCode n ∧ i = .integer n
  | .members _, i => ∃ codes : List ℤ, codes.Nodup ∧ (∀ c ∈ codes, IsCode c) ∧
      i = .set (codes.map Item.integer)
  | .authenticators, i => (∃ n : ℤ, IsCode n ∧ i = .integer n) ∨
      ∃ codes : List ℤ, (∀ c ∈ codes, IsCode c) ∧ i = .set (codes.map Item.integer)
  | .flag, i => i = .null
  | .octets, i => ∃ content : Octets, i = .octetString content
  | .rootOfTrust, i => RootOfTrust.Accepts i
  | .applicationId, i => ∃ content : Octets, i = .octetString content ∧
      ∃ a, ApplicationId.decode content = .ok a

/-- What is accepted as a root of trust is the form of one. -/
lemma RootOfTrust.accepts_iff {i : Item} : Accepts i ↔ ∃ r : RootOfTrust, r.Form i := by
  constructor
  · rintro ⟨key, locked, state, hash, rfl⟩
    refine ⟨⟨key, locked != 0, .ofCode _ state, hash⟩, ?_, locked, rfl, ?_⟩
    · rw [Slot.code_ofCode]
      exact Int.natCast_nonneg state
    · rw [itemsWith, Slot.code_ofCode]
  · rintro ⟨r, hnonneg, locked, -, rfl⟩
    obtain ⟨state, hstate⟩ := Int.eq_ofNat_of_zero_le hnonneg
    refine ⟨r.verifiedBootKey, locked, state, r.verifiedBootHash, ?_⟩
    rw [itemsWith, hstate]

/-- A set of distinct numbers is a form of the set of their slots. -/
lemma Kind.exists_members_form {v : Vocabulary} {codes : List ℤ} (hnodup : codes.Nodup)
    (hcodes : ∀ c ∈ codes, IsCode c) :
    ∃ s, (members v).Form s (.set (codes.map Item.integer)) := by
  have hslots : (codes.map (Slot.ofCode v)).Nodup := by
    refine hnodup.map fun c d heq => ?_
    have hcode := congrArg Slot.code heq
    rwa [Slot.code_ofCode, Slot.code_ofCode] at hcode
  have hitems : codes.map Item.integer = (codes.map (Slot.ofCode v)).map Slot.item := by
    rw [List.map_map]
    refine List.map_congr_left fun c _ => ?_
    rw [Function.comp_apply, Slot.item, Slot.code_ofCode]
  refine ⟨.ofList (codes.map (Slot.ofCode v)), codes.map (Slot.ofCode v),
    (OrderedSet.toList_ofList_perm hslots).symm, ?_, congrArg Item.set hitems⟩
  rw [List.forall_mem_map]
  intro c hc
  rw [Slot.code_ofCode]
  exact hcodes c hc

/-- An item has the type of a kind exactly if it is a wire form of some value. -/
theorem Kind.accepts_iff {k : Kind} {i : Item} : k.Accepts i ↔ ∃ v, k.Form v i := by
  cases k with
  | integer maximum => exact Iff.rfl
  | member w =>
    constructor
    · rintro ⟨n, hn, rfl⟩
      refine ⟨.ofCode w n, ?_, ?_⟩
      · rwa [Slot.code_ofCode]
      · rw [Slot.item, Slot.code_ofCode]
    · rintro ⟨s, hs, rfl⟩
      exact ⟨s.code, hs, rfl⟩
  | members w =>
    constructor
    · rintro ⟨codes, hnodup, hcodes, rfl⟩
      exact exists_members_form hnodup hcodes
    · rintro ⟨s, slots, hslots, hcodes, rfl⟩
      have hnodup : slots.Nodup := hslots.nodup_iff.mpr (OrderedSet.nodup_toList s)
      refine ⟨slots.map Slot.code, hnodup.map fun _ _ => Slot.code_injective, ?_, ?_⟩
      · exact List.forall_mem_map.mpr hcodes
      · rw [List.map_map]
        rfl
  | authenticators =>
    constructor
    · rintro (⟨n, hn, rfl⟩ | ⟨codes, hcodes, rfl⟩)
      · exact ⟨_, n, rfl, .inl ⟨hn, rfl⟩⟩
      · exact ⟨_, Authenticators.mask codes, rfl, .inr ⟨codes, hcodes, rfl, rfl⟩⟩
    · rintro ⟨s, m, -, ⟨hm, rfl⟩ | ⟨codes, hcodes, -, rfl⟩⟩
      · exact .inl ⟨m, hm, rfl⟩
      · exact .inr ⟨codes, hcodes, rfl⟩
  | flag =>
    constructor
    · intro hi
      exact ⟨.raised, rfl, hi⟩
    · rintro ⟨-, -, hi⟩
      exact hi
  | octets => exact Iff.rfl
  | rootOfTrust => exact RootOfTrust.accepts_iff
  | applicationId =>
    constructor
    · rintro ⟨content, rfl, a, ha⟩
      obtain ⟨j, hj, rfl, hform⟩ := ApplicationId.ofRegion_eq_ok_iff.mp ha
      exact ⟨a, j, hj, hform, rfl⟩
    · rintro ⟨a, j, hj, hform, rfl⟩
      exact ⟨j.octets, rfl, a, ApplicationId.ofRegion_eq_ok_iff.mpr ⟨j, hj, rfl, hform⟩⟩

namespace AuthorizationList

/-! ### The grammar -/

/-- An input is one sequence of the wrappers of some entries, with nothing after it. -/
structure Grammar (input : Octets) (entries : List Entry) : Prop where
  /-- The input is the sequence of the wrappers. -/
  octets : input = (Item.sequence (entries.map Entry.wrapper)).octets
  /-- The length of the sequence has at most four digits. -/
  length_lt : (Item.join (entries.map Entry.wrapper)).length < 2 ^ 32
  /-- The numbers are distinct. -/
  nodup : (entries.map Entry.number).Nodup
  /-- The numbers have at most four digits, and so have those of the items in the wrappers. -/
  number_lt : ∀ e ∈ entries, e.number < 2 ^ 28 ∧ e.inner.tag.number < 2 ^ 28
  /-- What stands in the wrapper of a field has its type. -/
  accepts : ∀ e ∈ entries, ∀ f ∈ Field.ofTag? e.number, f.kind.Accepts e.inner

namespace Grammar

variable {input : Octets} {entries : List Entry}

/-- A reader can read the sequence. -/
lemma readable_sequence (h : Grammar input entries) :
    (Item.sequence (entries.map Entry.wrapper)).Readable :=
  ⟨Item.number_lt_of_ofType _ _, h.length_lt⟩

/-- A reader can read the wrappers and what they hold. -/
lemma readable (h : Grammar input entries) : ∀ e ∈ entries, e.Readable := by
  intro e he
  obtain ⟨hnumber, hinner⟩ := h.number_lt e he
  have hwrappers : ∀ w ∈ entries.map Entry.wrapper, w.Readable := by
    refine Item.readable_of_join (List.forall_mem_map.mpr fun d hd => ?_) h.length_lt
    exact (h.number_lt d hd).1
  have hwrapper : e.wrapper.Readable := hwrappers _ (List.mem_map_of_mem he)
  exact ⟨hwrapper, Item.readable_of_octets hinner hwrapper.length_lt⟩

/-- What the wrapper of a field holds is a wire form of some value. -/
lemma exists_form (h : Grammar input entries) :
    ∀ e ∈ entries, ∀ f, Field.ofTag? e.number = some f → ∃ v, f.kind.Form v e.inner :=
  fun e he f hf => Kind.accepts_iff.mp (h.accepts e he f hf)

/-- An input has its entries in one way only. -/
theorem unique {entries' : List Entry} (h : Grammar input entries) (h' : Grammar input entries') :
    entries = entries' := by
  have hoctets : (Item.sequence (entries.map Entry.wrapper)).octets =
      (Item.sequence (entries'.map Entry.wrapper)).octets := h.octets.symm.trans h'.octets
  have hitem := Item.octets_injective h.readable_sequence h'.readable_sequence hoctets
  have hwrappers : entries.map Entry.wrapper = entries'.map Entry.wrapper :=
    Item.join_injective (List.forall_mem_map.mpr fun e he => (h.readable e he).1)
      (List.forall_mem_map.mpr fun e he => (h'.readable e he).1) (Item.ofType_injective hitem)
  exact wrappers_injective h.readable h'.readable hwrappers

end Grammar

/-- The entries of a list that was read make up its input. -/
lemma exists_grammar_of_decode {input : Octets} {a : AuthorizationList}
    (h : decode .lenient input = .ok a) : ∃ entries, Grammar input entries ∧ a.Holds entries := by
  obtain ⟨i, hi, rfl, entries, hnodup, hread, hholds, rfl⟩ := decode_eq_ok_iff.mp h
  refine ⟨entries, ⟨rfl, hi.length_lt, hnodup, fun e he => ?_, fun e he f hf => ?_⟩, hholds⟩
  · obtain ⟨hwrapper, hinner⟩ := hread e he
    exact ⟨hwrapper.number_lt, hinner.number_lt⟩
  · have hmem : ⟨f.tag, e.inner⟩ ∈ entries := by
      rw [Field.tag_of_ofTag? hf]
      exact he
    obtain ⟨v, -, hform⟩ := hholds.value_of_mem f e.inner hmem
    exact Kind.accepts_iff.mpr ⟨v, hform⟩

/-- An input that the grammar allows is read. -/
lemma exists_decode_of_grammar {input : Octets} {entries : List Entry}
    (h : Grammar input entries) : ∃ a, decode .lenient input = .ok a := by
  have hitems : ∀ w ∈ entries.map Entry.wrapper, w.Readable :=
    List.forall_mem_map.mpr fun e he => (h.readable e he).1
  obtain ⟨p, hrun⟩ := Progress.run_of_acceptable h.readable h.exists_form h.nodup 0
    (p := .start) fun _ _ hmem => absurd hmem List.not_mem_nil
  obtain ⟨new, hread, hnew, hmet⟩ := Progress.met_start.run hitems hrun
  rw [List.nil_append] at hmet
  refine ⟨p.list, decode_eq_ok_iff.mpr ⟨_, h.readable_sequence, h.octets, new, hmet.nodup, hread,
    hmet.holds, ?_⟩⟩
  rw [hnew]

/-- Lenient reading accepts exactly the inputs that the grammar allows.  Each entry of a field is
then a form of the value of that field, a field without an entry has no value, and the unknown tags
are the other entries, by ascending number and with the octets that their wrappers hold. -/
theorem decode_ok_iff_grammar (input : Octets) :
    ((∃ a, decode .lenient input = .ok a) ↔ ∃ entries, Grammar input entries) ∧
      ∀ a entries, decode .lenient input = .ok a → Grammar input entries →
        (∀ (f : Field) (i : Item), ⟨f.tag, i⟩ ∈ entries →
          ∃ v, a.value f = some v ∧ f.kind.Form v i) ∧
        (∀ f : Field, f.tag ∉ entries.map Entry.number → a.value f = none) ∧
        UnknownTag.Ascending a.unknown ∧
        ∀ t : UnknownTag, t ∈ a.unknown ↔
          Field.ofTag? t.number = none ∧ ∃ i : Item, ⟨t.number, i⟩ ∈ entries ∧
            t.content = i.octets := by
  refine ⟨⟨?_, ?_⟩, fun a entries ha hgrammar => ?_⟩
  · rintro ⟨a, ha⟩
    obtain ⟨entries, hgrammar, -⟩ := exists_grammar_of_decode ha
    exact ⟨entries, hgrammar⟩
  · rintro ⟨entries, hgrammar⟩
    exact exists_decode_of_grammar hgrammar
  · obtain ⟨entries', hgrammar', hholds⟩ := exists_grammar_of_decode ha
    obtain rfl : entries' = entries := hgrammar'.unique hgrammar
    refine ⟨hholds.value_of_mem, fun f hf => ?_, hholds.ascending, hholds.mem_unknown⟩
    cases hv : a.value f with
    | none => rfl
    | some v =>
      obtain ⟨i, hmem, -⟩ := hholds.mem_of_value f v hv
      exact absurd (List.mem_map_of_mem hmem) hf

/-- Entries in descending order: a tag outside the table, a mask as a set of numbers, a number. -/
def mixedEntries : List Entry :=
  [⟨1000, .null⟩, ⟨504, .set [.integer 1, .integer 8]⟩, ⟨3, .integer 256⟩]

/-- The input that these entries make up. -/
def mixedEntriesOctets : Octets :=
  [48, 24, 191, 135, 104, 2, 5, 0, 191, 131, 120, 8, 49, 6, 2, 1, 1, 2, 1, 8, 163, 4, 2, 2, 1, 0]

/-- The entries of the sample make up its octets. -/
lemma grammar_mixedEntries : Grammar mixedEntriesOctets mixedEntries where
  octets := by decide +kernel
  length_lt := by decide +kernel
  nodup := by decide +kernel
  number_lt := by decide +kernel
  accepts := by
    have hauthenticators : Kind.authenticators.Accepts (.set [.integer 1, .integer 8]) :=
      .inr ⟨[1, 8], by decide, rfl⟩
    have hsize : (Kind.integer uint32Max).Accepts (.integer 256) := ⟨256, by decide, rfl⟩
    simp only [mixedEntries, List.forall_mem_cons]
    refine ⟨fun f hf => ?_, fun f hf => ?_, fun f hf => ?_, fun _ hmem => ?_⟩
    · cases hf
    · obtain rfl : Field.userAuthType = f := Option.some.inj hf
      exact hauthenticators
    · obtain rfl : Field.keySize = f := Option.some.inj hf
      exact hsize
    · exact absurd hmem List.not_mem_nil

/-- The entries are read into a mask and a number, and the tag outside the table is kept. -/
theorem exists_decode_mixedEntries :
    Grammar mixedEntriesOctets mixedEntries ∧
      ∃ a, decode .lenient mixedEntriesOctets = .ok a ∧ a.value .keySize = some (256 : ℤ) ∧
        a.value .userAuthType = some (.ofList [.known .password, .ofCode _ 8]) ∧
        a.value .purpose = none ∧ ⟨1000, [5, 0]⟩ ∈ a.unknown := by
  have hgrammar := grammar_mixedEntries
  obtain ⟨haccepts, hvalues⟩ := decode_ok_iff_grammar mixedEntriesOctets
  obtain ⟨a, ha⟩ := haccepts.mpr ⟨_, hgrammar⟩
  obtain ⟨hfield, habsent, -, hunknown⟩ := hvalues a _ ha hgrammar
  have hread := hgrammar.readable
  have hsize : ⟨3, .integer 256⟩ ∈ mixedEntries := by decide +kernel
  have hmask : ⟨504, .set [.integer 1, .integer 8]⟩ ∈ mixedEntries := by decide +kernel
  obtain ⟨n, hn, hnform⟩ := hfield .keySize _ hsize
  obtain ⟨s, hs, hsform⟩ := hfield .userAuthType _ hmask
  have hn256 : n = (256 : ℤ) := Kind.form_unique (hread _ hsize).2 hnform ⟨by decide, rfl⟩
  have hs9 : s = Authenticators.ofMask 9 :=
    Kind.form_unique (hread _ hmask).2 hsform
      ⟨9, rfl, .inr ⟨[1, 8], by decide, by decide +kernel, rfl⟩⟩
  refine ⟨hgrammar, a, ha, ?_, ?_, habsent .purpose (by decide +kernel), ?_⟩
  · rw [hn, hn256]
    rfl
  · rw [hs, hs9]
    rfl
  · exact (hunknown _).mpr ⟨rfl, .null, by decide +kernel, by decide +kernel⟩

end AuthorizationList

end AttestedKey
