import AttestedKey.Proofs.ApplicationId
import AttestedKey.Proofs.Octets

/-!
# The grammar of an application id

`ApplicationId.Grammar input packages digests` says of an input alone, without any application id,
that it is one sequence of two sets: a set of distinct pairs of a text in UTF-8 and a number of 64
bits, and a set of distinct octets.  Reading accepts exactly these inputs, makes the application id
that they denote, and loses nothing of them (`decode_ok_iff_denoted`): what is written of the
application id is as long as the input and holds the same members, in ascending order.

A text is a sequence of characters, each in its shortest form (`Octets.IsText`), so a form that is
longer than it need be, a surrogate or a form that breaks off makes none.
-/

namespace AttestedKey

open Der Outcome

/-! ### Texts -/

/-- Some octets are the characters of a text, one after another, each in its shortest form. -/
def Octets.IsText (octets : Octets) : Prop :=
  ∃ characters : List Char, octets = characters.flatMap String.utf8EncodeChar

/-- The octets of a text are those of its characters. -/
lemma Octets.ofString_ofList (characters : List Char) :
    ofString (String.ofList characters) = characters.flatMap String.utf8EncodeChar := by
  unfold ofString
  rw [String.toByteArray_ofList]
  exact List.toList_data_toByteArray

/-- A text has octets, and no other octets are text. -/
lemma Octets.isText_iff {octets : Octets} :
    octets.IsText ↔ ∃ text : String, octets = ofString text := by
  constructor
  · rintro ⟨characters, rfl⟩
    exact ⟨String.ofList characters, (ofString_ofList characters).symm⟩
  · rintro ⟨text, rfl⟩
    refine ⟨text.toList, ?_⟩
    rw [← ofString_ofList, String.ofList_toList]

/-- Octets are read as a text exactly if they are one. -/
theorem Octets.isSome_toString?_iff {octets : Octets} :
    (toString? octets).isSome = true ↔ octets.IsText := by
  rw [isText_iff, Option.isSome_iff_exists]
  exact exists_congr fun text => toString?_eq_some_iff

/-- A zero in two octets, a surrogate, and a character that breaks off are no texts. -/
example : [[0xC0, 0x80], [0xED, 0xA0, 0x80], [0xE2, 0x82]].all
    (fun octets => (Octets.toString? octets).isNone) = true := by
  decide +kernel

/-- Texts with the same octets are the same. -/
lemma Octets.ofString_injective {s t : String} (h : ofString s = ofString t) : s = t := by
  have hs := toString?_ofString s
  rw [h, toString?_ofString t] at hs
  exact (Option.some.inj hs).symm

/-- Numbers with the same item are the same. -/
lemma Der.Item.integer_injective {m n : ℤ} (h : integer m = integer n) : m = n :=
  Octets.ofInt_injective (ofType_injective h)

/-! ### Members -/

/-- The octets of the name of a package, and its version. -/
def Package.raw (p : Package) : Octets × ℤ := (Octets.ofString p.name, p.version)

/-- Packages are told apart by the octets of their names and their versions. -/
lemma Package.raw_injective : Function.Injective Package.raw := by
  rintro ⟨name, version⟩ ⟨name', version'⟩ h
  obtain ⟨hname, hversion⟩ := Prod.mk.inj h
  exact congrArg₂ Package.mk (Octets.ofString_injective hname) hversion

namespace ApplicationId

/-- The item of a name and a version. -/
def memberItem (p : Octets × ℤ) : Item := .sequence [.octetString p.1, .integer p.2]

/-- Readable members with the same item have the same name and the same version. -/
lemma memberItem_injective {p q : Octets × ℤ} (hp : (memberItem p).Readable)
    (hq : (memberItem q).Readable) (h : memberItem p = memberItem q) : p = q := by
  obtain ⟨hpname, hpversion⟩ := Item.readable_of_ofType_pair hp
  obtain ⟨hqname, hqversion⟩ := Item.readable_of_ofType_pair hq
  have hparts : [Item.octetString p.1, Item.integer p.2] = [.octetString q.1, .integer q.2] :=
    Item.join_injective (by simpa using ⟨hpname, hpversion⟩) (by simpa using ⟨hqname, hqversion⟩)
      (Item.ofType_injective h)
  rw [List.cons.injEq, List.cons.injEq] at hparts
  obtain ⟨hname, hversion, -⟩ := hparts
  exact Prod.ext (Item.octetString_injective hname) (Item.integer_injective hversion)

/-- An input is one sequence of a set of packages and a set of digests. -/
structure Grammar (input : Octets) (packages : List (Octets × ℤ)) (digests : List Octets) :
    Prop where
  /-- The input is the sequence of the two sets, with nothing after it. -/
  octets : input = (Item.sequence
    [.set (packages.map memberItem), .set (digests.map Item.octetString)]).octets
  /-- The length of the sequence has at most four digits. -/
  length_lt : (Item.join
    [.set (packages.map memberItem), .set (digests.map Item.octetString)]).length < 2 ^ 32
  /-- The names are texts. -/
  name : ∀ p ∈ packages, p.1.IsText
  /-- The versions have at most 64 bits. -/
  version : ∀ p ∈ packages, 0 ≤ p.2 ∧ p.2 ≤ uint64Max
  /-- No package stands twice. -/
  nodup_packages : packages.Nodup
  /-- No digest stands twice. -/
  nodup_digests : digests.Nodup

/-! ### Reading what the grammar allows -/

/-- The application id of some packages and some digests. -/
def denoted (packages : List Package) (digests : List Octets) : ApplicationId :=
  ⟨.ofList packages, .ofList digests⟩

/-- The item of some packages and some digests, given by names and versions. -/
lemma itemOf_eq (packages : List Package) (digests : List Octets) :
    itemOf packages digests = .sequence
      [.set ((packages.map Package.raw).map memberItem), .set (digests.map Item.octetString)] := by
  rw [List.map_map]
  rfl

/-- Texts and numbers are the names and the versions of packages. -/
lemma Grammar.exists_packages {input : Octets} {raws : List (Octets × ℤ)} {digests : List Octets}
    (h : Grammar input raws digests) :
    ∃ packages : List Package, raws = packages.map Package.raw := by
  have hraw : raws ∈ Set.range (List.map Package.raw) := by
    rw [Set.range_list_map]
    intro p hp
    obtain ⟨name, hname⟩ := Octets.isText_iff.mp (h.name p hp)
    exact ⟨⟨name, p.2⟩, Prod.ext hname.symm rfl⟩
  obtain ⟨packages, hpackages⟩ := hraw
  exact ⟨packages, hpackages.symm⟩

section

variable {input : Octets} {packages : List Package} {digests : List Octets}

/-- The item that the grammar describes is a wire form of what it denotes. -/
lemma Grammar.form (h : Grammar input (packages.map Package.raw) digests) :
    (itemOf packages digests).Readable ∧ input = (itemOf packages digests).octets ∧
      (denoted packages digests).Form (itemOf packages digests) := by
  have hnodup : packages.Nodup := h.nodup_packages.of_map
  refine ⟨⟨Item.number_lt_of_ofType _ _, ?_⟩, ?_, packages, digests,
    (OrderedSet.toList_ofList_perm hnodup).symm,
    (OrderedSet.toList_ofList_perm h.nodup_digests).symm, fun p hp => ?_, rfl⟩
  · rw [itemOf_eq]
    exact h.length_lt
  · rw [itemOf_eq]
    exact h.octets
  · exact h.version p.raw (List.mem_map_of_mem hp)

/-- An input that the grammar allows is read as what it denotes. -/
lemma Grammar.decode (h : Grammar input (packages.map Package.raw) digests) :
    decode input = .ok (denoted packages digests) := by
  obtain ⟨hread, hinput, hform⟩ := h.form
  exact ofRegion_eq_ok_iff.mpr ⟨_, hread, hinput, hform⟩

/-- What was read stood in an input that the grammar allows. -/
lemma exists_grammar_of_decode {a : ApplicationId} (h : ApplicationId.decode input = .ok a) :
    ∃ (packages : List Package) (digests : List Octets),
      Grammar input (packages.map Package.raw) digests := by
  obtain ⟨_, hread, hinput, packages, digests, hpackages, hdigests, hrange, rfl⟩ :=
    ofRegion_eq_ok_iff.mp h
  have hnodup : packages.Nodup := hpackages.nodup_iff.mpr (OrderedSet.nodup_toList _)
  rw [itemOf_eq] at hread hinput
  refine ⟨packages, digests, hinput, hread.length_lt, ?_, ?_, hnodup.map Package.raw_injective,
    hdigests.nodup_iff.mpr (OrderedSet.nodup_toList _)⟩
  · rw [List.forall_mem_map]
    intro p _
    exact Octets.isText_iff.mpr ⟨p.name, rfl⟩
  · rw [List.forall_mem_map]
    exact hrange

end

/-! ### Nothing is lost -/

/-- An application id has just the members that an input was made of, and they are what is written
of it. -/
structure Denotes (input : Octets) (raws : List (Octets × ℤ)) (digests : List Octets)
    (a : ApplicationId) : Prop where
  /-- The packages are those with the given names and versions, each of which stood there once. -/
  perm_packages : (a.packages.toList.map Package.raw).Perm raws
  /-- The digests are the given ones, each of which stood there once. -/
  perm_digests : a.digests.toList.Perm digests
  /-- The same members are written, in ascending order, in as many octets as the input has. -/
  written : ∃ written written' : List Item, written.Perm (raws.map memberItem) ∧
    written'.Perm (digests.map Item.octetString) ∧ Item.Ascending written ∧
    Item.Ascending written' ∧ a.encode = .ok (Item.sequence [.set written, .set written']).octets ∧
    (Item.sequence [.set written, .set written']).octets.length = input.length

/-- What the grammar denotes is denoted. -/
lemma Grammar.denotes {input : Octets} {packages : List Package} {digests : List Octets}
    (h : Grammar input (packages.map Package.raw) digests) :
    Denotes input (packages.map Package.raw) digests (denoted packages digests) := by
  obtain ⟨-, hinput, hform⟩ := h.form
  have hpackages : (denoted packages digests).packages.toList.Perm packages :=
    OrderedSet.toList_ofList_perm h.nodup_packages.of_map
  have hdigests : (denoted packages digests).digests.toList.Perm digests :=
    OrderedSet.toList_ofList_perm h.nodup_digests
  refine ⟨hpackages.map _, hdigests, _, _, ?_, ?_, Item.sort_ascending _, Item.sort_ascending _,
    encode_eq_ok_iff.mpr ⟨inRange_of_form hform, rfl⟩, ?_⟩
  · rw [List.map_map]
    exact (Item.sort_perm _).trans (hpackages.map Package.item)
  · exact (Item.sort_perm _).trans (hdigests.map Item.octetString)
  · rw [hinput]
    exact length_item hform

/-- Reading accepts exactly the inputs that the grammar allows, and makes the application id that
they denote, of which the same members are written.  And whatever can be written of an application
id, which it can if its versions have at most 64 bits, is read back. -/
theorem decode_ok_iff_denoted :
    (∀ input, (∃ a, decode input = .ok a) ↔ ∃ raws digests, Grammar input raws digests) ∧
      (∀ input a raws digests, decode input = .ok a → Grammar input raws digests →
        Denotes input raws digests a) ∧
      ∀ a : ApplicationId, (∀ p ∈ a.packages.toList, 0 ≤ p.version ∧ p.version ≤ uint64Max) →
        ∃ b, a.encode = .ok b ∧ (b.length < 2 ^ 32 → decode b = .ok a) := by
  refine ⟨fun input => ⟨?_, ?_⟩, fun input a raws digests ha hgrammar => ?_, fun a hrange => ?_⟩
  · rintro ⟨a, ha⟩
    obtain ⟨packages, digests, hgrammar⟩ := exists_grammar_of_decode ha
    exact ⟨packages.map Package.raw, digests, hgrammar⟩
  · rintro ⟨raws, digests, hgrammar⟩
    obtain ⟨packages, rfl⟩ := hgrammar.exists_packages
    exact ⟨denoted packages digests, hgrammar.decode⟩
  · obtain ⟨packages, rfl⟩ := hgrammar.exists_packages
    obtain rfl : denoted packages digests = a := Except.ok.inj (hgrammar.decode.symm.trans ha)
    exact hgrammar.denotes
  · have hencode : a.encode = .ok a.item.octets := encode_eq_ok_iff.mpr ⟨hrange, rfl⟩
    exact ⟨a.item.octets, hencode, decode_of_encode hencode⟩

/-- An input with two digests that are not in order. -/
def unsortedDigests : Octets :=
  [48, 20, 49, 8, 48, 6, 4, 1, 97, 2, 1, 7, 49, 8, 4, 2, 9, 9, 4, 2, 5, 5]

/-- The packages and digests of the sample make up its octets. -/
lemma grammar_unsortedDigests : Grammar unsortedDigests [([97], 7)] [[9, 9], [5, 5]] where
  octets := by decide +kernel
  length_lt := by decide +kernel
  name := List.forall_mem_singleton.mpr ⟨['a'], by decide⟩
  version := by decide
  nodup_packages := by decide
  nodup_digests := by decide

/-- It is read as what it denotes. -/
theorem decode_unsortedDigests :
    ∃ a, decode unsortedDigests = .ok a ∧
      Denotes unsortedDigests [([97], 7)] [[9, 9], [5, 5]] a := by
  obtain ⟨haccepts, hdenotes, -⟩ := decode_ok_iff_denoted
  obtain ⟨a, ha⟩ := (haccepts unsortedDigests).mpr ⟨_, _, grammar_unsortedDigests⟩
  exact ⟨a, ha, hdenotes _ _ _ _ ha grammar_unsortedDigests⟩

end ApplicationId

end AttestedKey
