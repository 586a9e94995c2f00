import AttestedKey.Proofs.AuthorizationList.Staging
import AttestedKey.Proofs.KeyDescription.RoundTrip

/-!
# Arguments in another order

Some arguments are collections whose order means nothing: those for sets, for a mask of
authenticators and for the tags outside the table.  `Argument.Reordered` says that one argument is
another one with its items in another order.  Checks of items are independent of each other, or, in
the case of the unknown tags, commute (`UnknownTag.addItem_comm`), so reordered arguments are
refused alike, or make the same value.

There is one exception.  A mask is settled by an item that stands for any authenticator, and items
behind it are not looked at.  A collection that is mixed (`Argument.IsMixed`), because it holds this
item and one that is no integer, is accepted in some orders and refused in others; and no other
collection is (`reordered_alike`).
-/

namespace AttestedKey

open Outcome AuthorizationList

/-- One argument is another one, possibly with its items in another order. -/
inductive Argument.Reordered : Argument → Argument → Prop
  /-- Nothing has moved. -/
  | refl (a : Argument) : Reordered a a
  /-- The items of a list have moved. -/
  | items {items items' : List Argument} (hperm : items.Perm items') :
    Reordered (.list items) (.list items')

/-- Some arguments have the names of some others, and the items of each are in another order. -/
def Arguments.Reordered (arguments arguments' : Arguments) : Prop :=
  List.Forall₂ (fun p q => p.1 = q.1 ∧ p.2.Reordered q.2) arguments arguments'

/-- A collection holds the integer for any authenticator, and an item that is no integer. -/
def Argument.IsMixed (a : Argument) : Prop :=
  ∃ items, a = .list items ∧ .integer Authenticators.anyMask ∈ items ∧
    ∃ item ∈ items, ∀ n, item ≠ .integer n

/-- A mixed collection is given for a mask of authenticators. -/
def Argument.MixesMask (name : String) (a : Argument) : Prop :=
  name = Field.userAuthType.name ∧ a.IsMixed

/-! ### Masks -/

namespace Argument

/-- Items that are all integers are made of their numbers. -/
lemma exists_codes {items : List Argument} (h : ∀ item ∈ items, ∃ n, item = .integer n) :
    ∃ codes : List ℤ, items = codes.map .integer := by
  induction items with
  | nil => exact ⟨[], rfl⟩
  | cons item rest ih =>
    obtain ⟨⟨n, rfl⟩, hrest⟩ := List.forall_mem_cons.mp h
    obtain ⟨codes, rfl⟩ := ih hrest
    exact ⟨n :: codes, rfl⟩

/-- Without the integer for any authenticator all items are looked at. -/
lemma toMask_refused {items : List Argument} (hnone : .integer Authenticators.anyMask ∉ items)
    (hother : ∃ item ∈ items, ∀ n, item ≠ .integer n) (name : String) (m : ℤ) :
    ∃ refusal, toMask name m items = .error refusal := by
  -- Without the number for any authenticator the loop reaches the item that is no number.
  induction items generalizing m with
  | nil =>
    obtain ⟨item, hitem, -⟩ := hother
    cases hitem
  | cons first rest ih =>
    rw [toMask]
    cases hfirst : first.toInteger name with
    | error refusal => exact ⟨refusal, rfl⟩
    | ok code =>
      obtain rfl := toInteger_eq_ok_iff.mp hfirst
      have hcode : code ≠ Authenticators.anyMask := by
        rintro rfl
        exact hnone (List.mem_cons_self ..)
      rw [ok_bind, if_neg hcode]
      obtain ⟨item, hitem, hno⟩ := hother
      rcases List.mem_cons.mp hitem with rfl | hitem
      · exact absurd rfl (hno code)
      · exact ih (fun hmem => hnone (List.mem_cons_of_mem _ hmem)) ⟨item, hitem, hno⟩ _

/-- The mask of some items does not depend on their order, unless they are mixed. -/
lemma alike_toMask {items items' : List Argument} (hperm : items.Perm items')
    (hunmixed : ¬ IsMixed (.list items)) (name : String) :
    Alike (toMask name 0 items) (toMask name 0 items') := by
  by_cases hall : ∀ item ∈ items, ∃ n, item = .integer n
  · have hall' : ∀ item ∈ items', ∃ n, item = .integer n :=
      fun item hitem => hall item (hperm.mem_iff.mpr hitem)
    obtain ⟨codes, rfl⟩ := exists_codes hall
    obtain ⟨codes', rfl⟩ := exists_codes hall'
    have hinjective : Function.Injective Argument.integer := fun m n h => Argument.integer.inj h
    have hcodes : ∀ c, c ∈ codes ↔ c ∈ codes' := by
      intro c
      rw [← List.mem_map_of_injective hinjective, hperm.mem_iff,
        List.mem_map_of_injective hinjective]
    have hmask : toMask name 0 (codes.map .integer) = toMask name 0 (codes'.map .integer) := by
      rw [Kind.toMask_integers, Kind.toMask_integers]
      exact congrArg Except.ok (Authenticators.mask_eq_of_mem hcodes)
    rw [hmask]
    exact .refl _
  -- Both loops meet an item that is no number, though perhaps not the same one.
  · push Not at hall
    have hnone : .integer Authenticators.anyMask ∉ items :=
      fun hmem => hunmixed ⟨items, rfl, hmem, hall⟩
    have hother' : ∃ item ∈ items', ∀ n, item ≠ .integer n := by
      obtain ⟨item, hitem, hno⟩ := hall
      exact ⟨item, hperm.mem_iff.mp hitem, hno⟩
    obtain ⟨refusal, hrefusal⟩ := toMask_refused hnone hall name 0
    obtain ⟨refusal', hrefusal'⟩ :=
      toMask_refused (fun hmem => hnone (hperm.mem_iff.mpr hmem)) hother' name 0
    rw [hrefusal, hrefusal']
    rfl

end Argument

/-! ### Values of a field -/

/-- A reordered argument is checked alike, unless it is mixed and given for a mask. -/
theorem Kind.alike_check {k : Kind} {a a' : Argument} (h : a.Reordered a')
    (hunmixed : k = .authenticators → ¬ a.IsMixed) (name : String) :
    Alike (k.check name a) (k.check name a') := by
  cases h with
  | refl => exact .refl _
  | items hperm =>
    cases k with
    | members v =>
      refine Alike.mapM_of_perm (g := fun slots => some (OrderedSet.ofList slots)) ?_ hperm
      exact fun slots slots' hslots => congrArg some (OrderedSet.ofList_eq_of_perm hslots)
    | authenticators =>
      exact (Argument.alike_toMask hperm (hunmixed rfl) name).bind fun mask => .refl _
    | _ => rfl

/-! ### Tags outside the table -/

namespace UnknownTag

/-- An item is added if it is the pair of the number and the content of a normal tag, and the number
is new. -/
lemma addItem_eq_ok_iff {tags tags' : List UnknownTag} {item : Argument} :
    addItem tags item = .ok tags' ↔
      ∃ t : UnknownTag, item.toPair = .ok (.integer t.number, .octets t.content) ∧ t.IsNormal ∧
        (∀ u ∈ tags, u.number ≠ t.number) ∧ tags' = t.place tags := by
  unfold addItem
  rw [bind_eq_ok_iff]
  constructor
  · rintro ⟨⟨number, content⟩, hpair, h⟩
    obtain ⟨t, ht, hplace⟩ := bind_eq_ok_iff.mp h
    obtain ⟨hnormal, rfl, rfl, hnew⟩ := make_eq_ok_iff.mp ht
    exact ⟨t, hpair, hnormal, hnew, (Except.ok.inj hplace).symm⟩
  · rintro ⟨t, hpair, hnormal, hnew, rfl⟩
    refine ⟨_, hpair, bind_eq_ok_iff.mpr ⟨t, ?_, rfl⟩⟩
    exact make_eq_ok_iff.mpr ⟨hnormal, rfl, rfl, hnew⟩

/-- Tags with different numbers can be placed in either order. -/
lemma place_comm {tags : List UnknownTag} (h : Ascending tags) {t u : UnknownTag}
    (hne : t.number ≠ u.number) : t.place (u.place tags) = u.place (t.place tags) := by
  have ht := ascending_place t h
  have hu := ascending_place u h
  refine (ascending_place t hu).eq_of_mem_iff (ascending_place u ht) fun v => ?_
  rw [mem_place hu, mem_place ht, mem_place h, mem_place h]
  constructor
  · rintro (rfl | ⟨rfl | ⟨hv, hvu⟩, hvt⟩)
    · exact .inr ⟨.inl rfl, hne⟩
    · exact .inl rfl
    · exact .inr ⟨.inr ⟨hv, hvt⟩, hvu⟩
  · rintro (rfl | ⟨rfl | ⟨hv, hvt⟩, hvu⟩)
    · exact .inr ⟨.inl rfl, hne.symm⟩
    · exact .inl rfl
    · exact .inr ⟨.inr ⟨hv, hvu⟩, hvt⟩

/-- Two items that are added one after the other can be added in either order. -/
lemma addItem_comm {tags tags₁ tags₂ : List UnknownTag} (h : Ascending tags)
    {first second : Argument} (hfirst : addItem tags first = .ok tags₁)
    (hsecond : addItem tags₁ second = .ok tags₂) :
    ∃ tags₁', addItem tags second = .ok tags₁' ∧ addItem tags₁' first = .ok tags₂ := by
  obtain ⟨t, htpair, ht, htnew, rfl⟩ := addItem_eq_ok_iff.mp hfirst
  obtain ⟨u, hupair, hu, hunew, rfl⟩ := addItem_eq_ok_iff.mp hsecond
  have hne : t.number ≠ u.number := hunew t ((mem_place h).mpr (.inl rfl))
  refine ⟨u.place tags, addItem_eq_ok_iff.mpr ⟨u, hupair, hu, fun v hv => ?_, rfl⟩,
    addItem_eq_ok_iff.mpr ⟨t, htpair, ht, fun v hv => ?_, place_comm h hne.symm⟩⟩
  · exact hunew v ((mem_place h).mpr (.inr ⟨hv, htnew v hv⟩))
  · rcases (mem_place h).mp hv with rfl | ⟨hv, -⟩
    · exact hne.symm
    · exact htnew v hv

/-- The unknown tags that a collection describes do not depend on its order. -/
theorem alike_makeAll {a a' : Argument} (h : a.Reordered a') : Alike (makeAll a) (makeAll a') := by
  cases h with
  | refl => exact .refl _
  | items hperm =>
    have hkeep : ∀ tags item tags', Ascending tags → addItem tags item = .ok tags' →
        Ascending tags' := by
      intro tags item tags' hascending hadd
      obtain ⟨t, -, -, -, rfl⟩ := addItem_eq_ok_iff.mp hadd
      exact ascending_place t hascending
    have hswap : ∀ tags (item item' : Argument) tags₁ tags₂, Ascending tags →
        addItem tags item = .ok tags₁ → addItem tags₁ item' = .ok tags₂ →
        ∃ tags₁', addItem tags item' = .ok tags₁' ∧ addItem tags₁' item = .ok tags₂ :=
      fun _ _ _ _ _ hascending => addItem_comm hascending
    exact .of_ok (fun tags => foldlM_eq_ok_of_perm hkeep hswap hperm .nil)
      fun tags => foldlM_eq_ok_of_perm hkeep hswap hperm.symm .nil

end UnknownTag

/-! ### Application ids -/

namespace ApplicationId

/-- Packages are made alike, in whatever order they are given. -/
lemma alike_toPackages {a a' : Argument} (h : a.Reordered a') :
    Alike (toPackages a) (toPackages a') := by
  cases h with
  | refl => exact .refl _
  | @items items items' hperm =>
    have hmap : Alike (items.mapM toPackage >>= fun packages => .ok (OrderedSet.ofList packages))
        (items'.mapM toPackage >>= fun packages => .ok (OrderedSet.ofList packages)) :=
      Alike.mapM_of_perm (fun _ _ => OrderedSet.ofList_eq_of_perm) hperm
    have hsettable : items.all Argument.isSettable = items'.all Argument.isSettable := hperm.all_eq
    unfold toPackages
    simp only [Argument.items, Argument.items?, ok_bind, ← hsettable]
    split
    · exact hmap
    · exact .refl _

/-- Digests are made alike, in whatever order they are given. -/
lemma alike_toDigests {a a' : Argument} (h : a.Reordered a') :
    Alike (toDigests a) (toDigests a') := by
  cases h with
  | refl => exact .refl _
  | items hperm => exact Alike.mapM_of_perm (fun _ _ => OrderedSet.ofList_eq_of_perm) hperm

end ApplicationId

/-! ### Arguments by name -/

namespace Arguments

variable {arguments arguments' : Arguments}

/-- Reordered arguments are found under the same names. -/
lemma Reordered.find?_cases (h : Reordered arguments arguments') (name : String) :
    (arguments.find? name = none ∧ arguments'.find? name = none) ∨
      ∃ a a', arguments.find? name = some a ∧ arguments'.find? name = some a' ∧
        a.Reordered a' := by
  induction h with
  | nil => exact .inl ⟨rfl, rfl⟩
  | @cons p q _ _ hpq _ ih =>
    obtain ⟨n, a⟩ := p
    obtain ⟨n', a'⟩ := q
    obtain ⟨hname, ha⟩ := hpq
    obtain rfl : n = n' := hname
    unfold Arguments.find? at ih ⊢
    rw [List.lookup_cons, List.lookup_cons]
    split
    · exact .inr ⟨a, a', rfl, rfl, ha⟩
    · exact ih

/-- One that is left out is the same collection without items in both. -/
lemma Reordered.getD (h : Reordered arguments arguments') (name : String) :
    Argument.Reordered ((arguments.find? name).getD (.list []))
      ((arguments'.find? name).getD (.list [])) := by
  rcases h.find?_cases name with ⟨hnone, hnone'⟩ | ⟨a, a', ha, ha', hr⟩
  · rw [hnone, hnone']
    exact .refl _
  · rw [ha, ha']
    exact hr

/-- The names are the same. -/
lemma Reordered.any_name (h : Reordered arguments arguments') (p : String → Bool) :
    arguments.any (fun a => p a.1) = arguments'.any fun a => p a.1 := by
  induction h with
  | nil => rfl
  | cons hpq _ ih => rw [List.any_cons, List.any_cons, hpq.1, ih]

/-- Arguments that may all be left out are checked by their names. -/
lemma Reordered.check (h : Reordered arguments arguments') (names : List String) :
    arguments.check [] names = arguments'.check [] names := by
  have hnames := h.any_name fun name => !names.contains name
  unfold Arguments.check
  simp only [List.nil_append, List.all_eq_not_any_not, hnames]
  rfl

end Arguments

/-- An application id that is made of reordered arguments is the same one. -/
theorem ApplicationId.alike_make {arguments arguments' : Arguments}
    (h : arguments.Reordered arguments') : Alike (make arguments) (make arguments') := by
  unfold make
  rw [h.check]
  refine (Alike.refl _).bind fun _ => (alike_toPackages (h.getD _)).bind fun packages => ?_
  exact (alike_toDigests (h.getD _)).bind fun digests => .refl _

/-! ### Authorization lists and builders -/

/-- The argument for a field is checked alike in any order. -/
lemma Field.alike_check {f : Field} {a a' : Argument} (h : a.Reordered a')
    (hunmixed : ¬ Argument.MixesMask f.name a) :
    Alike (f.kind.check f.name a) (f.kind.check f.name a') := by
  refine Kind.alike_check h (fun hkind hmixed => ?_) f.name
  obtain rfl := Field.eq_userAuthType hkind
  exact hunmixed ⟨rfl, hmixed⟩

namespace AuthorizationList

/-- The argument for a field gives it the same value in any order. -/
lemma alike_addArgument {arguments arguments' : Arguments}
    (h : arguments.Reordered arguments')
    (hunmixed : ∀ entry ∈ arguments, ¬ Argument.MixesMask entry.1 entry.2)
    (a : AuthorizationList) (f : Field) :
    Alike (addArgument arguments a f) (addArgument arguments' a f) := by
  unfold addArgument
  rcases h.find?_cases f.name with ⟨hnone, hnone'⟩ | ⟨argument, argument', ha, ha', hr⟩
  · rw [hnone, hnone']
    exact .refl _
  · have hargument := hunmixed _ (Arguments.mem_of_find? ha)
    rw [ha, ha']
    cases hr with
    | refl => exact .refl _
    | items hperm => exact (Field.alike_check (.items hperm) hargument).bind fun v => .refl _

/-- A list that is made of reordered arguments is the same list. -/
theorem alike_make {arguments arguments' : Arguments} (h : arguments.Reordered arguments')
    (hunmixed : ∀ entry ∈ arguments, ¬ Argument.MixesMask entry.1 entry.2) :
    Alike (make arguments) (make arguments') := by
  have hfields : Alike (Field.all.foldlM (addArgument arguments) empty)
      (Field.all.foldlM (addArgument arguments') empty) := by
    refine Alike.foldlM (List.forall₂_same.mpr fun f _ => rfl) (fun a f g hfg => ?_) empty
    rw [hfg]
    exact alike_addArgument h hunmixed a g
  unfold make
  rw [h.check]
  refine (Alike.refl _).bind fun _ => hfields.bind fun a => ?_
  exact (UnknownTag.alike_makeAll (h.getD unknownName)).bind fun unknown => .refl _

namespace Builder

/-- A reordered argument gives a field the same value. -/
lemma alike_give {a a' : Argument} (h : a.Reordered a') (b : Builder) {f : Field}
    (hunmixed : ¬ Argument.MixesMask f.name a) : Alike (b.give f a) (b.give f a') := by
  cases h with
  | refl => exact .refl _
  | items hperm => exact (Field.alike_check (.items hperm) hunmixed).bind fun v => .refl _

/-- A field of a builder is assigned a reordered argument alike. -/
theorem alike_assign {a a' : Argument} (h : a.Reordered a') (b : Builder) {name : String}
    (hunmixed : ¬ Argument.MixesMask name a) : Alike (b.assign name a) (b.assign name a') := by
  unfold assign
  cases hfield : field name with
  | error refusal => exact .refl _
  | ok f =>
    have hname : f.name = name := by
      have hfound := List.find?_some (ofName?_of_field hfield)
      simpa using hfound
    rw [ok_bind, ok_bind]
    exact alike_give h b (hname ▸ hunmixed)

/-- So is a builder that is made of reordered arguments. -/
theorem alike_ofArguments {arguments arguments' : Arguments} (h : arguments.Reordered arguments')
    (hunmixed : ∀ entry ∈ arguments, ¬ Argument.MixesMask entry.1 entry.2) :
    Alike (ofArguments arguments) (ofArguments arguments') := by
  unfold ofArguments
  rw [h.any_name fun name => name == ownName]
  split
  · exact .refl _
  · have hentries := (List.forall₂_and_left _ _).mpr ⟨hunmixed, h⟩
    refine Alike.foldlM hentries (fun b p q hpq => ?_) empty
    obtain ⟨name, a⟩ := p
    obtain ⟨name', a'⟩ := q
    obtain ⟨hp, hname, hr⟩ := hpq
    obtain rfl : name = name' := hname
    exact alike_assign hr b hp

/-- The setter of a field takes a reordered argument alike. -/
theorem alike_call {a a' : Argument} (h : a.Reordered a') (b : Builder) {f : Field}
    (hunmixed : ¬ Argument.MixesMask f.name a) :
    Alike (b.call (.field f) a) (b.call (.field f) a') :=
  alike_give h b hunmixed

end Builder

end AuthorizationList

/-! ### Mixed collections -/

/-- What is made of some items is the same in every order. -/
def OrderFree {ε α : Type} (f : List Argument → Except ε α) (items : List Argument) : Prop :=
  ∀ items', items.Perm items' → Alike (f items) (f items')

/-- Just the mixed collections are treated in different ways if their items are reordered, where
the integer for any authenticator is accepted if it comes first, and any item that is no integer is
refused there. -/
lemma orderFree_iff {ε α : Type} {f : List Argument → Except ε α} {items : List Argument}
    (haccepted : ∀ rest, ∃ v, f (.integer Authenticators.anyMask :: rest) = .ok v)
    (hrefused : ∀ item rest, (∀ n, item ≠ .integer n) →
      ∃ refusal, f (item :: rest) = .error refusal)
    (halike : ¬ (Argument.list items).IsMixed → OrderFree f items) :
    OrderFree f items ↔ ¬ (Argument.list items).IsMixed := by
  refine ⟨?_, halike⟩
  rintro h ⟨_, heq, hany, item, hitem, hno⟩
  obtain rfl := Argument.list.inj heq
  obtain ⟨before, after, hsplit⟩ := List.append_of_mem hany
  obtain ⟨before', after', hsplit'⟩ := List.append_of_mem hitem
  obtain ⟨v, hok⟩ := haccepted (before ++ after)
  obtain ⟨refusal, herror⟩ := hrefused item (before' ++ after') hno
  have hfirst := h _ (hsplit ▸ List.perm_middle)
  have hsecond := h _ (hsplit' ▸ List.perm_middle)
  have hboth := hfirst.symm.trans hsecond
  rw [hok, herror] at hboth
  cases hboth

namespace AuthorizationList

/-- Arguments with nothing but some items for a mask. -/
def maskArguments (items : List Argument) : Arguments := [(Field.userAuthType.name, .list items)]

/-- Just the mixed collections make a list in some orders only. -/
theorem orderFree_make_iff (items : List Argument) :
    OrderFree (fun items => make (maskArguments items)) items ↔
      ¬ (Argument.list items).IsMixed := by
  refine orderFree_iff (fun rest => ⟨_, rfl⟩) (fun item rest hitem => ?_)
    fun hunmixed items' hperm => alike_make (.cons ⟨rfl, .items hperm⟩ .nil) fun entry hentry => ?_
  · cases item with
    | integer n => exact absurd rfl (hitem n)
    | _ => exact ⟨_, rfl⟩
  · obtain rfl := List.mem_singleton.mp hentry
    exact fun hmixes => hunmixed hmixes.2

/-- Just the mixed collections are assigned in some orders only. -/
theorem Builder.orderFree_assign_iff (b : Builder) (items : List Argument) :
    OrderFree (fun items => b.assign Field.userAuthType.name (.list items)) items ↔
      ¬ (Argument.list items).IsMixed := by
  refine orderFree_iff (fun rest => ⟨_, rfl⟩) (fun item rest hitem => ?_)
    fun hunmixed items' hperm => alike_assign (.items hperm) b fun hmixes => hunmixed hmixes.2
  cases item with
  | integer n => exact absurd rfl (hitem n)
  | _ => exact ⟨_, rfl⟩

end AuthorizationList

/-- Reordered arguments are refused alike, or make the same application id, the same authorization
list or the same builder, at once or step by step, unless one of them is mixed and given for a mask.
Given for a mask, just the mixed collections are accepted in some orders and refused in others. -/
theorem reordered_alike (b : Builder) {arguments arguments' : Arguments}
    (h : arguments.Reordered arguments') :
    Alike (ApplicationId.make arguments) (ApplicationId.make arguments') ∧
      ((∀ entry ∈ arguments, ¬ Argument.MixesMask entry.1 entry.2) →
        Alike (AuthorizationList.make arguments) (AuthorizationList.make arguments') ∧
          Alike (Builder.ofArguments arguments) (Builder.ofArguments arguments')) ∧
      (∀ a a' : Argument, a.Reordered a' →
        (∀ name, ¬ Argument.MixesMask name a → Alike (b.assign name a) (b.assign name a')) ∧
          ∀ f : Field, ¬ Argument.MixesMask f.name a →
            Alike (b.call (.field f) a) (b.call (.field f) a')) ∧
      ∀ items : List Argument,
        (OrderFree (fun items => AuthorizationList.make (maskArguments items)) items ↔
            ¬ (Argument.list items).IsMixed) ∧
          (OrderFree (fun items => b.assign Field.userAuthType.name (.list items)) items ↔
            ¬ (Argument.list items).IsMixed) := by
  refine ⟨ApplicationId.alike_make h, fun hunmixed => ?_, fun a a' ha => ?_, fun items => ?_⟩
  · exact ⟨AuthorizationList.alike_make h hunmixed, Builder.alike_ofArguments h hunmixed⟩
  · exact ⟨fun name hname => Builder.alike_assign ha b hname,
      fun f hf => Builder.alike_call ha b hf⟩
  · exact ⟨orderFree_make_iff items, Builder.orderFree_assign_iff b items⟩

/-- Arguments for a set, a mask and two tags outside the table. -/
def unsortedArguments : Arguments :=
  [("digest", .list [.integer 4, .integer 2]), ("user_auth_type", .list [.integer 2, .integer 1]),
    ("unknown_tags", .list
      [.list [.integer 1000, .octets [5, 0]], .list [.integer 100, .octets [5, 0]]])]

/-- The same arguments with the items of each the other way round. -/
def resortedArguments : Arguments :=
  [("digest", .list [.integer 2, .integer 4]), ("user_auth_type", .list [.integer 1, .integer 2]),
    ("unknown_tags", .list
      [.list [.integer 100, .octets [5, 0]], .list [.integer 1000, .octets [5, 0]]])]

/-- The two samples hold the same arguments in different orders. -/
lemma reordered_unsortedArguments : unsortedArguments.Reordered resortedArguments :=
  .cons ⟨rfl, .items (.swap ..)⟩ (.cons ⟨rfl, .items (.swap ..)⟩
    (.cons ⟨rfl, .items (.swap ..)⟩ .nil))

/-- Only the second of them is for a mask, and its items are integers. -/
lemma not_mixesMask_unsortedArguments :
    ∀ entry ∈ unsortedArguments, ¬ Argument.MixesMask entry.1 entry.2 := by
  rintro entry hentry ⟨hname, items, hitems, -, item, hitem, hno⟩
  simp only [unsortedArguments, List.mem_cons, List.not_mem_nil, or_false] at hentry
  rcases hentry with rfl | rfl | rfl
  · exact absurd hname (by decide)
  · obtain rfl := Argument.list.inj hitems
    simp only [List.mem_cons, List.not_mem_nil, or_false] at hitem
    rcases hitem with rfl | rfl
    · exact hno 2 rfl
    · exact hno 1 rfl
  · exact absurd hname (by decide)

/-- They make the same list, and the fields among them the same builder, step by step or at once. -/
theorem alike_unsortedArguments :
    (∃ a, AuthorizationList.make unsortedArguments = .ok a) ∧
      Alike (AuthorizationList.make unsortedArguments)
        (AuthorizationList.make resortedArguments) ∧
      Alike (Builder.ofArguments (unsortedArguments.take 2))
        (Builder.ofArguments (resortedArguments.take 2)) ∧
      Alike (Builder.empty.assign "digest" (.list [.integer 4, .integer 2]))
        (Builder.empty.assign "digest" (.list [.integer 2, .integer 4])) ∧
      Alike (ApplicationId.make [("signature_digests", .list [.octets [8], .octets [7]])])
        (ApplicationId.make [("signature_digests", .list [.octets [7], .octets [8]])]) := by
  have hmade := Option.isSome_iff_exists.mp
    (show (AuthorizationList.make unsortedArguments).toOption.isSome = true by decide +kernel)
  obtain ⟨a, ha⟩ := hmade
  have hfields : Arguments.Reordered (unsortedArguments.take 2) (resortedArguments.take 2) :=
    List.forall₂_take 2 reordered_unsortedArguments
  have hunmixed : ∀ entry ∈ unsortedArguments.take 2, ¬ Argument.MixesMask entry.1 entry.2 :=
    fun entry hentry => not_mixesMask_unsortedArguments entry (List.mem_of_mem_take hentry)
  have hdigests : Arguments.Reordered [("signature_digests", .list [.octets [8], .octets [7]])]
      [("signature_digests", .list [.octets [7], .octets [8]])] :=
    .cons ⟨rfl, .items (.swap ..)⟩ .nil
  obtain ⟨-, hlists, hsteps, -⟩ := reordered_alike .empty reordered_unsortedArguments
  exact ⟨⟨a, eq_ok_of_toOption ha⟩, (hlists not_mixesMask_unsortedArguments).1,
    ((reordered_alike .empty hfields).2.1 hunmixed).2,
    (hsteps _ _ (.items (.swap ..))).1 _ fun hmixes => absurd hmixes.1 (by decide),
    (reordered_alike .empty hdigests).1⟩

/-- The items of a mixed collection are accepted in one order and refused in the other. -/
theorem make_mixedItems :
    [Argument.integer 4294967295, .text "x"].Perm [.text "x", .integer 4294967295] ∧
      AuthorizationList.make
          [("user_auth_type", .list [.integer 4294967295, .text "x"])] =
        .ok (AuthorizationList.empty.set .userAuthType (.ofList [.known .any])) ∧
      AuthorizationList.make
          [("user_auth_type", .list [.text "x", .integer 4294967295])] =
        .error (.notInteger "user_auth_type" "str") :=
  ⟨.swap .., eq_ok_of_toOption (by decide +kernel), rfl⟩

end AttestedKey
