import Mathlib.Tactic

/-!
# Outcomes that are values

Readers and writers are chains of steps in `Except`.  A chain ends in a value exactly if each of
its steps does; `bind_eq_ok_iff` and its relatives take a chain apart step by step.  A loop over a
list (`List.foldlM`, `List.mapM`) is such a chain.  `Outcome.Ends` says of what kind the value or
the error of a chain is, which is shown step by step too.
-/

namespace AttestedKey

namespace Outcome

variable {ε α β σ : Type}

/-- An outcome that gives a value is that value. -/
lemma eq_ok_of_toOption {x : Except ε α} {a : α} (h : x.toOption = some a) : x = .ok a := by
  cases x with
  | ok b => exact congrArg Except.ok (Option.some.inj h)
  | error e => cases h

/-- A chain ends in a value if its first step does and the rest, run on that value, does too. -/
lemma bind_eq_ok_iff {x : Except ε α} {f : α → Except ε β} {b : β} :
    (x >>= f) = .ok b ↔ ∃ a, x = .ok a ∧ f a = .ok b := by
  cases x <;> simp [bind, Except.bind]

/-- A chain goes on with the value of its first step. -/
@[simp] lemma ok_bind (a : α) (f : α → Except ε β) : ((.ok a : Except ε α) >>= f) = f a := rfl

/-- A chain ends in the error of its first step. -/
@[simp] lemma error_bind (e : ε) (f : α → Except ε β) :
    ((.error e : Except ε α) >>= f) = .error e := rfl

/-- Returning a value is a success. -/
@[simp] lemma pure_eq_ok (a : α) : (pure a : Except ε α) = .ok a := rfl

/-- Of two lists that are related item by item, each item of the second has one in the first. -/
lemma exists_of_forall₂ {R : α → β → Prop} {l : List α} {l' : List β} (h : List.Forall₂ R l l')
    {b : β} (hb : b ∈ l') : ∃ a ∈ l, R a b := by
  induction h with
  | nil => cases hb
  | @cons a b' l l' hab _ ih =>
    rcases List.mem_cons.mp hb with rfl | hb
    · exact ⟨a, List.mem_cons_self .., hab⟩
    · obtain ⟨a', ha', hab'⟩ := ih hb
      exact ⟨a', List.mem_cons_of_mem _ ha', hab'⟩

/-- A list is mapped to a value if each of its items is. -/
lemma mapM_eq_ok_iff {f : α → Except ε β} {l : List α} {l' : List β} :
    l.mapM f = .ok l' ↔ List.Forall₂ (fun a b => f a = .ok b) l l' := by
  induction l generalizing l' with
  | nil => cases l' <;> simp
  | cons a l ih =>
    rw [List.mapM_cons, bind_eq_ok_iff]
    constructor
    · rintro ⟨b, hb, hrest⟩
      obtain ⟨bs, hbs, hl'⟩ := bind_eq_ok_iff.mp hrest
      rw [pure_eq_ok, Except.ok.injEq] at hl'
      subst hl'
      exact .cons hb (ih.mp hbs)
    · rintro (_ | ⟨hb, hbs⟩)
      exact ⟨_, hb, bind_eq_ok_iff.mpr ⟨_, ih.mpr hbs, rfl⟩⟩

/-- Each value that a list is mapped to comes from one of its items. -/
lemma exists_of_mem_of_mapM {f : α → Except ε β} {l : List α} {l' : List β}
    (h : l.mapM f = .ok l') {b : β} (hb : b ∈ l') : ∃ a ∈ l, f a = .ok b :=
  exists_of_forall₂ (mapM_eq_ok_iff.mp h) hb

/-- Items that were made of some values become those values again. -/
lemma mapM_map_eq_ok {f : α → β} {g : β → Except ε α} (h : ∀ a, g (f a) = .ok a) (l : List α) :
    (l.map f).mapM g = .ok l := by
  rw [mapM_eq_ok_iff, List.forall₂_map_left_iff]
  exact List.forall₂_same.mpr fun a _ => h a

/-- Where a step is known to give a value on exactly the items of some kind, a list is mapped
to a value exactly if all its items are of that kind. -/
lemma mapM_eq_ok_iff_map {f : α → Except ε β} {p : α → Prop} {g : α → β}
    (hf : ∀ a b, f a = .ok b ↔ p a ∧ b = g a) {l : List α} {l' : List β} :
    l.mapM f = .ok l' ↔ (∀ a ∈ l, p a) ∧ l' = l.map g := by
  rw [mapM_eq_ok_iff]
  induction l generalizing l' with
  | nil => cases l' <;> simp
  | cons a l ih =>
    cases l' with
    | nil => simp
    | cons b l' =>
      rw [List.forall₂_cons, hf, ih, List.forall_mem_cons, List.map_cons, List.cons.injEq]
      tauto

/-- Where a step is known to give its outcome on exactly the items of some kind, filtering a list
by it gives a value exactly if all its items are of that kind. -/
lemma filterMapM_eq_ok_iff_filterMap {f : α → Except ε (Option β)} {p : α → Prop} {g : α → Option β}
    (hf : ∀ a o, f a = .ok o ↔ p a ∧ o = g a) {l : List α} {l' : List β} :
    l.filterMapM f = .ok l' ↔ (∀ a ∈ l, p a) ∧ l' = l.filterMap g := by
  induction l generalizing l' with
  | nil => simp [eq_comm]
  | cons a l ih =>
    rw [List.filterMapM_cons, bind_eq_ok_iff, List.forall_mem_cons, List.filterMap_cons]
    constructor
    · rintro ⟨o, ho, hrest⟩
      obtain ⟨hp, rfl⟩ := (hf a o).mp ho
      cases hg : g a with
      | none =>
        obtain ⟨hall, rfl⟩ := ih.mp (by simpa [hg] using hrest)
        exact ⟨⟨hp, hall⟩, rfl⟩
      | some b =>
        simp only [hg] at hrest
        obtain ⟨bs, hbs, hl'⟩ := bind_eq_ok_iff.mp hrest
        obtain ⟨hall, rfl⟩ := ih.mp hbs
        exact ⟨⟨hp, hall⟩, (Except.ok.inj hl').symm⟩
    · rintro ⟨⟨hp, hall⟩, rfl⟩
      refine ⟨g a, (hf a _).mpr ⟨hp, rfl⟩, ?_⟩
      cases g a with
      | none => exact ih.mpr ⟨hall, rfl⟩
      | some b => exact bind_eq_ok_iff.mpr ⟨_, ih.mpr ⟨hall, rfl⟩, rfl⟩

/-- A loop ends in a value if its first round does and the remaining rounds do. -/
lemma foldlM_cons_eq_ok_iff {f : σ → α → Except ε σ} {s t : σ} {a : α} {l : List α} :
    (a :: l).foldlM f s = .ok t ↔ ∃ s', f s a = .ok s' ∧ l.foldlM f s' = .ok t := by
  rw [List.foldlM_cons, bind_eq_ok_iff]

/-- A loop whose checks do not look at its state makes all checks first and then all changes. -/
lemma foldlM_map_eq {γ : Type} (check : α → Except ε γ) (change : σ → γ → σ) (l : List α) (s : σ) :
    (l.foldlM (fun s a => (check a).map (change s)) s) =
      (l.mapM check).map (fun cs => cs.foldl change s) := by
  induction l generalizing s with
  | nil => rfl
  | cons a l ih =>
    rw [List.foldlM_cons, List.mapM_cons]
    cases check a with
    | error e => rfl
    | ok c =>
      have hrest := ih (change s c)
      change l.foldlM _ (change s c) = _
      rw [hrest, ok_bind]
      cases l.mapM check <;> rfl

/-! ### Chains in another order -/

/-- Items in another order are mapped to values in another order. -/
lemma mapM_eq_ok_of_perm {f : α → Except ε β} {l l' : List α} {bs : List β} (hperm : l.Perm l')
    (h : l'.mapM f = .ok bs) : ∃ bs', l.mapM f = .ok bs' ∧ bs'.Perm bs := by
  obtain ⟨bs', hall, hbs⟩ := List.perm_comp_forall₂ hperm (mapM_eq_ok_iff.mp h)
  exact ⟨bs', mapM_eq_ok_iff.mpr hall, hbs⟩

/-- A loop whose steps commute, in states of a kind that they keep, comes to the same end in any
order. -/
lemma foldlM_eq_ok_of_perm {I : σ → Prop} {f : σ → α → Except ε σ}
    (hkeep : ∀ s a t, I s → f s a = .ok t → I t)
    (hswap : ∀ s a b s' t, I s → f s a = .ok s' → f s' b = .ok t →
      ∃ s'', f s b = .ok s'' ∧ f s'' a = .ok t)
    {l l' : List α} (hperm : l.Perm l') {s t : σ} (hs : I s) (h : l.foldlM f s = .ok t) :
    l'.foldlM f s = .ok t := by
  induction hperm generalizing s t with
  | nil => exact h
  | cons a _ ih =>
    obtain ⟨s', hs', hrest⟩ := foldlM_cons_eq_ok_iff.mp h
    exact foldlM_cons_eq_ok_iff.mpr ⟨s', hs', ih (hkeep s a s' hs hs') hrest⟩
  | swap a b l =>
    obtain ⟨s', hs', h⟩ := foldlM_cons_eq_ok_iff.mp h
    obtain ⟨u, hu, hrest⟩ := foldlM_cons_eq_ok_iff.mp h
    obtain ⟨s'', hs'', hu'⟩ := hswap s b a s' u hs hs' hu
    exact foldlM_cons_eq_ok_iff.mpr ⟨s'', hs'', foldlM_cons_eq_ok_iff.mpr ⟨u, hu', hrest⟩⟩
  | trans _ _ ih ih' => exact ih' hs (ih hs h)

/-! ### Chains without their errors -/

/-- Two outcomes are the same value, or both are errors. -/
def Alike (x y : Except ε α) : Prop := x.toOption = y.toOption

namespace Alike

/-- An outcome is like itself. -/
lemma refl (x : Except ε α) : Alike x x := rfl

/-- Likeness does not depend on the order. -/
lemma symm {x y : Except ε α} (h : Alike x y) : Alike y x := Eq.symm h

/-- Likeness can be passed on. -/
lemma trans {x y z : Except ε α} (h : Alike x y) (h' : Alike y z) : Alike x z := Eq.trans h h'

/-- What is like a value is the same value. -/
lemma ok_of_ok {x y : Except ε α} (h : Alike x y) {a : α} (hx : x = .ok a) : y = .ok a := by
  subst hx
  exact eq_ok_of_toOption h.symm

/-- Outcomes are alike if each value of one of them is the value of the other one. -/
lemma of_ok {x y : Except ε α} (h : ∀ a, x = .ok a → y = .ok a)
    (h' : ∀ a, y = .ok a → x = .ok a) : Alike x y := by
  cases x with
  | ok a => rw [h a rfl]; rfl
  | error e =>
    cases y with
    | ok a => exact absurd (h' a rfl) nofun
    | error e' => rfl

/-- Chains are alike if their first steps are, and the rest after each value. -/
lemma bind {x y : Except ε α} {f g : α → Except ε β} (h : Alike x y)
    (hrest : ∀ a, Alike (f a) (g a)) : Alike (x >>= f) (y >>= g) := by
  cases x with
  | ok a =>
    rw [h.ok_of_ok rfl]
    exact hrest a
  | error e =>
    cases y with
    | ok a => cases h
    | error e' => rfl

/-- Loops over lists that are related item by item are alike if their rounds are. -/
lemma foldlM {R : α → β → Prop} {f : σ → α → Except ε σ} {g : σ → β → Except ε σ} {l : List α}
    {l' : List β} (h : List.Forall₂ R l l') (hstep : ∀ s a b, R a b → Alike (f s a) (g s b))
    (s : σ) :
    Alike (l.foldlM f s) (l'.foldlM g s) := by
  induction h generalizing s with
  | nil => exact refl _
  | cons hab _ ih =>
    rw [List.foldlM_cons, List.foldlM_cons]
    exact (hstep s _ _ hab).bind ih

/-- What is made of mapped items without regard to their order does not depend on it. -/
lemma mapM_of_perm {f : α → Except ε β} {g : List β → σ}
    (hg : ∀ bs bs', bs.Perm bs' → g bs = g bs') {l l' : List α} (hperm : l.Perm l') :
    Alike (l.mapM f >>= fun bs => .ok (g bs)) (l'.mapM f >>= fun bs => .ok (g bs)) := by
  have hmake : ∀ {m m' : List α}, m.Perm m' → ∀ c, (m.mapM f >>= fun bs => .ok (g bs)) = .ok c →
      (m'.mapM f >>= fun bs => .ok (g bs)) = .ok c := by
    intro m m' hm c hc
    obtain ⟨bs, hbs, hc⟩ := bind_eq_ok_iff.mp hc
    obtain ⟨bs', hbs', hpermuted⟩ := mapM_eq_ok_of_perm hm.symm hbs
    rw [hbs', ok_bind, hg _ _ hpermuted]
    exact hc
  exact of_ok (hmake hperm) (hmake hperm.symm)

end Alike

section Renaming

variable {ε' : Type} (g : ε → ε')

/-- Renaming the errors of a chain is renaming those of its steps. -/
lemma mapError_bind (x : Except ε α) (f : α → Except ε β) :
    (x >>= f).mapError g = x.mapError g >>= fun a => (f a).mapError g := by
  cases x <;> rfl

/-- Renaming the errors of a mapping is renaming those of its items. -/
lemma mapError_mapM (f : α → Except ε β) (l : List α) :
    (l.mapM f).mapError g = l.mapM fun a => (f a).mapError g := by
  induction l with
  | nil => rfl
  | cons a l ih =>
    rw [List.mapM_cons, List.mapM_cons, mapError_bind, ← ih]
    congr 1
    funext b
    rw [mapError_bind]
    rfl

end Renaming

/-! ### The kinds of value and error of a chain -/

/-- An outcome is a value of one kind or an error of another. -/
def Ends (fault : ε → Prop) (value : α → Prop) : Except ε α → Prop
  | .ok a => value a
  | .error e => fault e

namespace Ends

variable {fault : ε → Prop} {p : α → Prop} {q : β → Prop}

/-- A chain ends as its last step does, if the errors of the steps before are of the right kind. -/
lemma bind {x : Except ε α} {f : α → Except ε β} (hx : Ends fault p x)
    (hf : ∀ a, p a → Ends fault q (f a)) : Ends fault q (x >>= f) := by
  cases x with
  | ok a => exact hf a hx
  | error e => exact hx

/-- What is known of the value of a chain may be weakened. -/
lemma imp {p' : α → Prop} {x : Except ε α} (hx : Ends fault p x) (h : ∀ a, p a → p' a) :
    Ends fault p' x := by
  cases x with
  | ok a => exact h a hx
  | error e => exact hx

/-- What holds of the errors of a chain, holds of them in other words. -/
lemma mono {fault' : ε → Prop} {x : Except ε α} (hx : Ends fault p x)
    (h : ∀ e, fault e → fault' e) : Ends fault' p x := by
  cases x with
  | ok a => exact hx
  | error e => exact h e hx

/-- The value of a chain is of a kind if it is whenever there is one. -/
lemma of_eq {x : Except ε α} (hx : Ends fault (fun _ => True) x) (h : ∀ a, x = .ok a → p a) :
    Ends fault p x := by
  cases x with
  | ok a => exact h a rfl
  | error e => exact hx

/-- What each round keeps, a loop keeps. -/
lemma foldlM {I : σ → Prop} {f : σ → α → Except ε σ} {l : List α}
    (hf : ∀ s, I s → ∀ a ∈ l, Ends fault I (f s a)) {s : σ} (hs : I s) :
    Ends fault I (l.foldlM f s) := by
  induction l generalizing s with
  | nil => exact hs
  | cons a l ih =>
    rw [List.foldlM_cons]
    refine (hf s hs a (List.mem_cons_self ..)).bind fun t ht => ih (fun t ht b hb => ?_) ht
    exact hf t ht b (List.mem_cons_of_mem _ hb)

/-- If each item of a list is of a kind in case it can be mapped, all are in case the list can. -/
lemma mapM {f : α → Except ε β} {l : List α} (hf : ∀ a ∈ l, Ends fault (fun _ => p a) (f a)) :
    Ends fault (fun _ => ∀ a ∈ l, p a) (l.mapM f) := by
  induction l with
  | nil => exact fun _ h => absurd h List.not_mem_nil
  | cons a l ih =>
    obtain ⟨hhead, htail⟩ := List.forall_mem_cons.mp hf
    rw [List.mapM_cons]
    refine hhead.bind fun b hb => ?_
    exact (ih htail).bind fun bs hall => List.forall_mem_cons.mpr ⟨hb, hall⟩

end Ends

end Outcome

end AttestedKey
