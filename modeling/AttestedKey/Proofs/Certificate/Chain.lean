import AttestedKey.Certificate.Library
import AttestedKey.KeyDescription
import AttestedKey.Proofs.Outcome

/-!
# The certificate closest to the root decides

A key that a secure environment has attested can sign certificates of its own, and whoever holds
it can put any number of them in front of a chain.  `RootDecides` says that this changes nothing:
as soon as the certificates nearer the root settle the outcome of a search, with a value or with
any failure other than that no extension was found, the outcome stands whatever comes before them.

The search goes down the chain by position.  `findBefore_eq` turns it into `firstSettled`, the
recursion along the reversed chain, and `firstSettled_append` says what that makes of two parts of
a chain.  All this holds for any library of certificates; `find_own` says that the search of
`Chain.attestation` is the one with the library of this development.
-/

namespace AttestedKey

open Outcome

/-- Whether a failure says that no attestation extension was found. -/
def LookupFailure.isMissing : LookupFailure → Bool
  | .missing _ | .missingInChain => true
  | _ => false

/-- Whether a failure of a search says so; a failure of the library never does. -/
def CertificateLibrary.isMissing {ε : Type} : LookupFailure ⊕ ε → Bool
  | .inl f => f.isMissing
  | .inr _ => false

section Searching

variable {κ γ η β : Type} (missing : η → Bool)

/-- An outcome is settled unless it says that nothing was found. -/
def Settled : Except η β → Prop
  | .ok _ => True
  | .error e => missing e = false

/-- A value settles the search. -/
@[simp] lemma settled_ok (b : β) : Settled missing (.ok b : Except η β) := trivial

/-- A failure settles the search unless it says that something is missing. -/
@[simp] lemma settled_error {e : η} :
    Settled missing (.error e : Except η β) ↔ missing e = false := Iff.rfl

/-- The first settled outcome along a list, or the given failure where there is none. -/
def firstSettled (nothing : η) (get : γ → Except η β) : List γ → Except η β
  | [] => .error nothing
  | c :: rest =>
    match get c with
    | .ok b => .ok b
    | .error e => if missing e then firstSettled nothing get rest else .error e

variable {missing} {nothing : η} {get : γ → Except η β}

/-- The search ends at its first entry if that one settles it. -/
lemma firstSettled_cons_of_settled {c : γ} {rest : List γ} (h : Settled missing (get c)) :
    firstSettled missing nothing get (c :: rest) = get c := by
  rw [firstSettled]
  cases hc : get c with
  | ok b => rfl
  | error e =>
    have he : missing e = false := by simpa [hc] using h
    simp [he]

/-- The search goes on behind an entry that does not settle it. -/
lemma firstSettled_cons_of_not_settled {c : γ} {rest : List γ} (h : ¬ Settled missing (get c)) :
    firstSettled missing nothing get (c :: rest) = firstSettled missing nothing get rest := by
  rw [firstSettled]
  cases hc : get c with
  | ok b => exact absurd (by simp [hc]) h
  | error e =>
    have he : missing e = true := by simpa [hc] using h
    simp [he]

/-- What settles the first part of a list settles the whole of it. -/
lemma firstSettled_append_of_settled {l l' : List γ}
    (h : Settled missing (firstSettled missing nothing get l))
    (hnothing : missing nothing = true) :
    firstSettled missing nothing get (l ++ l') = firstSettled missing nothing get l := by
  induction l with
  | nil => simp [firstSettled, hnothing] at h
  | cons c rest ih =>
    rw [List.cons_append]
    by_cases hc : Settled missing (get c)
    · rw [firstSettled_cons_of_settled hc, firstSettled_cons_of_settled hc]
    · rw [firstSettled_cons_of_not_settled hc] at h
      rw [firstSettled_cons_of_not_settled hc, firstSettled_cons_of_not_settled hc]
      exact ih h

/-- Where nothing was found along the first part of a list, the second part decides. -/
lemma firstSettled_append_of_not_settled {l l' : List γ}
    (h : ¬ Settled missing (firstSettled missing nothing get l)) :
    firstSettled missing nothing get (l ++ l') = firstSettled missing nothing get l' := by
  induction l with
  | nil => rfl
  | cons c rest ih =>
    rw [List.cons_append]
    by_cases hc : Settled missing (get c)
    · rw [firstSettled_cons_of_settled hc] at h
      exact absurd hc h
    · rw [firstSettled_cons_of_not_settled hc] at h
      rw [firstSettled_cons_of_not_settled hc]
      exact ih h

/-- The search finds nothing where no entry settles it. -/
lemma firstSettled_of_forall {l : List γ} (h : ∀ c ∈ l, ¬ Settled missing (get c)) :
    firstSettled missing nothing get l = .error nothing := by
  induction l with
  | nil => rfl
  | cons c rest ih =>
    rw [firstSettled_cons_of_not_settled (h c (List.mem_cons_self ..))]
    exact ih fun c' hc' => h c' (List.mem_cons_of_mem _ hc')

end Searching

/-! ### The certificate that decides -/

/-- Reads the record that a search has found. -/
def recordOf {κ η : Type} (find : List κ → Except η Octets) (rigor : Rigor) (chain : List κ) :
    Except (η ⊕ Fault) KeyDescription := do
  let octets ← (find chain).mapError .inl
  (KeyDescription.decode rigor octets).mapError .inr

/-- A search in which the certificate closest to the root decides: `get` looks at one certificate
and `find` at a chain that starts with the leaf. -/
structure RootDecides {κ η : Type} (missing : η → Bool) (loads : κ → Prop)
    (get : κ → Except η Octets) (find : List κ → Except η Octets) : Prop where
  /-- What the part of a chain nearer the root settles stays as it is. -/
  settled : ∀ {p c : List κ}, (∀ k ∈ p, loads k) → (∀ k ∈ c, loads k) →
    Settled missing (find c) → find (p ++ c) = find c
  /-- Where that part settles nothing, the part below it decides. -/
  unsettled : ∀ {p c : List κ}, (∀ k ∈ p, loads k) → (∀ k ∈ c, loads k) →
    ¬ Settled missing (find c) → find (p ++ c) = find p
  /-- In a chain without certificates nothing is found. -/
  empty : ¬ Settled missing (find [])
  /-- A chain of one certificate has the outcome of that certificate, but for the words in which
  it is said that nothing was found. -/
  single : ∀ k, find [k] = get k ∨ ¬ Settled missing (find [k]) ∧ ¬ Settled missing (get k)
  /-- The certificate closest to the root that settles anything decides. -/
  closest : ∀ {p : List κ} {k : κ} {c : List κ}, (∀ k' ∈ p, loads k') → loads k →
    (∀ k' ∈ c, loads k') → Settled missing (get k) → (∀ k' ∈ c, ¬ Settled missing (get k')) →
    find (p ++ k :: c) = get k
  /-- The record that is read does not depend on what stands below that certificate. -/
  record : ∀ {p p' : List κ} {k : κ} {c : List κ}, (∀ k' ∈ p, loads k') → (∀ k' ∈ p', loads k') →
    loads k → (∀ k' ∈ c, loads k') → Settled missing (get k) →
    (∀ k' ∈ c, ¬ Settled missing (get k')) → ∀ rigor,
    recordOf find rigor (p ++ k :: c) = recordOf find rigor (p' ++ k :: c)

section

variable {κ γ η : Type} {missing : η → Bool} {nothing : η} {load : κ → Except η γ}
  {attestation : γ → Except η Octets} {find : List κ → Except η Octets}

/-- Certificates that can be loaded one by one can be loaded as a chain. -/
lemma exists_mapM_of_loads {chain : List κ} (h : ∀ k ∈ chain, ∃ c, load k = .ok c) :
    ∃ cs, chain.mapM load = .ok cs := by
  induction chain with
  | nil => exact ⟨[], rfl⟩
  | cons k rest ih =>
    obtain ⟨c, hc⟩ := h k (List.mem_cons_self ..)
    obtain ⟨cs, hcs⟩ := ih fun k' hk' => h k' (List.mem_cons_of_mem _ hk')
    refine ⟨c :: cs, mapM_eq_ok_iff.mpr ?_⟩
    exact List.Forall₂.cons hc (mapM_eq_ok_iff.mp hcs)

/-- What is loaded from two chains is loaded from both, one after the other. -/
lemma mapM_append_eq_ok {p c : List κ} {xs ys : List γ} (hp : p.mapM load = .ok xs)
    (hc : c.mapM load = .ok ys) : (p ++ c).mapM load = .ok (xs ++ ys) := by
  rw [mapM_eq_ok_iff] at hp hc ⊢
  exact List.rel_append hp hc

section

variable (hnothing : missing nothing = true) (hfind : ∀ chain, find chain =
  chain.mapM load >>= fun cs => firstSettled missing nothing attestation cs.reverse)

include hnothing hfind

/-- What settles the search in a chain settles it behind any other loadable chain too. -/
lemma find_append_of_settled {p c : List κ} (hp : ∀ k ∈ p, ∃ x, load k = .ok x)
    (hc : ∀ k ∈ c, ∃ x, load k = .ok x) (h : Settled missing (find c)) :
    find (p ++ c) = find c := by
  obtain ⟨xs, hxs⟩ := exists_mapM_of_loads hp
  obtain ⟨ys, hys⟩ := exists_mapM_of_loads hc
  rw [hfind, hys, ok_bind] at h
  rw [hfind, hfind, mapM_append_eq_ok hxs hys, hys, ok_bind, ok_bind, List.reverse_append]
  exact firstSettled_append_of_settled h hnothing

/-- The first certificate decides if it settles the search and none behind it does. -/
lemma find_cons_of_settled {k : κ} {c : List κ} (hk : ∃ x, load k = .ok x)
    (hc : ∀ k' ∈ c, ∃ x, load k' = .ok x) (h : Settled missing (load k >>= attestation))
    (hbelow : ∀ k' ∈ c, ¬ Settled missing (load k' >>= attestation)) :
    find (k :: c) = load k >>= attestation := by
  obtain ⟨x, hx⟩ := hk
  obtain ⟨ys, hys⟩ := exists_mapM_of_loads hc
  have hall : (k :: c).mapM load = .ok (x :: ys) :=
    mapM_eq_ok_iff.mpr (List.Forall₂.cons hx (mapM_eq_ok_iff.mp hys))
  have hpassed : ∀ y ∈ ys.reverse, ¬ Settled missing (attestation y) := by
    intro y hy
    obtain ⟨k', hk', hload⟩ := exists_of_mem_of_mapM hys (List.mem_reverse.mp hy)
    have := hbelow k' hk'
    rwa [hload, ok_bind] at this
  have hskip : ¬ Settled missing (firstSettled missing nothing attestation ys.reverse) := by
    rw [firstSettled_of_forall hpassed, settled_error, hnothing]
    exact Bool.noConfusion
  rw [hx, ok_bind] at h ⊢
  rw [hfind, hall, ok_bind, List.reverse_cons, firstSettled_append_of_not_settled hskip]
  exact firstSettled_cons_of_settled h

/-- The certificate closest to the root decides in a search that loads a chain and takes the first
settled outcome from its end. -/
lemma RootDecides.of_firstSettled :
    RootDecides missing (fun k => ∃ c, load k = .ok c) (fun k => load k >>= attestation) find := by
  -- What is found from a settled certificate on hides what is in front of it.
  have hclosest : ∀ {p : List κ} {k : κ} {c : List κ}, (∀ k' ∈ p, ∃ x, load k' = .ok x) →
      (∃ x, load k = .ok x) → (∀ k' ∈ c, ∃ x, load k' = .ok x) →
      Settled missing (load k >>= attestation) →
      (∀ k' ∈ c, ¬ Settled missing (load k' >>= attestation)) →
      find (p ++ k :: c) = load k >>= attestation := by
    intro p k c hp hk hc h hbelow
    have hfound := find_cons_of_settled hnothing hfind hk hc h hbelow
    have hall : ∀ k' ∈ k :: c, ∃ x, load k' = .ok x := List.forall_mem_cons.mpr ⟨hk, hc⟩
    rw [find_append_of_settled hnothing hfind hp hall (hfound ▸ h), hfound]
  refine ⟨find_append_of_settled hnothing hfind, ?_, ?_, ?_, hclosest, ?_⟩
  · intro p c hp hc h
    obtain ⟨xs, hxs⟩ := exists_mapM_of_loads hp
    obtain ⟨ys, hys⟩ := exists_mapM_of_loads hc
    rw [hfind, hys, ok_bind] at h
    rw [hfind, hfind, mapM_append_eq_ok hxs hys, hxs, ok_bind, ok_bind, List.reverse_append]
    exact firstSettled_append_of_not_settled h
  · rw [hfind]
    simp [firstSettled, hnothing]
  · intro k
    rw [hfind]
    cases hk : load k with
    | error e =>
      left
      simp [hk]
    | ok c =>
      by_cases hc : Settled missing (attestation c)
      · left
        simpa [hk] using firstSettled_cons_of_settled hc
      · right
        refine ⟨?_, hc⟩
        simp [hk, firstSettled_cons_of_not_settled hc, firstSettled, hnothing]
  · intro p p' k c hp hp' hk hc h hbelow rigor
    unfold recordOf
    rw [hclosest hp hk hc h hbelow, hclosest hp' hk hc h hbelow]

end

end

/-! ### Any library -/

namespace CertificateLibrary

variable {γ ε : Type} (L : CertificateLibrary γ ε)

/-- The value of the attestation extension of a certificate that is loaded. -/
def attestation (c : γ) : Except (LookupFailure ⊕ ε) Octets := do
  let extensions ← L.rawExtensions c
  (findExtension extensions attestationIdentifier).mapError .inl

/-- Looking at one certificate is loading it and looking for its attestation. -/
lemma get_eq (k : Presented γ) : L.get k = L.load k >>= L.attestation := rfl

/-- A certificate that is loaded already is only looked at. -/
lemma get_loaded (c : γ) : L.get (.loaded c) = L.attestation c := rfl

/-- Looking for an extension says that nothing was found in one way only. -/
lemma findExtension_eq_missing {extensions : List Extension} {identifier : String}
    {f : LookupFailure} (h : findExtension extensions identifier = .error f)
    (hf : f.isMissing = true) : f = .missing identifier := by
  unfold findExtension at h
  split at h
  · exact (Except.error.inj h).symm
  · cases h
  · cases h
    cases hf

/-- The one way in which an attestation can be missing is that the extension is. -/
lemma attestation_eq_missing {c : γ} {e : LookupFailure ⊕ ε} (h : L.attestation c = .error e)
    (he : isMissing e = true) : e = .inl (.missing attestationIdentifier) := by
  unfold attestation rawExtensions at h
  cases hc : L.extensions c with
  | ok listed =>
    simp only [hc, ok_bind] at h
    cases hf : findExtension (listed.filterMap fun e => e.raw?.map (⟨e.identifier, ·⟩))
        attestationIdentifier with
    | ok value => simp [hf, Except.mapError] at h
    | error f =>
      simp only [hf, Except.mapError, Except.error.injEq] at h
      subst h
      exact congrArg Sum.inl (findExtension_eq_missing hf he)
  | error failure =>
    cases failure <;>
    · simp only [hc, error_bind, Except.error.injEq] at h
      subst h
      cases he

/-- Looking at the certificates in front of a position is going through them in reverse. -/
lemma findBefore_eq (chain : List γ) (position : Nat) (h : position ≤ chain.length) :
    L.findBefore chain position h =
      firstSettled isMissing (.inl .missingInChain) L.attestation
        (chain.take position).reverse := by
  induction position with
  | zero => rfl
  | succ position ih =>
    have hlast : (chain.take (position + 1)).reverse =
        chain[position] :: (chain.take position).reverse := by
      rw [List.take_succ_eq_append_getElem h, List.reverse_append]
      rfl
    rw [hlast, findBefore, firstSettled, get_loaded]
    cases hc : L.attestation chain[position] with
    | ok value => rfl
    | error e =>
      cases he : isMissing e with
      | true =>
        have := L.attestation_eq_missing hc he
        subst this
        exact ih (Nat.le_of_succ_le h)
      | false =>
        -- The loop passes over one failure only, and that is one of those that `isMissing` names.
        split
        next hmissing =>
          cases hmissing
          cases he
        next => simp [he]

/-- A chain is searched from its last certificate to the first, once all are loaded. -/
lemma find_eq (chain : List (Presented γ)) :
    L.find chain = chain.mapM L.load >>= fun cs =>
      firstSettled isMissing (.inl .missingInChain) L.attestation cs.reverse := by
  unfold find
  congr 1
  funext cs
  rw [findBefore_eq, List.take_length]

/-- Whatever a library makes of certificates, the one closest to the root decides. -/
lemma rootDecides :
    RootDecides isMissing (fun k => ∃ c, L.load k = .ok c) L.get L.find :=
  RootDecides.of_firstSettled rfl L.find_eq

end CertificateLibrary

/-! ### The library of this development -/

/-- A search that is another one under different names is decided by the same certificates. -/
lemma RootDecides.rename {κ κ' η η' : Type} {missing : η → Bool} {missing' : η' → Bool}
    {loads : κ → Prop} {get : κ → Except η Octets} {find : List κ → Except η Octets}
    (h : RootDecides missing loads get find) (f : κ' → κ) (g : η → η')
    (hmissing : ∀ e, missing' (g e) = missing e) :
    RootDecides missing' (fun k => loads (f k)) (fun k => (get (f k)).mapError g)
      (fun chain => (find (chain.map f)).mapError g) := by
  have hsettled : ∀ x : Except η Octets, Settled missing' (x.mapError g) ↔ Settled missing x := by
    intro x
    cases x with
    | ok b => exact Iff.rfl
    | error e => simp [Except.mapError, hmissing]
  have hall : ∀ {chain : List κ'}, (∀ k ∈ chain, loads (f k)) → ∀ k ∈ chain.map f, loads k :=
    fun h => List.forall_mem_map.mpr h
  have hclosest : ∀ {p : List κ'} {k : κ'} {c : List κ'}, (∀ k' ∈ p, loads (f k')) →
      loads (f k) → (∀ k' ∈ c, loads (f k')) → Settled missing' ((get (f k)).mapError g) →
      (∀ k' ∈ c, ¬ Settled missing' ((get (f k')).mapError g)) →
      (find ((p ++ k :: c).map f)).mapError g = (get (f k)).mapError g := by
    intro p k c hp hk hc hs hbelow
    rw [List.map_append, List.map_cons, h.closest (hall hp) hk (hall hc) ((hsettled _).mp hs)]
    exact List.forall_mem_map.mpr fun k' hk' => fun hs' => hbelow k' hk' ((hsettled _).mpr hs')
  refine ⟨?_, ?_, ?_, ?_, hclosest, ?_⟩
  · intro p c hp hc hs
    rw [hsettled] at hs
    rw [List.map_append, h.settled (hall hp) (hall hc) hs]
  · intro p c hp hc hs
    rw [hsettled] at hs
    rw [List.map_append, h.unsettled (hall hp) (hall hc) hs]
  · rw [hsettled]
    exact h.empty
  · intro k
    rw [hsettled, hsettled, List.map_singleton]
    exact (h.single (f k)).imp_left (congrArg (Except.mapError g))
  · intro p p' k c hp hp' hk hc hs hbelow rigor
    unfold recordOf
    simp only
    rw [hclosest hp hk hc hs hbelow, hclosest hp' hk hc hs hbelow]

namespace Chain

/-- The value that a search through some certificates, given as arguments, finds. -/
def find (certificates : List Argument) : Except LookupFailure Octets := do
  let chain ← ofArgument (.list certificates)
  attestation chain

/-- The value that looking at one certificate, given as an argument, finds. -/
def get (certificate : Argument) : Except LookupFailure Octets := do
  let c ← Certificate.ofArgument certificate
  c.attestation

/-- A certificate by itself is a chain of one. -/
lemma ofArgument_octets (octets : Octets) :
    ofArgument (.octets octets) = ofArgument (.list [.octets octets]) := by
  unfold ofArgument Argument.items?
  simp [List.mapM_cons]

end Chain

namespace CertificateLibrary

/-- The library of this development loads an argument as certificates are loaded here. -/
lemma load_own (a : Argument) :
    (own.load (.ofArgument a)).mapError LoadFailure.asLookup = Certificate.ofArgument a := by
  cases a with
  | octets o =>
    simp only [load, own, Presented.ofArgument, Certificate.ofArgument]
    cases Certificate.decode o with
    | none => rfl
    | some c =>
      dsimp only
      split <;> rfl
  | _ => rfl

/-- The library of this development finds the attestation that is found here. -/
lemma attestation_own (c : Certificate) :
    (own.attestation c).mapError LoadFailure.asLookup = c.attestation := by
  have hraw : (c.extensions.map fun e => (⟨e.identifier, some e.value⟩ : ListedExtension)).filterMap
      (fun e => e.raw?.map (⟨e.identifier, ·⟩)) = c.extensions := by
    rw [List.filterMap_map]
    exact List.filterMap_some
  simp only [attestation, rawExtensions, own, Certificate.attestation]
  cases Certificate.firstRepeated [] c.extensions with
  | some identifier => rfl
  | none =>
    simp only [hraw, ok_bind]
    cases findExtension c.extensions attestationIdentifier <;> rfl

/-- So it looks at one certificate as is done here. -/
lemma get_own (a : Argument) :
    (own.get (.ofArgument a)).mapError LoadFailure.asLookup = Chain.get a := by
  rw [get_eq, mapError_bind, load_own]
  unfold Chain.get
  congr 1
  funext c
  exact attestation_own c

/-- A failure means that something is missing under either name. -/
lemma isMissing_asLookup (e : LookupFailure ⊕ LoadFailure) :
    (LoadFailure.asLookup e).isMissing = isMissing e := by
  rcases e with f | _ | _ <;> rfl

/-- The search of this development goes through a reversed chain to the first settled outcome. -/
lemma search_eq (chain : List Certificate) :
    Chain.search chain =
      (firstSettled isMissing (.inl .missingInChain) own.attestation chain).mapError
        LoadFailure.asLookup := by
  induction chain with
  | nil => rfl
  | cons c rest ih =>
    rw [Chain.search, firstSettled, ← attestation_own]
    cases hc : own.attestation c with
    | ok value => rfl
    | error e =>
      cases he : isMissing e with
      | true =>
        have := own.attestation_eq_missing hc he
        subst this
        exact ih
      | false =>
        simp only [Except.mapError, he, Bool.false_eq_true, if_false]
        split
        next identifier hmissing =>
          rw [Except.error.injEq] at hmissing
          rw [← isMissing_asLookup, hmissing] at he
          cases he
        next => rfl

/-- The search of this development is the search with its own library. -/
lemma find_own (certificates : List Argument) :
    (own.find (certificates.map Presented.ofArgument)).mapError LoadFailure.asLookup =
      Chain.find certificates := by
  have hload : (certificates.map Presented.ofArgument).mapM
      (fun k => (own.load k).mapError LoadFailure.asLookup) =
        certificates.mapM Certificate.ofArgument := by
    rw [List.mapM_map]
    congr 1
    funext a
    exact load_own a
  rw [find_eq, mapError_bind, mapError_mapM, hload]
  unfold Chain.find Chain.ofArgument Argument.items? Chain.attestation
  congr 1
  funext cs
  exact (search_eq cs.reverse).symm

/-- What the library of this development can load is what can be loaded here. -/
lemma loads_own (a : Argument) :
    (∃ c, own.load (.ofArgument a) = .ok c) ↔ ∃ c, Certificate.ofArgument a = .ok c := by
  rw [← load_own]
  cases own.load (.ofArgument a) with
  | ok c => simp [Except.mapError]
  | error e => simp [Except.mapError]

end CertificateLibrary

/-- **The certificate closest to the root decides**, in the search of this development and in the
search with any other library. -/
theorem rootDecides_find :
    RootDecides LookupFailure.isMissing (fun a => ∃ c, Certificate.ofArgument a = .ok c)
      Chain.get Chain.find ∧
    ∀ {γ ε : Type} (L : CertificateLibrary γ ε),
      RootDecides CertificateLibrary.isMissing (fun k => ∃ c, L.load k = .ok c) L.get L.find := by
  refine ⟨?_, fun L => L.rootDecides⟩
  have h := CertificateLibrary.own.rootDecides.rename Presented.ofArgument LoadFailure.asLookup
    CertificateLibrary.isMissing_asLookup
  simpa only [CertificateLibrary.loads_own, CertificateLibrary.get_own,
    CertificateLibrary.find_own] using h

/-- A certificate that the attested key has signed comes first, and its record counts for
nothing. -/
example : (Chain.attestation [⟨2, [⟨attestationIdentifier, [1]⟩]⟩,
    ⟨2, [⟨attestationIdentifier, [2]⟩]⟩, ⟨2, []⟩]).toOption = some [2] := by
  rfl

end AttestedKey
