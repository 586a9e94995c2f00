import AttestedKey.Proofs.InPlace
import AttestedKey.Proofs.KeyDescription
import AttestedKey.Proofs.Moved

/-!
# Reading in place and reading a copy

Reading an input between two places is the same as cutting out the octets between them and reading
those, apart from the places, which are as much larger as the octets stood further on
(`ReadsInPlace`).  Octets in front of the first place and behind the second one have no influence.

So whatever is found inside a record is what its own octets are read as: each of its two lists, and
the root of trust and the application id in a list (`OwnOctets`).
-/

namespace AttestedKey

open Der Outcome Der.Mirrors

/-! ### Cut-out octets -/

section Slice

variable {data : Octets} {start stop : ℕ}

/-- The last two parts of an input are cut out of it. -/
lemma Octets.exists_slices {front a b : Octets} (h : data = front ++ (a ++ b)) :
    ∃ first second, first ≤ second ∧ second ≤ data.length ∧
      data.slice first second = a ∧ data.slice second data.length = b := by
  have hlength : data.length = front.length + a.length + b.length := by
    rw [h, List.length_append, List.length_append, Nat.add_assoc]
  refine ⟨front.length, front.length + a.length, Nat.le_add_right .., by omega, ?_, ?_⟩
  · rw [h]
    exact Octets.slice_append front a b
  · have hcut := Octets.slice_append (front ++ a) b []
    rw [List.append_nil, List.append_assoc, ← h, List.length_append, ← hlength] at hcut
    exact hcut

/-- A whole input is the region between its first place and its end. -/
lemma Der.Cursor.start_eq_between (data : Octets) :
    Cursor.start data = Cursor.between data 0 data.length := by
  unfold Cursor.start Cursor.between
  rw [List.drop_zero, Nat.sub_zero, List.take_length]
  exact congrArg (Cursor.mk 0 data) (Nat.sub_self data.length).symm

/-- A region of an input is the input that is cut out of it, some places further on. -/
lemma Der.Cursor.between_eq_moved (h : stop ≤ data.length) :
    Cursor.between data start stop = (Cursor.start (data.slice start stop)).moved start := by
  have hmissing : (Cursor.between data start stop).missing = 0 := Cursor.between_missing h
  change (⟨start, data.slice start stop, (Cursor.between data start stop).missing⟩ : Cursor) = _
  rw [hmissing]
  rfl

end Slice

/-! ### In place and cut out -/

/-- A reader between two places of an input does what the reader at a cursor does, gives what it
gives for the octets that are cut out, some places further on, and does not depend on any other
octets. -/
structure ReadsInPlace {α β : Type} (view : Octets → ℕ → α → β) (move : ℕ → α → α)
    (readAt : Octets → ℕ → ℕ → Except Fault α) (read : Cursor → Except Fault β) : Prop where
  /-- The cursor stands at the first place, in a region that ends at the second one. -/
  reads : ∀ {data : Octets} {start stop : ℕ}, start ≤ stop → stop ≤ data.length →
    read (Cursor.between data start stop) = (readAt data start stop).map (view data stop)
  /-- A copy of the octets is read in the same way from its beginning. -/
  slice : ∀ {data : Octets} {start stop : ℕ}, start ≤ stop → stop ≤ data.length →
    readAt data start stop =
      movedOutcome start (move start) (readAt (data.slice start stop) 0 (stop - start))
  /-- Octets in front of the first place and behind the second one do not matter. -/
  outside : ∀ {data data' : Octets} {start stop : ℕ}, start ≤ stop → stop ≤ data.length →
    stop ≤ data'.length → data.slice start stop = data'.slice start stop →
      readAt data start stop = readAt data' start stop

/-- A reader that gives a value with the place behind it reads in place. -/
abbrev ReadsPlace {α β : Type} (view : Octets → α → β) (move : ℕ → α → α)
    (readAt : Octets → ℕ → ℕ → Except Fault (α × ℕ))
    (read : Cursor → Except Fault (β × Cursor)) : Prop :=
  ReadsInPlace (fun data stop => viewAt data stop (view data))
    (fun s => Prod.map (move s) (s + ·)) readAt read

/-- The bounds of an element. -/
def Der.Bounds.ofElement (e : Element) : Bounds := ⟨e.tag, e.offset, e.start, e.stop⟩

namespace ReadsInPlace

variable {α β : Type}

/-- A reader that mirrors one at a cursor reads in place, if that one reads the same at another
place and if its view can be taken back. -/
lemma of {view : Octets → ℕ → α → β} {move : ℕ → α → α}
    {readAt : Octets → ℕ → ℕ → Except Fault α} {read : Cursor → Except Fault β}
    (good : ℕ → α → Prop) (moveView : ℕ → β → β) (back : β → α)
    (hmirrors : ∀ {data : Octets} {start stop : ℕ}, start ≤ stop → stop ≤ data.length →
      Mirrors (good stop) (view data stop) (readAt data start stop)
        (read (Cursor.between data start stop)))
    (hmoves : ∀ s c, Moves s (moveView s) (read c) (read (c.moved s)))
    (hback : ∀ data stop a, good stop a → back (view data stop a) = a)
    (hmove : ∀ s b, back (moveView s b) = move s (back b)) :
    ReadsInPlace view move readAt read := by
  have hread : ∀ {data : Octets} {start stop : ℕ}, start ≤ stop → stop ≤ data.length →
      readAt data start stop = (read (Cursor.between data start stop)).map back := by
    intro data start stop hstart hstop
    obtain ⟨heq, hgood⟩ := hmirrors hstart hstop
    rw [heq]
    cases hvalue : readAt data start stop with
    | error fault => rfl
    | ok a => exact congrArg Except.ok (hback data stop a (hgood a hvalue)).symm
  have hslice : ∀ {data : Octets} {start stop : ℕ}, start ≤ stop → stop ≤ data.length →
      readAt data start stop =
        movedOutcome start (move start) (readAt (data.slice start stop) 0 (stop - start)) := by
    intro data start stop hstart hstop
    have hlength : (data.slice start stop).length = stop - start := Octets.length_slice hstop
    have hcopy : readAt (data.slice start stop) 0 (stop - start) =
        (read (Cursor.start (data.slice start stop))).map back := by
      rw [hread (Nat.zero_le _) hlength.ge, Cursor.start_eq_between, hlength]
    have hplace : read (Cursor.between data start stop) =
        movedOutcome start (moveView start) (read (Cursor.start (data.slice start stop))) := by
      rw [Cursor.between_eq_moved hstop]
      exact hmoves start _
    rw [hread hstart hstop, hplace, hcopy]
    cases read (Cursor.start (data.slice start stop)) with
    | error fault => rfl
    | ok b => exact congrArg Except.ok (hmove start b)
  refine ⟨fun hstart hstop => (hmirrors hstart hstop).eq, hslice, ?_⟩
  intro data data' start stop hstart hstop hstop' heq
  rw [hslice hstart hstop, hslice hstart hstop', heq]

/-- The same for a reader that gives a value with the place behind it. -/
lemma ofPlaces {view : Octets → α → β} {move : ℕ → α → α}
    {readAt : Octets → ℕ → ℕ → Except Fault (α × ℕ)} {read : Cursor → Except Fault (β × Cursor)}
    (good : ℕ → α → Prop) (moveView : ℕ → β → β) (back : β → α)
    (hmirrors : ∀ {data : Octets} {start stop : ℕ}, start ≤ stop → stop ≤ data.length →
      Mirrors (fun p => good stop p.1 ∧ p.2 ≤ stop) (viewAt data stop (view data))
        (readAt data start stop) (read (Cursor.between data start stop)))
    (hmoves : ∀ s c, Moves s (Prod.map (moveView s) (Cursor.moved s)) (read c) (read (c.moved s)))
    (hback : ∀ data stop a, good stop a → back (view data a) = a)
    (hmove : ∀ s b, back (moveView s b) = move s (back b)) :
    ReadsPlace view move readAt read := by
  refine of (fun stop p => good stop p.1 ∧ p.2 ≤ stop)
    (fun s => Prod.map (moveView s) (Cursor.moved s)) (Prod.map back Cursor.offset) hmirrors hmoves
    (fun data stop p hp => ?_) fun s p => ?_
  · exact Prod.ext (hback data stop p.1 hp.1) rfl
  · exact Prod.ext (hmove s p.1) rfl

/-- A reader whose values are the same in both forms. -/
lemma ofSame {interpret : Octets → Bounds → Except Fault α}
    {interpret' : Element → Except Fault α}
    (hsame : ∀ {data : Octets} {stop : ℕ} {b : Bounds}, stop ≤ data.length → b.Within stop →
      Same (interpret data b) (interpret' (b.element data)))
    (hmoves : ∀ s e, Moves s id (interpret' e) (interpret' (e.moved s))) :
    ReadsPlace (fun _ => id) (fun _ => id) (fun data => readAt (interpret data) data)
      (Cursor.read interpret') := by
  refine ofPlaces (fun _ _ => True) (fun _ => id) id (fun hstart hstop => ?_)
    (fun s c => Moves.read (hmoves s) c) (fun _ _ _ _ => rfl) fun _ _ => rfl
  exact (readSame hstop hstart fun b hb => hsame hstop hb).imp fun p hp => ⟨trivial, hp⟩

/-- The bounds of the element at some bounds are these bounds. -/
lemma ofElement_element {b : Bounds} (h : b.start ≤ b.stop) (data : Octets) :
    Bounds.ofElement (b.element data) = b := by
  obtain ⟨tag, offset, start, stop⟩ := b
  have hstop : start + (stop - start) = stop := Nat.add_sub_of_le h
  exact congrArg (Bounds.mk tag offset start) hstop

/-- An element further on has bounds further on. -/
lemma ofElement_moved (s : ℕ) (e : Element) :
    Bounds.ofElement (e.moved s) = (Bounds.ofElement e).moved s :=
  congrArg (Bounds.mk e.tag (s + e.offset) (s + e.start)) (Nat.add_assoc ..)

/-- A reader that gives the bounds of an element of some kind. -/
lemma ofBounds {interpret : Bounds → Except Fault Bounds}
    {interpret' : Element → Except Fault Element}
    (hbounds : ∀ data b, Mirrors (· = b) (Bounds.element data) (interpret b)
      (interpret' (b.element data)))
    (hmoves : ∀ s e, Moves s (Element.moved s) (interpret' e) (interpret' (e.moved s))) :
    ReadsPlace Bounds.element Bounds.moved (readAt interpret) (Cursor.read interpret') := by
  refine ofPlaces Bounds.Within Element.moved Bounds.ofElement (fun hstart hstop => ?_)
    (fun s c => Moves.read (hmoves s) c) (fun data stop b hb => ofElement_element hb.start data)
    ofElement_moved
  exact Mirrors.read hstop hstart fun b _ hb => (hbounds _ b).imp fun _ heq => heq ▸ hb

end ReadsInPlace

/-- All readers of encoded elements read in place. -/
structure ReadersInPlace : Prop where
  /-- The reader of identifiers. -/
  tag : ReadsPlace (fun _ => id) (fun _ => id) Tag.readAt Tag.read
  /-- The reader of lengths. -/
  length : ReadsPlace (fun _ => id) (fun _ => id) Length.readAt Length.read
  /-- The reader of elements. -/
  element : ReadsPlace Bounds.element Bounds.moved elementAt Cursor.element
  /-- The readers of both kinds of numbers. -/
  number : ∀ type, ReadsPlace (fun _ => id) (fun _ => id)
    (fun data => readAt (Bounds.toNumber data type) data) (Cursor.read (Element.toNumber type))
  /-- The reader of the content of an OCTET STRING. -/
  octets : ReadsPlace (fun _ => id) (fun _ => id)
    (fun data => readAt (Bounds.toOctets data) data) (Cursor.read Element.toOctets)
  /-- The reader of a BOOLEAN. -/
  boolean : ReadsPlace (fun _ => id) (fun _ => id)
    (fun data => readAt (Bounds.toBoolean data) data) (Cursor.read Element.toBoolean)
  /-- The reader of a NULL. -/
  null : ReadsPlace (fun _ => id) (fun _ => id)
    (fun data => readAt Bounds.toNull data) (Cursor.read Element.toNull)
  /-- The readers of the bounds of an OCTET STRING, a SEQUENCE or a SET. -/
  type : ∀ type, ReadsPlace Bounds.element Bounds.moved (readAt (Bounds.expect type))
    (Cursor.read (Element.ofType type))
  /-- The readers of explicit wrappers, with or without a number. -/
  explicit : ∀ number, ReadsPlace Bounds.element Bounds.moved
    (readAt (Bounds.expectExplicit number)) (Cursor.read (Element.ofExplicit number))

/-- All readers of encoded elements read in place. -/
lemma readersInPlace : ReadersInPlace where
  tag := by
    refine .ofPlaces (fun _ _ => True) (fun _ => id) id (fun hstart hstop => ?_)
      (fun s c => Moves.readTag s c) (fun _ _ _ _ => rfl) fun _ _ => rfl
    exact (readTag hstop hstart).imp fun _ hp => ⟨trivial, hp⟩
  length := by
    refine .ofPlaces (fun _ _ => True) (fun _ => id) id (fun hstart hstop => ?_)
      (fun s c => Moves.readLength s c) (fun _ _ _ _ => rfl) fun _ _ => rfl
    exact (readLength hstop hstart).imp fun _ hp => ⟨trivial, hp⟩
  element := by
    refine .ofPlaces Bounds.Within Element.moved Bounds.ofElement (fun hstart hstop => ?_)
      (fun s c => Moves.element s c)
      (fun data stop b hb => ReadsInPlace.ofElement_element hb.start data)
      ReadsInPlace.ofElement_moved
    exact (element hstop hstart).imp fun _ hp => hp.2
  number := fun type => .ofSame (fun _ _ => toNumber _ _ type) fun s => Moves.toNumber s type
  octets := .ofSame (fun _ _ => toOctets _ _) Moves.toOctets
  boolean := .ofSame (fun hstop hb => toBoolean hstop hb) Moves.toBoolean
  null := .ofSame (fun _ _ => toNull _ _) Moves.toNull
  type := fun type => .ofBounds (fun data b => expect data b type) fun s => Moves.ofType s type
  explicit := fun number => .ofBounds (fun data b => expectExplicit data b number)
    fun s => Moves.ofExplicit s number

/-- All readers of structures read in place, in a given mode. -/
structure StructuresInPlace (rigor : Rigor) : Prop where
  /-- The reader of a root of trust. -/
  rootOfTrust : ReadsPlace (fun _ => id) (fun _ => id)
    (fun data => readAt (RootOfTrust.ofBounds rigor data) data)
    (Cursor.read (RootOfTrust.ofElement rigor))
  /-- The reader of an application id. -/
  applicationId : ReadsInPlace (fun _ _ => id) (fun _ => id) ApplicationId.parseAt
    ApplicationId.ofRegion
  /-- The reader of an authorization list, from the sequence that it is. -/
  authorizationList : ReadsPlace (fun _ => id) (fun _ => id)
    (fun data => readAt (AuthorizationList.ofBounds rigor data) data)
    (Cursor.read fun e => e.toSequence >>= AuthorizationList.ofRegion rigor)

/-- A list in a sequence, some places further on. -/
lemma Moves.sequenceList (s : ℕ) (rigor : Rigor) (e : Element) :
    Moves s id (e.toSequence >>= AuthorizationList.ofRegion rigor)
      ((e.moved s).toSequence >>= AuthorizationList.ofRegion rigor) :=
  (Moves.toSequence s e).bind fun region => Moves.authorizationList s rigor region

/-- Every structure is read in place as it is read by itself. -/
lemma structuresInPlace (rigor : Rigor) : StructuresInPlace rigor where
  rootOfTrust := .ofSame (fun hstop hb => rootOfTrust hstop hb rigor)
    fun s => Moves.rootOfTrust s rigor
  applicationId :=
    .of (fun _ _ => True) (fun _ => id) id (fun hstart hstop => applicationId hstop hstart)
      Moves.applicationId (fun _ _ _ _ => rfl) fun _ _ => rfl
  authorizationList := .ofSame (fun hstop hb => authorizationList hstop hb rigor)
    fun s => Moves.sequenceList s rigor

/-! ### An element and its own octets -/

/-- An item at a place is the item at the beginning, moved to the place. -/
lemma Der.Item.placed_eq_moved (i : Item) (s : ℕ) : i.placed s = (i.placed 0).moved s := by
  unfold Item.placed Element.moved
  rw [Nat.zero_add, Nat.add_zero]

/-- An input that is one item is read to its end. -/
lemma Der.Cursor.read_start_octets {α : Type} {i : Item} (hi : i.Readable)
    (interpret : Element → Except Fault α) :
    (Cursor.start i.octets).read interpret =
      interpret (i.placed 0) >>= fun v => .ok (v, ⟨i.octets.length, [], 0⟩) := by
  have helement := Cursor.element_octets_append hi 0 []
  rw [List.append_nil, Nat.zero_add] at helement
  unfold Cursor.read Cursor.start
  rw [helement]
  rfl

section Element

variable {data : Octets} {start stop next : ℕ} {b : Bounds} (hstart : start ≤ stop)
  (hstop : stop ≤ data.length) (h : elementAt data start stop = .ok (b, next))

include hstart hstop h

/-- An element that is found in place is the one that is found at the cursor there, and reaches
beyond the bound neither with its content nor with its end. -/
lemma Der.bounds_of_elementAt : b.Within stop ∧ next ≤ stop ∧
    (Cursor.between data start stop).element =
      .ok (b.element data, Cursor.between data next stop) := by
  obtain ⟨heq, hgood⟩ := element hstop hstart
  rw [h] at heq
  obtain ⟨-, hwithin, hnext⟩ := hgood _ h
  exact ⟨hwithin, hnext, heq⟩

/-- An element that is found in place is an item whose octets stand there. -/
lemma Der.exists_item_of_elementAt :
    ∃ i : Item, i.Readable ∧ b.element data = i.placed start ∧
      data.slice start next = i.octets := by
  obtain ⟨-, hnext, helement⟩ := bounds_of_elementAt hstart hstop h
  have hmissing : (Cursor.between data start stop).missing = 0 := Cursor.between_missing hstop
  obtain ⟨i, hi, hadvances, hplaced⟩ := (Cursor.element_eq_ok_iff hmissing).mp helement
  have hlength : next = start + i.octets.length := hadvances.offset
  have hbytes : data.slice start stop =
      i.octets ++ (Cursor.between data next stop).bytes := hadvances.bytes
  refine ⟨i, hi, hplaced, ?_⟩
  have htaken : data.slice start next = (data.slice start stop).take i.octets.length := by
    unfold Octets.slice
    rw [List.take_take, hlength, Nat.add_sub_cancel_left, Nat.min_eq_left (by omega)]
  rw [htaken, hbytes, List.take_left]

end Element

namespace RootOfTrust

/-- An item alone is read as a root of trust as the element that it is. -/
lemma decode_octets {i : Item} (hi : i.Readable) (rigor : Rigor) :
    decode rigor i.octets = ofElement rigor (i.placed 0) := by
  unfold decode
  rw [Cursor.read_start_octets hi]
  cases ofElement rigor (i.placed 0) <;> rfl

end RootOfTrust

namespace AuthorizationList

/-- An item alone is read as a list as the element that it is. -/
lemma decode_octets {i : Item} (hi : i.Readable) (rigor : Rigor) :
    decode rigor i.octets = (i.placed 0).toSequence >>= ofRegion rigor := by
  unfold decode
  rw [Cursor.read_start_octets hi]
  cases (i.placed 0).toSequence <;> rfl

/-- An item somewhere is read as a list as its own octets are, apart from the places. -/
lemma moves_decode {i : Item} (hi : i.Readable) (rigor : Rigor) (s : ℕ) :
    Moves s id (decode rigor i.octets) ((i.placed s).toSequence >>= ofRegion rigor) := by
  rw [decode_octets hi, i.placed_eq_moved s]
  exact Moves.sequenceList s rigor (i.placed 0)

end AuthorizationList

/-- An outcome that is a value some places further on is that value. -/
lemma eq_ok_of_movedOutcome {α : Type} {s : ℕ} {x : Except Fault α} {a : α}
    (h : movedOutcome s id x = .ok a) : x = .ok a := by
  cases x with
  | ok b => exact h
  | error fault => cases h

/-- What both forms make alike is the same. -/
lemma Der.Mirrors.eq_of_same {α : Type} {x y : Except Fault α} (h : Same x y) : x = y := by
  rw [h.eq]
  cases x <;> rfl

section Own

variable {data : Octets} {start stop next : ℕ} {b : Bounds} (hstart : start ≤ stop)
  (hstop : stop ≤ data.length)

include hstart hstop

/-- A root of trust is what its own octets are read as. -/
lemma RootOfTrust.ofBounds_eq_decode (rigor : Rigor)
    (h : elementAt data start stop = .ok (b, next)) :
    RootOfTrust.ofBounds rigor data b =
      movedOutcome start id (RootOfTrust.decode rigor (data.slice start next)) := by
  obtain ⟨i, hi, hplaced, hoctets⟩ := exists_item_of_elementAt hstart hstop h
  obtain ⟨hwithin, -, -⟩ := bounds_of_elementAt hstart hstop h
  have hmoves := Moves.rootOfTrust start rigor (i.placed 0)
  rw [← Item.placed_eq_moved, ← RootOfTrust.decode_octets hi, ← hoctets, ← hplaced] at hmoves
  exact (eq_of_same (rootOfTrust hstop hwithin rigor)).trans hmoves

/-- A list is what its own octets are read as. -/
lemma AuthorizationList.ofBounds_eq_decode (rigor : Rigor)
    (h : elementAt data start stop = .ok (b, next)) :
    AuthorizationList.ofBounds rigor data b =
      movedOutcome start id (AuthorizationList.decode rigor (data.slice start next)) := by
  obtain ⟨i, hi, hplaced, hoctets⟩ := exists_item_of_elementAt hstart hstop h
  obtain ⟨hwithin, -, -⟩ := bounds_of_elementAt hstart hstop h
  have hmoves := AuthorizationList.moves_decode hi rigor start
  rw [← hoctets, ← hplaced] at hmoves
  exact (eq_of_same (authorizationList hstop hwithin rigor)).trans hmoves

/-- An application id is what its own octets are read as. -/
lemma ApplicationId.parseAt_eq_decode :
    ApplicationId.parseAt data start stop =
      movedOutcome start id (ApplicationId.decode (data.slice start stop)) := by
  have hmoves := Moves.applicationId start (Cursor.start (data.slice start stop))
  rw [← Cursor.between_eq_moved hstop] at hmoves
  exact (eq_of_same (applicationId hstop hstart)).trans hmoves

end Own

/-! ### What is found inside a list -/

section Found

variable {data : Octets} {rigor : Rigor}

/-- What the rounds of a loop keep, the loop keeps. -/
lemma Der.ends_loopAt {σ : Type} {I : σ → Prop} {step : σ → Bounds → Except Fault σ} {idx stop : ℕ}
    (hidx : idx ≤ stop) (hstop : stop ≤ data.length)
    (h : ∀ t b, b.Within stop → I t → Ends (fun _ => True) I (step t b)) {t : σ} (ht : I t) :
    Ends (fun _ => True) I (loopAt step data idx stop t) := by
  induction hn : stop - idx using Nat.strongRecOn generalizing idx t with
  | ind n ih =>
    rcases hidx.eq_or_lt with rfl | hlt
    · rw [loopAt_of_le le_rfl]
      exact ht
    · rw [loopAt_of_lt hlt]
      cases htaken : elementAt data idx stop with
      | error fault => trivial
      | ok taken =>
        obtain ⟨b, next⟩ := taken
        have hnext := lt_of_elementAt htaken
        obtain ⟨hwithin, hbound, -⟩ := bounds_of_elementAt hidx hstop htaken
        exact (h t b hwithin ht).bind fun t' ht' => ih _ (by omega) hbound ht' rfl

/-- A value of a field is read from an element that stands somewhere in the input. -/
def AuthorizationList.FoundIn (rigor : Rigor) (data : Octets) (a : AuthorizationList) : Prop :=
  ∀ (f : Field) (v : f.Value), a.value f = some v → ∃ start stop next b, start ≤ stop ∧
    stop ≤ data.length ∧ elementAt data start stop = .ok (b, next) ∧
    f.kind.ofBounds rigor f data b = .ok v

/-- One wrapper gives at most one field a value, which it holds. -/
lemma AuthorizationList.ends_addWrapperAt {p : Progress} (hp : p.list.FoundIn rigor data)
    {wrapper : Bounds} {stop : ℕ} (hstop : stop ≤ data.length) (hwrapper : wrapper.Within stop) :
    Ends (fun _ => True) (fun p => p.list.FoundIn rigor data)
      (addWrapperAt rigor data p wrapper) := by
  cases hadd : addWrapperAt rigor data p wrapper with
  | error fault => trivial
  | ok p' =>
    change p'.list.FoundIn rigor data
    unfold addWrapperAt at hadd
    simp only at hadd
    -- A wrapper that is read keeps a tag outside the table, which is no field, or sets one field.
    split at hadd
    · cases hadd
    split at hadd
    · cases hadd
    split at hadd
    · obtain ⟨list, hlist, hadd⟩ := bind_eq_ok_iff.mp hadd
      obtain rfl := Except.ok.inj hadd
      cases rigor with
      | strict => cases hlist
      | lenient =>
        obtain ⟨-, -, hlist⟩ := bind_eq_ok_iff.mp hlist
        obtain ⟨-, -, hlist⟩ := bind_eq_ok_iff.mp hlist
        obtain rfl := Except.ok.inj hlist
        exact hp
    next f _ =>
      obtain ⟨list, hlist, hadd⟩ := bind_eq_ok_iff.mp hadd
      obtain rfl := Except.ok.inj hadd
      obtain ⟨v, hsole, hlist⟩ := bind_eq_ok_iff.mp hlist
      obtain rfl := Except.ok.inj hlist
      obtain ⟨⟨v', inner⟩, hread, hend⟩ := bind_eq_ok_iff.mp hsole
      obtain ⟨⟨b, next⟩, helement, hvalue⟩ := bind_eq_ok_iff.mp hread
      obtain ⟨v'', hb, hpair⟩ := bind_eq_ok_iff.mp hvalue
      obtain ⟨rfl, rfl⟩ := Prod.mk.inj (Except.ok.inj hpair)
      simp only at hend
      split at hend
      · obtain rfl := Except.ok.inj hend
        intro g w hw
        -- The field has its value from the element in this wrapper, every other one from before.
        by_cases hfield : g = f
        · subst hfield
          rw [AuthorizationList.set, value_assign_self, Option.some.injEq] at hw
          subst hw
          exact ⟨_, _, next, b, hwrapper.start, hwrapper.stop.trans hstop, helement, hb⟩
        · rw [AuthorizationList.set, value_assign_of_ne _ _ hfield] at hw
          exact hp g w hw
      · cases hend

/-- An input that is one item is read in place to its end. -/
lemma Der.exists_elementAt_octets {i : Item} (hi : i.Readable) :
    ∃ b, elementAt i.octets 0 i.octets.length = .ok (b, i.octets.length) := by
  have hmirrors := element (le_refl i.octets.length) (Nat.zero_le _)
  have helement := Cursor.element_octets_append hi 0 []
  rw [List.append_nil, Nat.zero_add] at helement
  rw [← Cursor.start_eq_between] at hmirrors
  have heq := helement.symm.trans hmirrors.eq
  cases hread : elementAt i.octets 0 i.octets.length with
  | error fault =>
    rw [hread] at heq
    cases heq
  | ok read =>
    obtain ⟨b, next⟩ := read
    rw [hread] at heq
    have hnext : i.octets.length = next :=
      congrArg Cursor.offset (Prod.mk.inj (Except.ok.inj heq)).2
    exact ⟨b, by rw [hnext]⟩

/-- Every value of a list that is read was found in the input. -/
lemma AuthorizationList.foundIn_of_decode {a : AuthorizationList}
    (h : decode rigor data = .ok a) : a.FoundIn rigor data := by
  obtain ⟨i, region, hi, rfl, -, -⟩ := Cursor.read_last_eq_ok_iff.mp h
  obtain ⟨b, hread⟩ := exists_elementAt_octets hi
  have hwhole : i.octets.slice 0 i.octets.length = i.octets := List.take_length
  have hplace := ofBounds_eq_decode (Nat.zero_le _) le_rfl rigor hread
  rw [hwhole, h] at hplace
  obtain ⟨b', hsequence, hparse⟩ := bind_eq_ok_iff.mp hplace
  obtain ⟨p, hloop, hlist⟩ := bind_eq_ok_iff.mp hparse
  obtain rfl := Except.ok.inj hlist
  obtain ⟨hwithin, -, -⟩ := bounds_of_elementAt (Nat.zero_le _) le_rfl hread
  obtain rfl := (expect i.octets b .sequence).good b' hsequence
  have hstart : (Progress.start.list).FoundIn rigor i.octets := fun f v hv => by cases hv
  have hkept := ends_loopAt (I := fun p : Progress => p.list.FoundIn rigor i.octets)
    hwithin.start hwithin.stop
    (fun p w hw hp => ends_addWrapperAt hp hwithin.stop hw) hstart
  rw [hloop] at hkept
  exact hkept

/-- The root of trust of a list is what some octets of the input are read as. -/
lemma AuthorizationList.FoundIn.rootOfTrust {a : AuthorizationList} (h : a.FoundIn rigor data)
    {r : RootOfTrust} (hr : a.value .rootOfTrust = some r) :
    ∃ start stop, start ≤ stop ∧ stop ≤ data.length ∧
      RootOfTrust.decode rigor (data.slice start stop) = .ok r := by
  obtain ⟨start, stop, next, b, hstart, hstop, helement, hvalue⟩ := h .rootOfTrust r hr
  obtain ⟨-, hnext, -⟩ := bounds_of_elementAt hstart hstop helement
  have hown : RootOfTrust.ofBounds rigor data b = _ :=
    RootOfTrust.ofBounds_eq_decode hstart hstop rigor helement
  have hplace : RootOfTrust.ofBounds rigor data b = .ok r := hvalue
  rw [hplace] at hown
  exact ⟨start, next, (lt_of_elementAt helement).le, hnext.trans hstop,
    eq_ok_of_movedOutcome hown.symm⟩

/-- The application id of a list is what some octets of the input are read as. -/
lemma AuthorizationList.FoundIn.applicationId {a : AuthorizationList} (h : a.FoundIn rigor data)
    {x : ApplicationId} (hx : a.value .attestationApplicationId = some x) :
    ∃ start stop, start ≤ stop ∧ stop ≤ data.length ∧
      ApplicationId.decode (data.slice start stop) = .ok x := by
  obtain ⟨start, stop, next, b, hstart, hstop, helement, hvalue⟩ :=
    h .attestationApplicationId x hx
  obtain ⟨hwithin, -, -⟩ := bounds_of_elementAt hstart hstop helement
  have hplace : (b.expect .octetString >>= fun wrapped =>
      ApplicationId.parseAt data wrapped.start wrapped.stop) = .ok x := hvalue
  obtain ⟨b', hwrapped, hparse⟩ := bind_eq_ok_iff.mp hplace
  obtain rfl := (expect data b .octetString).good b' hwrapped
  have hinner := hwithin.stop.trans hstop
  rw [ApplicationId.parseAt_eq_decode hwithin.start hinner] at hparse
  exact ⟨b'.start, b'.stop, hwithin.start, hinner, eq_ok_of_movedOutcome hparse⟩

end Found

/-! ### What is found inside a record -/

/-- The lists of a record are those of its last two elements. -/
lemma KeyDescription.lists_of_ofElements {rigor : Rigor} {e₁ e₂ e₃ e₄ e₅ e₆ e₇ e₈ : Element}
    {k : KeyDescription} (h : ofElements rigor e₁ e₂ e₃ e₄ e₅ e₆ e₇ e₈ = .ok k) :
    (e₇.toSequence >>= AuthorizationList.ofRegion rigor) = .ok k.softwareEnforced ∧
      (e₈.toSequence >>= AuthorizationList.ofRegion rigor) = .ok k.teeEnforced := by
  unfold ofElements at h
  obtain ⟨attestationVersion, _, h⟩ := bind_eq_ok_iff.mp h
  obtain ⟨attestationLevel, _, h⟩ := bind_eq_ok_iff.mp h
  obtain ⟨keymasterVersion, _, h⟩ := bind_eq_ok_iff.mp h
  obtain ⟨keymasterLevel, _, h⟩ := bind_eq_ok_iff.mp h
  obtain ⟨challenge, _, h⟩ := bind_eq_ok_iff.mp h
  obtain ⟨uniqueId, _, h⟩ := bind_eq_ok_iff.mp h
  obtain ⟨first, hfirst, h⟩ := bind_eq_ok_iff.mp h
  obtain ⟨second, hsecond, h⟩ := bind_eq_ok_iff.mp h
  obtain ⟨software, hsoftware, h⟩ := bind_eq_ok_iff.mp h
  obtain ⟨tee, htee, h⟩ := bind_eq_ok_iff.mp h
  obtain rfl := Except.ok.inj h
  exact ⟨bind_eq_ok_iff.mpr ⟨first, hfirst, hsoftware⟩, bind_eq_ok_iff.mpr ⟨second, hsecond, htee⟩⟩

/-- The two lists of a record stand at its end, and each is what its own octets are read as. -/
lemma KeyDescription.exists_slices_of_decode {rigor : Rigor} {data : Octets} {k : KeyDescription}
    (h : decode rigor data = .ok k) :
    ∃ first second, first ≤ second ∧ second ≤ data.length ∧
      AuthorizationList.decode rigor (data.slice first second) = .ok k.softwareEnforced ∧
      AuthorizationList.decode rigor (data.slice second data.length) = .ok k.teeEnforced := by
  obtain ⟨i₁, i₂, i₃, i₄, i₅, i₆, i₇, i₈, _, _, _, _, _, _, _, _, hread, -, hdata, h⟩ :=
    exists_items_of_decode h
  obtain ⟨hsoftware, htee⟩ := lists_of_ofElements h
  have hlist : ∀ {i : Item} {o : ℕ} {a : AuthorizationList},
      i ∈ [i₁, i₂, i₃, i₄, i₅, i₆, i₇, i₈] →
      ((i.placed o).toSequence >>= AuthorizationList.ofRegion rigor) = .ok a →
      AuthorizationList.decode rigor i.octets = .ok a := by
    intro i o a hi ha
    have hmoves := AuthorizationList.moves_decode (hread i hi) rigor o
    rw [ha] at hmoves
    exact eq_ok_of_movedOutcome hmoves.symm
  obtain ⟨front, hfront⟩ : ∃ front, data = front ++ (i₇.octets ++ i₈.octets) := by
    refine ⟨(Item.sequence [i₁, i₂, i₃, i₄, i₅, i₆, i₇, i₈]).header ++
      Item.join [i₁, i₂, i₃, i₄, i₅, i₆], ?_⟩
    rw [hdata, Item.octets_eq]
    simp only [Item.sequence, Item.ofType, Item.join_cons, Item.join_nil, List.append_nil,
      List.append_assoc]
  obtain ⟨first, second, hle, hbound, hfirst, hsecond⟩ := Octets.exists_slices hfront
  refine ⟨first, second, hle, hbound, ?_, ?_⟩
  · rw [hfirst]
    exact hlist (by simp) hsoftware
  · rw [hsecond]
    exact hlist (by simp) htee

/-- Whatever is found in an input is what its own octets are read as, some places further on. -/
structure OwnOctets (rigor : Rigor) (data : Octets) : Prop where
  /-- A root of trust that is read from an element. -/
  rootOfTrust : ∀ {start stop next : ℕ} {b : Bounds}, start ≤ stop → stop ≤ data.length →
    elementAt data start stop = .ok (b, next) → RootOfTrust.ofBounds rigor data b =
      movedOutcome start id (RootOfTrust.decode rigor (data.slice start next))
  /-- An application id that is read between two places. -/
  applicationId : ∀ {start stop : ℕ}, start ≤ stop → stop ≤ data.length →
    ApplicationId.parseAt data start stop =
      movedOutcome start id (ApplicationId.decode (data.slice start stop))
  /-- A list that is read from an element. -/
  authorizationList : ∀ {start stop next : ℕ} {b : Bounds}, start ≤ stop → stop ≤ data.length →
    elementAt data start stop = .ok (b, next) → AuthorizationList.ofBounds rigor data b =
      movedOutcome start id (AuthorizationList.decode rigor (data.slice start next))
  /-- The two lists of a record. -/
  record : ∀ {k : KeyDescription}, KeyDescription.decode rigor data = .ok k →
    ∃ first second, first ≤ second ∧ second ≤ data.length ∧
      AuthorizationList.decode rigor (data.slice first second) = .ok k.softwareEnforced ∧
      AuthorizationList.decode rigor (data.slice second data.length) = .ok k.teeEnforced
  /-- The root of trust of a list. -/
  rootOfTrustOfList : ∀ {a : AuthorizationList} {r : RootOfTrust},
    AuthorizationList.decode rigor data = .ok a → a.value .rootOfTrust = some r →
      ∃ start stop, start ≤ stop ∧ stop ≤ data.length ∧
        RootOfTrust.decode rigor (data.slice start stop) = .ok r
  /-- The application id of a list. -/
  applicationIdOfList : ∀ {a : AuthorizationList} {x : ApplicationId},
    AuthorizationList.decode rigor data = .ok a → a.value .attestationApplicationId = some x →
      ∃ start stop, start ≤ stop ∧ stop ≤ data.length ∧
        ApplicationId.decode (data.slice start stop) = .ok x

/-- Every structure within an input has octets of its own, from which it is read. -/
lemma ownOctets (rigor : Rigor) (data : Octets) : OwnOctets rigor data where
  rootOfTrust := fun hstart hstop h => RootOfTrust.ofBounds_eq_decode hstart hstop rigor h
  applicationId := ApplicationId.parseAt_eq_decode
  authorizationList := fun hstart hstop h =>
    AuthorizationList.ofBounds_eq_decode hstart hstop rigor h
  record := KeyDescription.exists_slices_of_decode
  rootOfTrustOfList := fun h hr => (AuthorizationList.foundIn_of_decode h).rootOfTrust hr
  applicationIdOfList := fun h hx => (AuthorizationList.foundIn_of_decode h).applicationId hx

/-- Reading in place is reading a copy: this holds of every reader of elements and of every reader
of a structure, and so whatever stands inside a list or a record is what its own octets are read
as. -/
theorem reads_in_place :
    ReadersInPlace ∧ ∀ rigor, StructuresInPlace rigor ∧ ∀ data, OwnOctets rigor data :=
  ⟨readersInPlace, fun rigor => ⟨structuresInPlace rigor, ownOctets rigor⟩⟩

end AttestedKey
