import AttestedKey.Proofs.Der.InPlace

/-!
# Places and cursors

As long as its bound lies within the input, a reader at a place does what the reader at the cursor
between the place and the bound does.  `Mirrors` relates the two outcomes: they are the same up to a
view of the value, and something is known of the value, such as that it ends before the bound.
There is a rule for each step of a reader, and one lemma for each reader follows from them.
-/

namespace AttestedKey.Der

open Outcome

/-! ### The relation between both outcomes -/

/-- The second outcome is the first one in another view, of which something holds. -/
structure Mirrors {α β : Type} (good : α → Prop) (view : α → β) (x : Except Fault α)
    (y : Except Fault β) : Prop where
  /-- Both are the same. -/
  eq : y = x.map view
  /-- A value is good. -/
  good : ∀ a, x = .ok a → good a

namespace Mirrors

variable {α α' β β' : Type} {good : α → Prop} {good' : β → Prop} {view : α → α'} {view' : β → β'}

/-- A good value is mirrored by its view. -/
lemma ok (a : α) (h : good a) : Mirrors good view (.ok a) (.ok (view a)) :=
  ⟨rfl, fun b hb => by rwa [← Except.ok.inj hb]⟩

/-- A fault is mirrored by itself. -/
lemma error (fault : Fault) : Mirrors good view (.error fault) (.error fault) :=
  ⟨rfl, fun b hb => by cases hb⟩

/-- A malformation is mirrored by itself. -/
lemma malformedAt (o : ℕ) (cause : Malformation) :
    Mirrors good view (malformedAt o cause) (malformedAt o cause) := error _

/-- A malformation whose text shows a number is mirrored by itself. -/
lemma malformedNumberAt (o : ℕ) (n : ℤ) (cause : Malformation) :
    Mirrors good view (malformedNumberAt o n cause) (malformedNumberAt o n cause) := error _

/-- Nothing else need be known of a value that is the same in both. -/
lemma refl (x : Except Fault α) : Mirrors (fun _ => True) id x x := by
  cases x with
  | ok a => exact ok a trivial
  | error fault => exact error fault

/-- A chain goes on from the value that its first step gives. -/
lemma bindOk {x : Except Fault α} {y : Except Fault α'} {f : α → Except Fault β}
    {g : α' → Except Fault β'} (hx : Mirrors good view x y)
    (hf : ∀ a, good a → y = .ok (view a) → Mirrors good' view' (f a) (g (view a))) :
    Mirrors good' view' (x >>= f) (y >>= g) := by
  obtain ⟨rfl, hgood⟩ := hx
  cases x with
  | ok a => exact hf a (hgood a rfl) rfl
  | error fault => exact error fault

/-- A chain is mirrored if its first step is and the rest is from every good value on. -/
lemma bind {x : Except Fault α} {y : Except Fault α'} {f : α → Except Fault β}
    {g : α' → Except Fault β'} (hx : Mirrors good view x y)
    (hf : ∀ a, good a → Mirrors good' view' (f a) (g (view a))) :
    Mirrors good' view' (x >>= f) (y >>= g) :=
  hx.bindOk fun a ha _ => hf a ha

/-- A case distinction is mirrored if both of its branches are. -/
lemma ite {p q : Prop} [Decidable p] [Decidable q] {x x' : Except Fault α} {y y' : Except Fault α'}
    (hpq : p ↔ q) (h : p → Mirrors good view x y) (h' : ¬ p → Mirrors good view x' y') :
    Mirrors good view (if p then x else x') (if q then y else y') := by
  by_cases hp : p
  · rw [if_pos hp, if_pos (hpq.mp hp)]
    exact h hp
  · rw [if_neg hp, if_neg (mt hpq.mpr hp)]
    exact h' hp

/-- What is known of a value may be weakened. -/
lemma imp {good₂ : α → Prop} {x : Except Fault α} {y : Except Fault α'} (h : Mirrors good view x y)
    (hgood : ∀ a, good a → good₂ a) : Mirrors good₂ view x y :=
  ⟨h.eq, fun a ha => hgood a (h.good a ha)⟩

end Mirrors

/-! ### Regions between a place and a bound -/

section Cursor

variable {data : Octets} {idx stop : ℕ}

/-- What is left of a region after one byte of it. -/
lemma Cursor.between_of_lt (h : idx < stop) (hstop : stop ≤ data.length) :
    Cursor.between data idx stop =
      ⟨idx, data[idx] :: (Cursor.between data (idx + 1) stop).bytes, 0⟩ := by
  have hmissing : (Cursor.between data idx stop).missing = 0 := Cursor.between_missing hstop
  have hcount : stop - idx = (stop - (idx + 1)) + 1 := by omega
  have hbytes : (Cursor.between data idx stop).bytes =
      data[idx] :: (Cursor.between data (idx + 1) stop).bytes := by
    change (data.drop idx).take (stop - idx) = _
    rw [List.drop_eq_getElem_cons (by omega), hcount, List.take_succ_cons]
    rfl
  rw [← hbytes, ← hmissing]
  rfl

/-- Nothing is left of a region where its bound is reached. -/
lemma Cursor.between_self (data : Octets) (stop : ℕ) :
    Cursor.between data stop stop = ⟨stop, [], 0⟩ := by
  unfold Cursor.between
  rw [Nat.sub_self, List.take_zero]
  rfl

variable (hidx : idx ≤ stop) (hstop : stop ≤ data.length)

include hidx hstop

/-- A region ends where its bound is reached. -/
lemma Cursor.atEnd_between : (Cursor.between data idx stop).atEnd = true ↔ idx = stop := by
  rcases hidx.eq_or_lt with rfl | hlt
  · rw [Cursor.between_self]
    exact iff_of_true rfl rfl
  · rw [Cursor.between_of_lt hlt hstop]
    exact iff_of_false Bool.false_ne_true hlt.ne

/-- A run of octets of a region stands between two places. -/
lemma Cursor.split?_between (count : ℕ) :
    (Cursor.between data idx stop).split? count =
      if idx + count ≤ stop then
        some (data.slice idx (idx + count), Cursor.between data (idx + count) stop)
      else none := by
  have hmissing : (Cursor.between data idx stop).missing = 0 := Cursor.between_missing hstop
  have hlength : (Cursor.between data idx stop).bytes.length = stop - idx := by
    change ((data.drop idx).take (stop - idx)).length = _
    rw [List.length_take, List.length_drop]
    omega
  unfold Cursor.split? Cursor.room
  rw [hmissing, hlength, Nat.add_zero, Nat.zero_sub]
  by_cases hcount : idx + count ≤ stop
  · have htaken : (Cursor.between data idx stop).bytes.take count =
        data.slice idx (idx + count) := by
      change ((data.drop idx).take (stop - idx)).take count = (data.drop idx).take _
      rw [List.take_take, Nat.min_eq_left (by omega), Nat.add_sub_cancel_left]
    have hrest : (Cursor.between data idx stop).bytes.drop count =
        (Cursor.between data (idx + count) stop).bytes := by
      change ((data.drop idx).take (stop - idx)).drop count = (data.drop (idx + count)).take _
      rw [List.drop_take, List.drop_drop, Nat.sub_sub]
    have hnone : (Cursor.between data (idx + count) stop).missing = 0 :=
      Cursor.between_missing hstop
    rw [if_pos (by omega), if_pos hcount, htaken, hrest, ← hnone]
    rfl
  · rw [if_neg (by omega), if_neg hcount]

end Cursor

/-- A loop over a region that is not at its end reads an element, runs its step and goes on. -/
lemma Cursor.foldlM_walk_of_not_atEnd {σ : Type} {step : σ → Element → Except Fault σ} {c : Cursor}
    (h : c.atEnd = false) (state : σ) :
    c.walk.foldlM step state = c.element >>= fun read =>
      step state read.1 >>= fun state => read.2.walk.foldlM step state := by
  unfold Walk.foldlM
  cases hread : c.element with
  | error fault =>
    rw [Cursor.walk_of_error h hread]
    rfl
  | ok read =>
    obtain ⟨e, rest⟩ := read
    rw [Cursor.walk_of_ok h hread, List.foldlM_cons, bind_assoc]
    rfl

/-! ### Identifiers, lengths and elements -/

namespace Mirrors

variable {α β β' : Type} {data : Octets} {stop : ℕ}

/-- A value with the place behind it, as a reader at a cursor gives it. -/
abbrev viewAt (data : Octets) (stop : ℕ) (view : α → β) : α × ℕ → β × Cursor :=
  Prod.map view (Cursor.between data · stop)

/-- The place behind a value does not lie behind the bound. -/
abbrev upTo (stop : ℕ) : α × ℕ → Prop := fun p => p.2 ≤ stop

variable (hstop : stop ≤ data.length)

include hstop

/-- A byte is taken where the bound is not reached yet. -/
lemma byte {good : β → Prop} {view : β → β'} {idx : ℕ} (hidx : idx ≤ stop) (o : ℕ)
    (cause : Malformation) {f : UInt8 → Except Fault β} {g : UInt8 × Cursor → Except Fault β'}
    (h : ∀ x, idx < stop → data[idx]? = some x →
      Mirrors good view (f x) (g (x, Cursor.between data (idx + 1) stop))) :
    Mirrors good view
      (if stop ≤ idx then AttestedKey.malformedAt o cause else byteAt data idx >>= f)
      ((Cursor.between data idx stop).byte o cause >>= g) := by
  rcases hidx.eq_or_lt with rfl | hlt
  · rw [if_pos le_rfl, Cursor.between_self]
    exact malformedAt o cause
  · have hbyte : data[idx]? = some data[idx] := List.getElem?_eq_getElem (by omega)
    have hlook : byteAt data idx = .ok data[idx] := by
      unfold byteAt
      rw [hbyte]
    rw [if_neg (by omega), hlook, Cursor.between_of_lt hlt hstop]
    have hrest : (Cursor.between data (idx + 1) stop).missing = 0 := Cursor.between_missing hstop
    have hcursor : (⟨idx + 1, (Cursor.between data (idx + 1) stop).bytes, 0⟩ : Cursor) =
        Cursor.between data (idx + 1) stop := by
      rw [← hrest]
      rfl
    change Mirrors good view (f data[idx]) (g (data[idx], ⟨idx + 1, _, 0⟩))
    rw [hcursor]
    exact h _ hlt hbyte

/-- After the first digit of a tag number no other one is compared with a zero digit. -/
lemma readDigits {start idx : ℕ} (hstart : start < idx) (hidx : idx ≤ stop) (limit number : ℕ) :
    Mirrors (upTo stop) (viewAt data stop id) (Tag.readDigitsAt data start stop limit number idx)
      (Tag.readDigits start limit number (Cursor.between data idx stop)) := by
  induction limit generalizing number idx with
  | zero => exact malformedAt start _
  | succ limit ih =>
    unfold Tag.readDigitsAt Tag.readDigits
    refine byte hstop hidx start _ fun digit hlt _ => ?_
    rw [if_neg (by omega)]
    refine ite Iff.rfl (fun _ => ?_) fun _ => ih (by omega) hlt _
    exact ok (number * 128 + digit.toNat % 128, idx + 1) hlt

/-- The number of a tag in place. -/
lemma readNumber {idx : ℕ} (hidx : idx ≤ stop) :
    Mirrors (upTo stop) (viewAt data stop id) (Tag.readNumberAt data idx stop)
      (Tag.readNumber (Cursor.between data idx stop)) := by
  have hdigits (hfirst : data[idx]? ≠ some 128) :
      Mirrors (upTo stop) (viewAt data stop id) (Tag.readDigitsAt data idx stop 4 0 idx)
        (Tag.readDigits idx 4 0 (Cursor.between data idx stop)) := by
    unfold Tag.readDigitsAt Tag.readDigits
    refine byte hstop hidx idx _ fun digit hlt hdigit => ?_
    have hnonzero : ¬ (idx = idx ∧ digit = 128) := by
      rintro ⟨-, rfl⟩
      exact hfirst hdigit
    rw [if_neg hnonzero]
    refine ite Iff.rfl (fun _ => ?_) fun _ => readDigits hstop (Nat.lt_succ_self idx) hlt 3 _
    exact ok (0 * 128 + digit.toNat % 128, idx + 1) hlt
  have hrest (hfirst : data[idx]? ≠ some 128) :
      Mirrors (upTo stop) (viewAt data stop id) (Tag.readNumberAt data idx stop)
        (Tag.readDigits idx 4 0 (Cursor.between data idx stop) >>= fun read =>
          if read.1 < 31 then AttestedKey.malformedAt idx .longFormTagNumber else pure read) := by
    refine (hdigits hfirst).bind fun read hread => ?_
    exact ite Iff.rfl (fun _ => malformedAt idx _) fun _ => ok read hread
  unfold Tag.readNumber
  rcases hidx.eq_or_lt with rfl | hlt
  · rw [Cursor.between_self]
    unfold Tag.readNumberAt Tag.readDigitsAt
    rw [if_pos le_rfl]
    exact malformedAt idx _
  · have hbyte : data[idx]? = some data[idx] := List.getElem?_eq_getElem (by omega)
    have hhead : (Cursor.between data idx stop).bytes.head? = data[idx]? := by
      rw [Cursor.between_of_lt hlt hstop, hbyte]
      rfl
    rw [hhead]
    by_cases hfirst : data[idx]? = some 128
    · rw [if_pos hfirst]
      unfold Tag.readNumberAt Tag.readDigitsAt byteAt
      rw [if_neg (by omega), hfirst, ok_bind, if_pos ⟨rfl, rfl⟩]
      exact malformedAt idx _
    · rw [if_neg hfirst]
      exact hrest hfirst

/-- An identifier in place. -/
lemma readTag {idx : ℕ} (hidx : idx ≤ stop) :
    Mirrors (upTo stop) (viewAt data stop id) (Tag.readAt data idx stop)
      (Tag.read (Cursor.between data idx stop)) := by
  unfold Tag.readAt Tag.read
  refine byte hstop hidx idx _ fun first hlt _ => ?_
  refine ite Iff.rfl (fun _ => ?_) fun _ => ?_
  · refine (readNumber hstop hlt).bind fun read hread => ?_
    exact ok (Tag.mk (.ofCode (first.toNat / 64)) (first.toNat / 32 % 2 == 1) read.1, read.2) hread
  · exact ok (Tag.mk (.ofCode (first.toNat / 64)) (first.toNat / 32 % 2 == 1) (first.toNat % 32),
      idx + 1) hlt

/-- A length in place. -/
lemma readLength {idx : ℕ} (hidx : idx ≤ stop) :
    Mirrors (upTo stop) (viewAt data stop id) (Length.readAt data idx stop)
      (Length.read (Cursor.between data idx stop)) := by
  unfold Length.readAt Length.read
  refine byte hstop hidx idx _ fun first hlt _ => ?_
  refine ite Iff.rfl (fun _ => ok (first.toNat, idx + 1) hlt) fun _ => ?_
  generalize first.toNat - 128 = count
  refine ite Iff.rfl (fun _ => malformedAt idx _) fun hcount => ?_
  refine ite Iff.rfl (fun _ => malformedAt idx _) fun _ => ?_
  simp only
  rw [Cursor.split?_between hlt hstop]
  by_cases hfit : idx + 1 + count ≤ stop
  · have hlead : data[idx + 1]? = some data[idx + 1] := List.getElem?_eq_getElem (by omega)
    have hdigits : data.slice (idx + 1) (idx + 1 + count) =
        data[idx + 1] :: (data.drop (idx + 1 + 1)).take (count - 1) := by
      unfold Octets.slice
      rw [List.drop_eq_getElem_cons (by omega), Nat.add_sub_cancel_left,
        List.take_cons (Nat.pos_of_ne_zero hcount)]
    rw [if_neg (by omega), if_pos hfit]
    unfold byteAt
    rw [hlead, ok_bind, hdigits]
    refine ite Option.some_inj.symm (fun _ => malformedAt idx _) fun _ => ?_
    refine ite Iff.rfl (fun _ => malformedAt idx _) fun _ => ?_
    exact ok (Octets.toNat _, idx + 1 + count) hfit
  · rw [if_pos (by omega), if_neg hfit]
    exact malformedAt (idx + 1) _

end Mirrors

/-- Some bounds lie within a region that ends at a bound. -/
structure Bounds.Within (stop : ℕ) (b : Bounds) : Prop where
  /-- The content does not end before it begins. -/
  start : b.start ≤ b.stop
  /-- The element does not end behind the bound. -/
  stop : b.stop ≤ stop

namespace Mirrors

variable {α α' : Type} {data : Octets} {idx stop : ℕ} (hstop : stop ≤ data.length)
  (hidx : idx ≤ stop)

include hstop hidx

/-- An element in place starts where it was looked for and ends before the bound. -/
lemma element :
    Mirrors (fun p => p.1.offset = idx ∧ p.1.Within stop ∧ p.2 ≤ stop)
      (viewAt data stop (Bounds.element data)) (elementAt data idx stop)
      (Cursor.between data idx stop).element := by
  unfold elementAt Cursor.element
  refine (readTag hstop hidx).bind fun read hread => ?_
  obtain ⟨tag, afterTag⟩ := read
  refine (readLength hstop hread).bind fun read hread => ?_
  obtain ⟨length, afterLength⟩ := read
  simp only [Prod.map, id_eq]
  rw [Cursor.split?_between hread hstop]
  by_cases hfit : afterLength + length ≤ stop
  · rw [if_neg (by omega), if_pos hfit]
    have hlength : afterLength + length - afterLength = length := Nat.add_sub_cancel_left ..
    have helement : Bounds.element data ⟨tag, idx, afterLength, afterLength + length⟩ =
        ⟨tag, idx, afterLength, length, data.slice afterLength (afterLength + length)⟩ := by
      unfold Bounds.element
      rw [hlength]
      rfl
    change Mirrors _ _ _ (.ok ((⟨tag, idx, afterLength, length, _⟩ : Element), _))
    rw [← helement]
    exact ok (Bounds.mk tag idx afterLength (afterLength + length), afterLength + length)
      ⟨rfl, ⟨Nat.le_add_right .., hfit⟩, hfit⟩
  · rw [if_pos (by omega), if_neg hfit]
    exact malformedAt idx _

/-- A value is read in place if it is made of the bounds of an element. -/
lemma read {good : α → Prop} {view : α → α'} {interpret : Bounds → Except Fault α}
    {interpret' : Element → Except Fault α'}
    (h : ∀ b, b.offset = idx → b.Within stop →
      Mirrors good view (interpret b) (interpret' (b.element data))) :
    Mirrors (fun p => good p.1 ∧ p.2 ≤ stop) (viewAt data stop view)
      (readAt interpret data idx stop) ((Cursor.between data idx stop).read interpret') := by
  unfold readAt Cursor.read
  refine (element hstop hidx).bind fun read hread => ?_
  obtain ⟨b, next⟩ := read
  obtain ⟨hoffset, hwithin, hnext⟩ := hread
  refine (h b hoffset hwithin).bind fun a ha => ?_
  exact ok (a, next) ⟨ha, hnext⟩

end Mirrors

/-! ### Values -/

/-- A value that both readers make alike. -/
abbrev Same {α : Type} (x y : Except Fault α) : Prop := Mirrors (fun _ => True) id x y

namespace Mirrors

variable (data : Octets) (b : Bounds)

/-- The type of an element is required in place. -/
lemma expect (type : Universal) :
    Mirrors (· = b) (Bounds.element data) (b.expect type) ((b.element data).ofType type) :=
  ite Iff.rfl (fun _ => ok b rfl) fun _ => malformedAt b.offset _

/-- An explicit wrapper is required in place. -/
lemma expectExplicit (number : Option ℤ) :
    Mirrors (· = b) (Bounds.element data) (b.expectExplicit number)
      ((b.element data).ofExplicit number) := by
  refine ite Iff.rfl (fun _ => ?_) fun _ => malformedAt b.offset _
  cases number with
  | none => exact ok b rfl
  | some n => exact ite Iff.rfl (fun _ => ok b rfl) fun _ => malformedNumberAt b.offset n _

/-- A number of either type in place. -/
lemma toNumber (type : Universal) :
    Same (b.toNumber data type) ((b.element data).toNumber type) := by
  refine (expect data b type).bind ?_
  rintro b rfl
  refine ite Iff.rfl (fun _ => malformedAt b.offset _) fun _ => ?_
  exact ite Iff.rfl (fun _ => malformedAt b.offset _) fun _ => refl _

/-- A number of a bounded field in place. -/
lemma toUnsigned (field : String) (maximum : ℕ) :
    Same (b.toUnsigned data field maximum) ((b.element data).toUnsigned field maximum) := by
  refine (toNumber data b .integer).bind fun value _ => ?_
  exact ite Iff.rfl (fun _ => malformedNumberAt b.offset value _) fun _ => refl _

/-- Octets in place. -/
lemma toOctets : Same (b.toOctets data) (b.element data).toOctets := by
  refine (expect data b .octetString).bind ?_
  rintro b rfl
  exact refl _

/-- A null in place. -/
lemma toNull : Same b.toNull (b.element data).toNull := by
  refine (expect data b .null).bind ?_
  rintro b rfl
  exact ite Iff.rfl (fun _ => refl _) fun _ => malformedAt b.offset _

variable {data b} {stop : ℕ} (hstop : stop ≤ data.length)

include hstop

/-- The one octet of a truth value is looked up within the bounds. -/
lemma toBoolean (hb : b.Within stop) : Same (b.toBoolean data) (b.element data).toBoolean := by
  refine (expect data b .boolean).bind ?_
  rintro b rfl
  refine ite Iff.rfl (fun hlength => ?_) fun _ => malformedAt b.offset _
  have hlower := hb.start
  have hupper := hb.stop
  have hlook : data[b.start]? = some data[b.start] := List.getElem?_eq_getElem (by omega)
  have hcontent : (b.element data).content = [data[b.start]] := by
    change (data.drop b.start).take (b.stop - b.start) = _
    rw [hlength, List.drop_eq_getElem_cons (by omega)]
    rfl
  unfold byteAt
  rw [hlook, hcontent]
  exact refl _

/-- A loop in place runs over the elements of the region. -/
lemma loop {σ : Type} {step : σ → Bounds → Except Fault σ} {step' : σ → Element → Except Fault σ}
    (h : ∀ t b, b.Within stop → Same (step t b) (step' t (b.element data))) {idx : ℕ}
    (hidx : idx ≤ stop) (t : σ) :
    Same (loopAt step data idx stop t) ((Cursor.between data idx stop).walk.foldlM step' t) := by
  induction hn : stop - idx using Nat.strongRecOn generalizing idx t with
  | ind n ih =>
    rcases hidx.eq_or_lt with rfl | hlt
    · have hend := (Cursor.atEnd_between le_rfl hstop).mpr rfl
      rw [loopAt_of_le le_rfl, Cursor.walk_of_atEnd hend]
      exact refl _
    · have hend : (Cursor.between data idx stop).atEnd = false :=
        Bool.eq_false_iff.mpr fun hend => hlt.ne ((Cursor.atEnd_between hidx hstop).mp hend)
      rw [loopAt_of_lt hlt, Cursor.foldlM_walk_of_not_atEnd hend]
      have hread := element hstop hidx
      cases htaken : elementAt data idx stop with
      | error fault =>
        rw [htaken] at hread
        rw [hread.eq]
        exact error fault
      | ok taken =>
        obtain ⟨b, next⟩ := taken
        have hnext := lt_of_elementAt htaken
        rw [htaken] at hread
        obtain ⟨-, hwithin, hbound⟩ := hread.good _ rfl
        rw [hread.eq]
        exact (h t b hwithin).bind fun t' _ => ih _ (by omega) hbound t' rfl

end Mirrors

end AttestedKey.Der
