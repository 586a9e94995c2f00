import AttestedKey.OrderedSet
import AttestedKey.Slot

/-!
# Authenticator masks

The authenticators that may unlock a key are a set whose encoded form is a mask.  `mask` folds
a collection of numbers into a mask, and `ofMask` expands a mask into a set: zero is the set of
`none`, 32 ones are the set of `any`, and of every other mask the two lowest bits stand for a
password and a fingerprint, while the bits above them stay together as one number without a
name.  Masks are integers of any size in two's complement.
-/

namespace AttestedKey

/-- The bitwise disjunction of two integers in two's complement. -/
def bitOr : Int → Int → Int
  | .ofNat m, .ofNat n => .ofNat (m ||| n)
  | .ofNat m, .negSucc n => .negSucc (n - (m &&& n))
  | .negSucc m, .ofNat n => .negSucc (m - (m &&& n))
  | .negSucc m, .negSucc n => .negSucc (m &&& n)

/-- The numbers or members that the authenticators of a key are. -/
abbrev Authenticators := OrderedSet (Slot .userAuthType)

namespace Authenticators

/-- The mask that stands for any authenticator. -/
def anyMask : Int := 0xFFFFFFFF

/-- The mask of a collection of numbers: that of any authenticator if it occurs, else all the
bits that occur. -/
def mask (codes : List Int) : Int :=
  if anyMask ∈ codes then anyMask else codes.foldl bitOr 0

/-- The bits of a mask above the two that have a name. -/
def leftover (mask : Int) : Int := mask - mask % 4

/-- The members that a mask of neither zero nor all ones stands for. -/
def parts (mask : Int) : List (Slot .userAuthType) :=
  (if mask % 2 = 1 then [.known .password] else []) ++
    (if mask / 2 % 2 = 1 then [.known .fingerprint] else []) ++
    (if leftover mask = 0 then [] else [.ofCode _ (leftover mask)])

/-- The set that a mask stands for. -/
def ofMask (mask : Int) : Authenticators :=
  if mask = 0 then .ofList [.known .none]
  else if mask = anyMask then .ofList [.known .any]
  else .ofList (parts mask)

/-- Whether a mask has bits that stand for no authenticator. -/
def hasUnknown (mask : Int) : Bool :=
  mask != 0 && mask != anyMask && leftover mask != 0

/-- The set that a mask stands for in a given mode.  Strict reading refuses a mask with bits
that stand for no authenticator. -/
def recognise (rigor : Rigor) (tag offset : Option Int) (mask : Int) :
    Except Fault Authenticators :=
  match rigor, hasUnknown mask with
  | .strict, true =>
    .error (.unrecognised (.authenticatorBits mask (leftover mask) tag) offset)
  | _, _ => .ok (ofMask mask)

/-- The numbers of a set, smallest first. -/
def codes (s : Authenticators) : List Int := s.toList.map Slot.code

/-- Lenient reading takes every mask. -/
theorem recognise_lenient (tag offset : Option Int) (mask : Int) :
    recognise .lenient tag offset mask = .ok (ofMask mask) := rfl

end Authenticators

end AttestedKey
