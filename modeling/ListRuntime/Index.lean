import ListRuntime.Storage.Request

/-!
# Positions in a list

An index is a signed 64-bit number; a negative one counts from the end.  There are two rules for
what a list of a given length makes of it:

* `resolveIndex` is for reading and writing one element: the position must exist.
* `clampPosition` is for insertions and the windows of searches: what lies outside is moved to the
  nearer end.

Both compute in 64-bit arithmetic, and neither can overflow.
-/

set_option autoImplicit false

namespace ListRuntime

/-- A length as a signed number.  Lists are never longer than the greatest one. -/
def signedLength (length : Nat) : Int64 := Int64.ofNat (min length maxObjectBytes)

/-- The position that `index` names in a list of `length` elements, if there is one. -/
def resolveIndex (index : Int64) (length : Nat) : Option Nat :=
  let position := if index < 0 then index + signedLength length else index
  if 0 ≤ position ∧ position.toNatClampNeg < length then some position.toNatClampNeg else none

/-- The place between elements that `position` names, moved into the list if it lies outside. -/
def clampPosition (position : Int64) (length : Nat) : Nat :=
  let clamped :=
    if position < 0 then max (position + signedLength length) 0
    else min position (signedLength length)
  clamped.toNatClampNeg

end ListRuntime
