/-!
# Double-precision numbers

A `Binary64` is the 64 bits of a double-precision number.  A finite one denotes
`± significand * 2 ^ (scale - 1075)`, and everything here is computed from that in exact integer
arithmetic: nothing is ever rounded unless it says so.

* `Binary64.equal` is numeric equality: the two zeros are equal and NaN equals nothing;
  `Binary64.le` and `Binary64.lt` are the numeric order.
* `Binary64.wholePart` is a double without its fractional part, `Binary64.toInt64` the word that it
  is cast to, and `Binary64.equalInt` compares it with a word.
* `Binary64.ofInt` is the double nearest to a whole number, ties to the even neighbour.
-/

set_option autoImplicit false

namespace ListRuntime

/-- A double-precision number, as its bits. -/
structure Binary64 where
  /-- Sign, eleven bits of exponent, fifty-two bits of fraction, from the top. -/
  bits : UInt64
deriving DecidableEq, Repr

namespace Binary64

/-! ## Fields -/

/-- Whether the sign bit is set. -/
def negative (x : Binary64) : Bool := Nat.pow 2 63 ≤ x.bits.toNat

/-- The bits below the sign. -/
def unsignedBits (x : Binary64) : Nat := x.bits.toNat % Nat.pow 2 63

/-- The biased exponent. -/
def exponentField (x : Binary64) : Nat := x.bits.toNat / Nat.pow 2 52 % Nat.pow 2 11

/-- The fraction. -/
def fractionField (x : Binary64) : Nat := x.bits.toNat % Nat.pow 2 52

/-- Whether the bits stand for no number. -/
def isNaN (x : Binary64) : Bool := x.exponentField = 2047 && x.fractionField ≠ 0

/-- Whether the bits stand for an infinity. -/
def isInfinite (x : Binary64) : Bool := x.exponentField = 2047 && x.fractionField = 0

/-- Whether the bits stand for a zero of either sign. -/
def isZero (x : Binary64) : Bool := x.exponentField = 0 && x.fractionField = 0

/-- The whole number `m` of a finite double `± m * 2 ^ (scale - 1075)`: the fraction, with a leading
one unless the exponent field is zero. -/
def significand (x : Binary64) : Nat :=
  if x.exponentField = 0 then x.fractionField else Nat.pow 2 52 + x.fractionField

/-- The exponent of a finite double, moved up by 1075 so that it is a natural number. -/
def scale (x : Binary64) : Nat := max 1 x.exponentField

/-- A natural number with the sign of `x`. -/
def signed (x : Binary64) (n : Nat) : Int := if x.negative then -(n : Int) else n

/-! ## Whole numbers -/

/-- A finite double without its fractional part: the whole number next to it on the way to zero. -/
def wholePart (x : Binary64) : Int :=
  if 1075 ≤ x.scale then x.signed (x.significand * Nat.pow 2 (x.scale - 1075))
  else x.signed (x.significand / Nat.pow 2 (1075 - x.scale))

/-- Whether `x` has a fractional part and this is zero.  Infinities and NaN have none. -/
def isWhole (x : Binary64) : Bool :=
  x.exponentField ≠ 2047 &&
    (1075 ≤ x.scale || x.significand % Nat.pow 2 (1075 - x.scale) = 0)

/-- The word that `x` is cast to: its whole part, or the nearer end of the range if that is no word.
NaN is cast to zero. -/
def toInt64 (x : Binary64) : Int64 :=
  if x.isNaN then 0
  else if x.isInfinite then (if x.negative then Int64.minValue else Int64.maxValue)
  else Int64.ofIntClamp x.wholePart

/-- `n / d` rounded to the nearest whole number, a tie to the even one. -/
def divNearest (n d : Nat) : Nat :=
  let q := n / d
  let r := n % d
  if d < 2 * r ∨ (2 * r = d ∧ q % 2 = 1) then q + 1 else q

/-- The exponent and fraction bits of the double nearest to `n`.  The top bit of `n` gives the
exponent and the 52 below it the fraction; when rounding carries the fraction over, the sum moves on
to the next exponent by itself. -/
def magnitudeBits (n : Nat) : Nat :=
  if n = 0 then 0
  else
    let top := n.log2
    let leading := Nat.pow 2 52
    (top + 1023) * leading + (divNearest (n * leading) (Nat.pow 2 top) - leading)

/-- The double nearest to a whole number of at most 64 bits, a tie to the one with an even
fraction. -/
def ofInt (i : Int) : Binary64 :=
  ⟨UInt64.ofNat ((if i < 0 then Nat.pow 2 63 else 0) + magnitudeBits i.natAbs)⟩

/-! ## Comparison -/

/-- Numeric equality.  Distinct bits denote distinct numbers, the two zeros apart. -/
def equal (x y : Binary64) : Bool :=
  !x.isNaN && !y.isNaN && (x.bits = y.bits || (x.isZero && y.isZero))

/-- Where a double stands among all doubles, counted from zero.  Without the sign, the bits of a
greater double are a greater number. -/
def rung (x : Binary64) : Int := x.signed x.unsignedBits

/-- The numeric order.  NaN stands in no order to anything. -/
def le (x y : Binary64) : Bool := !x.isNaN && !y.isNaN && x.rung ≤ y.rung

/-- The strict numeric order. -/
def lt (x y : Binary64) : Bool := !x.isNaN && !y.isNaN && x.rung < y.rung

/-- Whether a double denotes exactly the whole number `i`, which is a word.  The cast is exact for
whole numbers from `-2 ^ 63` up to before `2 ^ 63`, and both of these bounds are doubles. -/
def equalInt (x : Binary64) (i : Int) : Bool :=
  x.isWhole && (ofInt (-9223372036854775808)).le x && x.lt (ofInt 9223372036854775808) &&
    x.toInt64.toInt = i

end Binary64
end ListRuntime
