import ListRuntime.Binary64.Basic

/-!
# The shortest decimal of a double

A finite double is written with the fewest decimal digits that read back as the same double.  The
reals that read back as `x` form an interval around `x`; of the decimals with `n` digits only the
two neighbours of `x` can be the best ones in it, so it is enough to try them for `n = 1, 2, …`.

* `Binary64.shortest` finds the decimal.
* `Binary64.text` writes it: plainly for moderate exponents, else with an exponent.
-/

set_option autoImplicit false

namespace ListRuntime

/-- The decimal `digits * 10 ^ exponent`. -/
structure Decimal where
  digits : Nat
  exponent : Int
deriving DecidableEq, Repr

/-- How many decimal digits a positive number has; zero has none. -/
def decimalLength (n : Nat) : Nat :=
  if n = 0 then 0 else decimalLength (n / 10) + 1

namespace Binary64

/-! ## The search -/

/-- The interval of reals that read back as a positive finite double, in units of
`unitNum / unitDen`: from `low` over the double itself, `mid`, to `high`.  The ends belong to it
when `closed` holds. -/
structure Neighbourhood where
  low : Nat
  mid : Nat
  high : Nat
  closed : Bool
  unitNum : Nat
  unitDen : Nat

/-- The interval around `x`, in quarters of its last place.  It reaches half a place up and down,
but only a quarter down where the places below are half as wide.  An even significand wins ties, so
its interval has its ends. -/
def neighbourhood (x : Binary64) : Neighbourhood where
  low := 4 * x.significand - (if x.fractionField = 0 ∧ 1 < x.exponentField then 1 else 2)
  mid := 4 * x.significand
  high := 4 * x.significand + 2
  closed := x.significand % 2 = 0
  unitNum := Nat.pow 2 (x.scale - 1077)
  unitDen := Nat.pow 2 (1077 - x.scale)

namespace Neighbourhood

/-- The exponent `p` with `10 ^ (p - 1) ≤ mid < 10 ^ p`, where `mid` is taken with its unit. -/
def point (u : Neighbourhood) : Int :=
  let num := u.mid * u.unitNum
  if u.unitDen ≤ num then decimalLength (num / u.unitDen)
  else 1 - decimalLength ((u.unitDen - 1) / num)

/-- The factor that turns a multiple of `10 ^ k` into the common scale of `scaled`. -/
def decimalUnit (u : Neighbourhood) (k : Int) : Nat := Nat.pow 10 k.toNat * u.unitDen

/-- A bound of the interval in the common scale of `decimalUnit`. -/
def scaled (u : Neighbourhood) (k : Int) (bound : Nat) : Nat :=
  bound * u.unitNum * Nat.pow 10 (-k).toNat

/-- Whether `d * 10 ^ k` lies in the interval. -/
def holds (u : Neighbourhood) (k : Int) (d : Nat) : Bool :=
  let value := d * u.decimalUnit k
  if u.closed then u.scaled k u.low ≤ value && value ≤ u.scaled k u.high
  else u.scaled k u.low < value && value < u.scaled k u.high

/-- The best decimal with unit `10 ^ k` in the interval, if there is one: the nearer of the two
neighbours of the double, the upper one on a tie. -/
def candidate? (u : Neighbourhood) (k : Int) : Option Decimal :=
  let unit := u.decimalUnit k
  let mid := u.scaled k u.mid
  let below := mid / unit
  let above := below + 1
  match u.holds k below, u.holds k above with
  | true, true => some ⟨if mid - below * unit < above * unit - mid then below else above, k⟩
  | true, false => some ⟨below, k⟩
  | false, true => some ⟨above, k⟩
  | false, false => none

end Neighbourhood

/-- The decimal with the fewest digits that reads back as the positive finite double `x`, and of
those the nearest.  Seventeen digits always suffice. -/
def shortest (x : Binary64) : Decimal :=
  let u := x.neighbourhood
  ((List.range 17).findSome? fun (n : Nat) ↦ u.candidate? (u.point - (n + 1 : Nat))).getD ⟨0, 0⟩

/-! ## The text -/

/-- How decimals are written. -/
structure Style where
  /-- The least exponent of a leading digit that is written without an exponent. -/
  leastPlain : Int
  /-- The greatest such exponent. -/
  greatestPlain : Int
  /-- The text of NaN. -/
  nan : String
  /-- The text of positive infinity. -/
  infinity : String

/-- Numbers are written plainly from one ten-thousandth up to below ten to the sixteenth. -/
def Style.standard : Style := ⟨-4, 15, "NaN", "inf"⟩

/-- A decimal in a style.  A plain number has at least one digit after the point; an exponent is
written without padding, and a fraction before it only if there are digits left for it. -/
def Style.write (style : Style) (d : Decimal) : String :=
  let all := Nat.toDigits 10 d.digits
  let point : Int := d.exponent + all.length
  let digits := (all.reverse.dropWhile (· = '0')).reverse
  if style.leastPlain ≤ point - 1 ∧ point - 1 ≤ style.greatestPlain then
    let whole := point.toNat
    let (front, back) :=
      if point ≤ 0 then (['0'], List.replicate (-point).toNat '0' ++ digits)
      else (digits.take whole ++ List.replicate (whole - digits.length) '0', digits.drop whole)
    String.ofList (front ++ '.' :: (if back.isEmpty then ['0'] else back))
  else
    let mantissa := match digits with
      | first :: second :: rest => first :: '.' :: second :: rest
      | short => short
    String.ofList mantissa ++ "e" ++ toString (point - 1)

/-- The text of a double in a style.  A zero keeps its sign. -/
def render (style : Style) (x : Binary64) : String :=
  if x.isNaN then style.nan
  else
    let sign := if x.negative then "-" else ""
    if x.isInfinite then sign ++ style.infinity
    else if x.isZero then sign ++ "0.0"
    else sign ++ style.write x.shortest

/-- The text of a double in a list. -/
def text (x : Binary64) : String := x.render Style.standard

end Binary64
end ListRuntime
