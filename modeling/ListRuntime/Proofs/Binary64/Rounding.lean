import Mathlib.Algebra.Order.Group.Unbundled.Int
import ListRuntime.Proofs.Binary64

/-!
# Rounding whole numbers to doubles

`Binary64.ofInt` computes the double nearest to a word from the bits of the word.  This file says what
nearest means, among all doubles there are, and proves that it is.

All doubles from `2 ^ top` on are multiples of one number, the grid of the exponent `top`, and the
rounding is to the nearest multiple.  Smaller doubles need not lie on the grid, but a word whose
leading bit is `2 ^ top` is no nearer to any of these than to `2 ^ top` itself.

* `IsNearest` is the definition, by the numbers that doubles denote.
* `nearestMultiple_divNearest` is rounding on a grid, and `NearestMultiple.of_grid` takes in what lies
  below it.
* `unsignedUnits_ofInt` is what the bits come to.  It is here that rounding up can carry over into the
  exponent.
* `isNearest_ofInt` puts them together.
-/

set_option autoImplicit false

namespace ListRuntime
namespace Binary64

/-! ## Nearest multiples -/

/-- Of the multiples of `d`, that by `q` is nearest to `n`; if another one is as near, `q` is even. -/
structure NearestMultiple (n d q : Nat) : Prop where
  /-- No multiple is nearer. -/
  le (k : Nat) : ((q * d : Nat) - n : Int).natAbs ≤ ((k * d : Nat) - n : Int).natAbs
  /-- A tie goes to the even one. -/
  even (k : Nat) (htie : ((k * d : Nat) - n : Int).natAbs = ((q * d : Nat) - n : Int).natAbs)
    (hne : k ≠ q) : q % 2 = 0

/-- Where a multiple of `d` lies, seen from that by `m` and the next one. -/
theorem mul_cases (k m d : Nat) :
    (k < m ∧ k * d + d ≤ m * d) ∨ (k = m ∧ k * d = m * d) ∨ (k = m + 1 ∧ k * d = m * d + d) ∨
      (m + 1 < k ∧ m * d + 2 * d ≤ k * d) := by
  have hmul {i j : Nat} (hle : i ≤ j) : i * d ≤ j * d := Nat.mul_le_mul_right d hle
  rcases Nat.lt_trichotomy k m with hlt | rfl | hgt
  · have hstep := hmul (Nat.succ_le_of_lt hlt)
    rw [Nat.succ_mul] at hstep
    exact Or.inl ⟨hlt, hstep⟩
  · exact Or.inr (Or.inl ⟨rfl, rfl⟩)
  · rcases Nat.lt_or_eq_of_le (Nat.succ_le_of_lt hgt) with hlt | rfl
    · have hstep := hmul (Nat.succ_le_of_lt hlt)
      rw [Nat.succ_mul, Nat.succ_mul] at hstep
      exact Or.inr (Or.inr (Or.inr ⟨hlt, by omega⟩))
    · exact Or.inr (Or.inr (Or.inl ⟨rfl, Nat.succ_mul m d⟩))

/-- Rounding goes down to the quotient or up to the next one, by what remains. -/
theorem divNearest_cases (n d : Nat) :
    (divNearest n d = n / d ∧ 2 * (n % d) ≤ d ∧ (2 * (n % d) = d → n / d % 2 = 0)) ∨
      (divNearest n d = n / d + 1 ∧ d ≤ 2 * (n % d) ∧ (2 * (n % d) = d → n / d % 2 = 1)) := by
  rw [divNearest]
  split
  · exact Or.inr ⟨rfl, by omega, by omega⟩
  · exact Or.inl ⟨rfl, by omega, by omega⟩

/-- **Rounded division finds the nearest multiple.** -/
theorem nearestMultiple_divNearest {d : Nat} (hd : 0 < d) (n : Nat) :
    NearestMultiple n d (divNearest n d) := by
  have hn := Nat.div_add_mod' n d
  have hr := Nat.mod_lt n hd
  rcases divNearest_cases n d with ⟨heq, hhalf, htie⟩ | ⟨heq, hhalf, htie⟩
  · rw [heq]
    refine ⟨fun k ↦ ?_, fun k ↦ ?_⟩ <;> have hk := mul_cases k (n / d) d
    · omega
    · omega
  · rw [heq]
    have hnext := Nat.add_one_mul (n / d) d
    refine ⟨fun k ↦ ?_, fun k ↦ ?_⟩ <;> have hk := mul_cases k (n / d) d
    · omega
    · omega

/-- Counted in smaller units, the nearest multiple stays the nearest. -/
theorem NearestMultiple.mul {n d q c : Nat} (h : NearestMultiple n d q) (hc : 0 < c) :
    NearestMultiple (n * c) (d * c) q := by
  have hdistance (k : Nat) : ((k * (d * c) : Nat) - (n * c : Nat) : Int).natAbs =
      ((k * d : Nat) - n : Int).natAbs * c := by
    rw [← Nat.mul_assoc, Nat.cast_mul, Nat.cast_mul n c, ← Int.sub_mul, Int.natAbs_mul,
      Int.natAbs_natCast]
  refine ⟨fun k ↦ ?_, fun k htie hne ↦ ?_⟩
  · rw [hdistance, hdistance]
    exact Nat.mul_le_mul_right c (h.le k)
  · rw [hdistance, hdistance] at htie
    exact h.even k (Nat.eq_of_mul_eq_mul_right hc htie) hne

/-- What is no multiple may be nearer than the multiples, but not if it is less than one of them that
does not exceed `n`. -/
theorem NearestMultiple.of_grid {n d q lead : Nat} (h : NearestMultiple n d q)
    (hlead : lead * d ≤ n) {u : Nat} (hu : (∃ k, u = k * d) ∨ u < lead * d) :
    ((q * d : Nat) - n : Int).natAbs ≤ ((u : Int) - n).natAbs ∧
      (((u : Int) - n).natAbs = ((q * d : Nat) - n : Int).natAbs → u ≠ q * d → q % 2 = 0) := by
  rcases hu with ⟨k, rfl⟩ | hlt
  · exact ⟨h.le k, fun htie hne ↦ h.even k htie fun heq ↦ hne (heq ▸ rfl)⟩
  · have hle := h.le lead
    omega

/-! ## The grid of doubles -/

/-- Doubles are multiples of a power of two from its own leading one on. -/
theorem multiple_or_lt (x : Binary64) (s : Nat) :
    (∃ k, x.unsignedUnits = k * 2 ^ s) ∨ x.unsignedUnits < 2 ^ 52 * 2 ^ s := by
  rw [unsignedUnits]
  rcases Nat.lt_or_ge (x.scale - 1) s with hlt | hge
  · refine Or.inr ?_
    calc x.significand * 2 ^ (x.scale - 1)
        < 2 ^ 53 * 2 ^ (x.scale - 1) :=
          Nat.mul_lt_mul_of_pos_right x.significand_lt (Nat.two_pow_pos _)
      _ = 2 ^ 52 * 2 ^ (x.scale - 1 + 1) := by
          rw [← Nat.pow_add, ← Nat.pow_add]
          congr 1
          omega
      _ ≤ 2 ^ 52 * 2 ^ s := Nat.mul_le_mul_left _ (Nat.pow_le_pow_right Nat.two_pos hlt)
  · refine Or.inl ⟨x.significand * 2 ^ (x.scale - 1 - s), ?_⟩
    rw [Nat.mul_assoc, ← Nat.pow_add, Nat.sub_add_cancel hge]

/-- Bits as a sum of an exponent and a significand stand for that significand at that exponent.  If
the significand is one too large, the sum has carried over into the exponent, where the same number
is written with the significand halved. -/
theorem unsignedUnits_of_bits {x : Binary64} {s m : Nat} (h : x.unsignedBits = s * 2 ^ 52 + m)
    (hle : 2 ^ 52 ≤ m) (hcarry : m ≤ 2 ^ 53) :
    x.unsignedUnits = m * 2 ^ s ∧ (m % 2 = 0 → x.significand % 2 = 0) := by
  have hfields := x.unsignedBits_eq_fields
  have hfraction := x.fractionField_lt
  rcases Nat.lt_or_eq_of_le hcarry with hlt | rfl
  · have hexponent : x.exponentField = s + 1 := by omega
    have hsignificand : x.significand = m := by
      rw [significand, if_neg (by omega), Nat.pow_eq]
      omega
    have hscale : x.scale - 1 = s := by rw [scale]; omega
    rw [unsignedUnits, hsignificand, hscale]
    exact ⟨rfl, id⟩
  · have hexponent : x.exponentField = s + 2 := by omega
    have hsignificand : x.significand = 2 ^ 52 := by
      rw [significand, if_neg (by omega), Nat.pow_eq]
      omega
    have hscale : x.scale - 1 = s + 1 := by rw [scale]; omega
    rw [unsignedUnits, hsignificand, hscale]
    refine ⟨?_, fun _ ↦ rfl⟩
    rw [← Nat.pow_add, ← Nat.pow_add]
    congr 1
    omega

/-! ## The bits of a whole number -/

/-- What a natural number is rounded to, in steps of the grid that its leading bit belongs to. -/
def steps (n : Nat) : Nat := divNearest (n * 2 ^ 52) (2 ^ n.log2)

/-- There are as many steps as a significand is wide, or one too many after rounding up. -/
theorem steps_bounds {n : Nat} (hn : n ≠ 0) : 2 ^ 52 ≤ steps n ∧ steps n ≤ 2 ^ 53 := by
  have hpos := Nat.two_pow_pos n.log2
  have hlow : 2 ^ 52 ≤ n * 2 ^ 52 / 2 ^ n.log2 := by
    rw [Nat.le_div_iff_mul_le hpos, Nat.mul_comm]
    exact Nat.mul_le_mul_right _ (Nat.log2_self_le hn)
  have hhigh : n * 2 ^ 52 / 2 ^ n.log2 < 2 ^ 53 := by
    rw [Nat.div_lt_iff_lt_mul hpos]
    calc n * 2 ^ 52 < 2 ^ (n.log2 + 1) * 2 ^ 52 :=
          Nat.mul_lt_mul_of_pos_right Nat.lt_log2_self (Nat.two_pow_pos 52)
      _ = 2 ^ 53 * 2 ^ n.log2 := by
          rw [← Nat.pow_add, ← Nat.pow_add]
          congr 1
          omega
  rcases divNearest_cases (n * 2 ^ 52) (2 ^ n.log2) with ⟨heq, -⟩ | ⟨heq, -⟩ <;>
    rw [steps, heq] <;> omega

theorem magnitudeBits_eq {n : Nat} (hn : n ≠ 0) :
    magnitudeBits n = (n.log2 + 1022) * 2 ^ 52 + steps n := by
  have hsteps := (steps_bounds hn).1
  rw [magnitudeBits, if_neg hn]
  simp only [Nat.pow_eq]
  rw [← steps]
  omega

/-- The bits of a number of at most 64 bits leave the sign free, and are not those of an infinity. -/
theorem magnitudeBits_lt {n : Nat} (hn : n < 2 ^ 64) : magnitudeBits n < 2047 * 2 ^ 52 := by
  rcases Nat.eq_zero_or_pos n with rfl | hpos
  · decide
  · have hsteps := (steps_bounds hpos.ne').2
    have htop : n.log2 < 64 := (Nat.log2_lt hpos.ne').2 hn
    rw [magnitudeBits_eq hpos.ne']
    omega

section
variable {i : Int} (hi : i.natAbs < 2 ^ 64)
include hi

theorem toNat_bits_ofInt :
    (ofInt i).bits.toNat = (if i < 0 then 2 ^ 63 else 0) + magnitudeBits i.natAbs := by
  have hlt := magnitudeBits_lt hi
  rw [ofInt, UInt64.toNat_ofNat', Nat.pow_eq]
  exact Nat.mod_eq_of_lt (by split <;> omega)

theorem unsignedBits_ofInt : (ofInt i).unsignedBits = magnitudeBits i.natAbs := by
  have hlt := magnitudeBits_lt hi
  rw [unsignedBits, toNat_bits_ofInt hi, Nat.pow_eq]
  split <;> omega

theorem negative_ofInt : (ofInt i).negative = decide (i < 0) := by
  have hlt := magnitudeBits_lt hi
  rw [negative, toNat_bits_ofInt hi, Nat.pow_eq, decide_eq_decide]
  split <;> omega

theorem exponentField_ofInt : (ofInt i).exponentField ≠ 2047 := by
  have hlt := magnitudeBits_lt hi
  have hfields := (ofInt i).unsignedBits_eq_fields
  rw [unsignedBits_ofInt hi] at hfields
  omega

/-- **The bits stand for the nearest step of the grid.** -/
theorem unsignedUnits_ofInt (hne : i ≠ 0) :
    (ofInt i).unsignedUnits = steps i.natAbs * 2 ^ (i.natAbs.log2 + 1022) ∧
      (steps i.natAbs % 2 = 0 → (ofInt i).significand % 2 = 0) := by
  have habs : i.natAbs ≠ 0 := Int.natAbs_ne_zero.2 hne
  obtain ⟨hle, hcarry⟩ := steps_bounds habs
  exact unsignedUnits_of_bits ((unsignedBits_ofInt hi).trans (magnitudeBits_eq habs)) hle hcarry

end

/-! ## Nearest doubles -/

section
variable {below : Nat} (hbelow : 52 + below = 1074)
include hbelow

/-- The steps are those nearest to the number, on the grid of its leading bit. -/
theorem nearestMultiple_steps (n : Nat) :
    NearestMultiple (n * unitsInOne) (2 ^ (n.log2 + below)) (steps n) := by
  have hmul := (nearestMultiple_divNearest (Nat.two_pow_pos n.log2) (n * 2 ^ 52)).mul
    (Nat.two_pow_pos below)
  rwa [Nat.mul_assoc, ← unitsInOne_eq hbelow, ← Nat.pow_add] at hmul

/-- The leading bit is on the grid. -/
theorem leading_le {n : Nat} (hn : n ≠ 0) : 2 ^ 52 * 2 ^ (n.log2 + below) ≤ n * unitsInOne := by
  rw [Nat.pow_add, Nat.mul_left_comm, ← unitsInOne_eq hbelow]
  exact Nat.mul_le_mul_right _ (Nat.log2_self_le hn)

end

/-- A whole number in units. -/
theorem mul_unitsInOne_eq (i : Int) : i * unitsInOne =
    if i < 0 then -((i.natAbs * unitsInOne : Nat) : Int) else (i.natAbs * unitsInOne : Nat) := by
  rw [Nat.cast_mul]
  split
  · rw [Int.ofNat_natAbs_of_nonpos (by omega), Int.neg_mul, Int.neg_neg]
  · rw [Int.natAbs_of_nonneg (by omega)]

/-- **No double is nearer**, in units, and if another one is as near, the significand is even. -/
theorem units_ofInt_nearest {i : Int} (hi : i.natAbs < 2 ^ 64) (y : Binary64) :
    ((ofInt i).units - i * unitsInOne).natAbs ≤ (y.units - i * unitsInOne).natAbs ∧
      ((y.units - i * unitsInOne).natAbs = ((ofInt i).units - i * unitsInOne).natAbs →
        y.units ≠ (ofInt i).units → (ofInt i).significand % 2 = 0) := by
  by_cases hne : i = 0
  · have hzero : (ofInt 0).units = 0 := by decide +kernel
    rw [hne, hzero]
    omega
  · have habs := Int.natAbs_ne_zero.2 hne
    have hbelow : 52 + 1022 = 1074 := rfl
    obtain ⟨hunits, hsignificand⟩ := unsignedUnits_ofInt hi hne
    obtain ⟨hle, heven⟩ := (nearestMultiple_steps hbelow i.natAbs).of_grid (leading_le hbelow habs)
      (y.multiple_or_lt _)
    rw [← hunits] at hle heven
    have hpos := Nat.mul_pos (Nat.pos_of_ne_zero habs) unitsInOne_pos
    -- the number and what it is rounded to have the same sign; that of `y` may differ
    rw [mul_unitsInOne_eq, units, units, signed, signed, negative_ofInt hi]
    generalize i.natAbs * unitsInOne = target at *
    simp only [decide_eq_true_eq]
    split <;> split <;> omega

/-! ## In numbers -/

/-- What denotes a real number is finite, and denotes its units. -/
theorem of_denoted_real {x : Binary64} {r : ℝ} (h : x.denoted? = some (r : EReal)) :
    x.exponentField ≠ 2047 ∧ r = x.units / unitsInOne := by
  have hfinite : x.exponentField ≠ 2047 := by
    intro hexponent
    rw [denoted?, if_pos hexponent] at h
    split at h
    · split at h
      · exact EReal.coe_ne_bot r (Option.some.inj h).symm
      · exact EReal.coe_ne_top r (Option.some.inj h).symm
    · cases h
  rw [denoted?_of_finite hfinite, Option.some_inj, EReal.coe_eq_coe_iff] at h
  exact ⟨hfinite, h.symm⟩

/-- How far a double is from a whole number. -/
theorem abs_sub_eq (units i : Int) :
    |(units / unitsInOne : ℝ) - i| = ((units - i * unitsInOne).natAbs : ℝ) / unitsInOne := by
  have hpos : (0 : ℝ) < unitsInOne := Nat.cast_pos.2 unitsInOne_pos
  have hdifference : (units / unitsInOne : ℝ) - i = (units - i * unitsInOne) / unitsInOne := by
    rw [sub_div, mul_div_cancel_right₀ _ hpos.ne']
  rw [hdifference, abs_div, abs_of_pos hpos, Nat.cast_natAbs]
  push_cast
  rfl

/-- `x` is the double nearest to `t`: it denotes a number, no double denotes one that is nearer, and
if another number that a double denotes is as near, the significand of `x` is even. -/
def IsNearest (t : ℝ) (x : Binary64) : Prop :=
  ∃ r : ℝ, x.denoted? = some (r : EReal) ∧ ∀ (y : Binary64) (r' : ℝ), y.denoted? = some (r' : EReal) →
    |r - t| ≤ |r' - t| ∧ (|r' - t| = |r - t| → r' ≠ r → x.significand % 2 = 0)

/-- **A whole number is rounded to the nearest double.** -/
theorem isNearest_ofInt {i : Int} (hi : i.natAbs < 2 ^ 64) : IsNearest i (ofInt i) := by
  have hpos : (0 : ℝ) < unitsInOne := Nat.cast_pos.2 unitsInOne_pos
  refine ⟨_, denoted?_of_finite (exponentField_ofInt hi), fun y r' hr' ↦ ?_⟩
  obtain ⟨-, rfl⟩ := of_denoted_real hr'
  obtain ⟨hle, heven⟩ := units_ofInt_nearest hi y
  rw [abs_sub_eq, abs_sub_eq, div_left_inj' hpos.ne', Nat.cast_inj]
  refine ⟨div_le_div_of_nonneg_right (Nat.cast_le.2 hle) hpos.le, fun htie hne ↦ heven htie ?_⟩
  rintro heq
  exact hne (by rw [heq])

/-- What a double denotes exactly is rounded to that. -/
theorem IsNearest.denoted?_eq {t : ℝ} {x y : Binary64} (h : IsNearest t x)
    (hy : y.denoted? = some (t : EReal)) : x.denoted? = some (t : EReal) := by
  obtain ⟨r, hr, hnearest⟩ := h
  have hle := (hnearest y t hy).1
  rw [sub_self, abs_zero] at hle
  rwa [← sub_eq_zero.1 (abs_nonpos_iff.1 hle)]

end Binary64
end ListRuntime
