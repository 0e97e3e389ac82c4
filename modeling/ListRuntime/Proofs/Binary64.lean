import ListRuntime.Binary64.Basic
import ListRuntime.Proofs.Index
import Mathlib.Data.EReal.Basic
import Mathlib.Tactic.Ring

/-!
# What doubles denote

A double that is no NaN denotes an extended real number.  This file reads that number off the bits,
as the standard for floating-point arithmetic has it, and proves that the comparisons of doubles,
which never compute it, compare exactly these numbers.

* `Binary64.denoted?` is the number.  All finite doubles are multiples of the least positive one, so
  `Binary64.units` says the same in whole numbers (`denoted?_of_finite`).
* `units_le_iff`: the numbers are ordered as the bits are, the sign apart.
* `equal_iff` and `equalInt_iff` are the two comparisons for equality, with a double and with a
  word.
-/

set_option autoImplicit false

namespace ListRuntime
namespace Binary64

variable {x y : Binary64}

/-! ## Fields -/

theorem fractionField_lt (x : Binary64) : x.fractionField < 2 ^ 52 :=
  Nat.mod_lt _ (Nat.two_pow_pos 52)

theorem exponentField_lt (x : Binary64) : x.exponentField < 2 ^ 11 :=
  Nat.mod_lt _ (Nat.two_pow_pos 11)

theorem unsignedBits_eq_fields (x : Binary64) :
    x.unsignedBits = x.exponentField * 2 ^ 52 + x.fractionField := by
  simp only [unsignedBits, exponentField, fractionField, Nat.pow_eq]
  omega

/-- The sign and the other bits are all there is. -/
theorem toNat_bits (x : Binary64) :
    x.bits.toNat = (if x.negative then 2 ^ 63 else 0) + x.unsignedBits := by
  have hlt := x.bits.toNat_lt
  simp only [negative, unsignedBits, Nat.pow_eq, decide_eq_true_eq]
  split <;> omega

/-- The significand and the scale say the same as the bits below the sign. -/
theorem unsignedBits_eq (x : Binary64) :
    x.unsignedBits = (x.scale - 1) * 2 ^ 52 + x.significand := by
  rw [unsignedBits_eq_fields, scale, significand]
  simp only [Nat.pow_eq]
  split <;> omega

theorem significand_lt (x : Binary64) : x.significand < 2 ^ 53 := by
  have hfraction := x.fractionField_lt
  simp only [significand, Nat.pow_eq]
  split <;> omega

theorem one_le_scale (x : Binary64) : 1 ≤ x.scale := Nat.le_max_left _ _

/-- Only doubles of the least scale lack the leading one. -/
theorem le_significand (h : 1 < x.scale) : 2 ^ 52 ≤ x.significand := by
  simp only [scale] at h
  simp only [significand, Nat.pow_eq]
  split <;> omega

/-! ## Units -/

/-- How many of the least positive double make one. -/
def unitsInOne : Nat := 2 ^ 1074

theorem unitsInOne_pos : 0 < unitsInOne := by
  rw [unitsInOne]
  positivity

theorem unitsInOne_eq {m n : Nat} (h : m + n = 1074) : unitsInOne = 2 ^ m * 2 ^ n := by
  rw [← Nat.pow_add, h, unitsInOne]

/-- How many of the least positive double make a finite double, without the sign. -/
def unsignedUnits (x : Binary64) : Nat := x.significand * 2 ^ (x.scale - 1)

/-- The same with the sign: what a finite double denotes, as a multiple of the least positive
one. -/
def units (x : Binary64) : Int := x.signed x.unsignedUnits

/-- Greater bits stand for more units: a double of a greater scale has the leading one, and thereby
exceeds all doubles of smaller scales. -/
theorem unsignedUnits_lt (h : x.unsignedBits < y.unsignedBits) :
    x.unsignedUnits < y.unsignedUnits := by
  have hsignificand := x.significand_lt
  have hsignificand' := y.significand_lt
  have hscale := x.one_le_scale
  have hscale' := y.one_le_scale
  rw [unsignedBits_eq, unsignedBits_eq] at h
  rw [unsignedUnits, unsignedUnits]
  rcases Nat.lt_trichotomy x.scale y.scale with hlt | heq | hgt
  · have hleading := le_significand (Nat.lt_of_le_of_lt hscale hlt)
    calc x.significand * 2 ^ (x.scale - 1)
        < 2 ^ 53 * 2 ^ (x.scale - 1) :=
          Nat.mul_lt_mul_of_pos_right hsignificand (Nat.two_pow_pos _)
      _ = 2 ^ 52 * 2 ^ x.scale := by
          rw [← Nat.pow_add, ← Nat.pow_add]
          congr 1
          omega
      _ ≤ 2 ^ 52 * 2 ^ (y.scale - 1) :=
          Nat.mul_le_mul_left _ (Nat.pow_le_pow_right Nat.two_pos (by omega))
      _ ≤ y.significand * 2 ^ (y.scale - 1) := Nat.mul_le_mul_right _ hleading
  · rw [heq] at h ⊢
    exact Nat.mul_lt_mul_of_pos_right (by omega) (Nat.two_pow_pos _)
  · have hleading := le_significand (Nat.lt_of_le_of_lt hscale' hgt)
    omega

theorem unsignedUnits_congr (h : x.unsignedBits = y.unsignedBits) :
    x.unsignedUnits = y.unsignedUnits := by
  have hfraction := x.fractionField_lt
  have hfraction' := y.fractionField_lt
  rw [unsignedBits_eq_fields, unsignedBits_eq_fields] at h
  have hexponent : x.exponentField = y.exponentField := by omega
  have hfields : x.fractionField = y.fractionField := by omega
  simp only [unsignedUnits, significand, scale, hexponent, hfields]

theorem unsignedUnits_le_iff : x.unsignedUnits ≤ y.unsignedUnits ↔
    x.unsignedBits ≤ y.unsignedBits := by
  constructor
  · exact fun h ↦ Nat.le_of_not_lt fun hlt ↦ Nat.not_lt.2 h (unsignedUnits_lt hlt)
  · intro h
    rcases Nat.lt_or_eq_of_le h with hlt | heq
    · exact Nat.le_of_lt (unsignedUnits_lt hlt)
    · exact Nat.le_of_eq (unsignedUnits_congr heq)

/-- Without units there are no bits but the sign. -/
theorem unsignedUnits_eq_zero_iff : x.unsignedUnits = 0 ↔ x.unsignedBits = 0 := by
  have hzero : (⟨0⟩ : Binary64).unsignedUnits = 0 ∧ (⟨0⟩ : Binary64).unsignedBits = 0 := by decide
  have hle := unsignedUnits_le_iff (x := x) (y := ⟨0⟩)
  rwa [hzero.1, hzero.2, Nat.le_zero, Nat.le_zero] at hle

/-- **Doubles are ordered as the numbers that they denote.** -/
theorem units_le_iff : x.units ≤ y.units ↔ x.rung ≤ y.rung := by
  have hle := unsignedUnits_le_iff (x := x) (y := y)
  have hge := unsignedUnits_le_iff (x := y) (y := x)
  have hzero := unsignedUnits_eq_zero_iff (x := x)
  have hzero' := unsignedUnits_eq_zero_iff (x := y)
  simp only [units, rung, signed]
  split <;> split <;> omega

theorem units_eq_iff : x.units = y.units ↔ x.rung = y.rung := by
  rw [Int.le_antisymm_iff, Int.le_antisymm_iff, units_le_iff, units_le_iff]

/-! ## Numbers -/

/-- The extended real number that a double denotes.  The greatest exponent is that of the infinities
and of NaN, which denotes nothing; the least one is that of the numbers without a leading one. -/
noncomputable def denoted? (x : Binary64) : Option EReal :=
  let sign : ℝ := if x.negative then -1 else 1
  if x.exponentField = 2047 then
    if x.fractionField = 0 then some (if x.negative then ⊥ else ⊤) else none
  else if x.exponentField = 0 then
    some (sign * (x.fractionField / 2 ^ 52) * 2 ^ (-1022 : ℤ) : ℝ)
  else some (sign * (1 + x.fractionField / 2 ^ 52) * 2 ^ ((x.exponentField : ℤ) - 1023) : ℝ)

theorem denoted?_eq_none_iff : x.denoted? = none ↔ x.isNaN = true := by
  simp only [denoted?, isNaN, Bool.and_eq_true, decide_eq_true_eq]
  split
  · split <;> simp_all
  · split <;> simp_all

/-- What denotes a number is no NaN. -/
theorem isNaN_of_denoted {r : EReal} (h : x.denoted? = some r) : x.isNaN = false := by
  rw [← Bool.not_eq_true, ← denoted?_eq_none_iff, h]
  exact Option.some_ne_none r

/-- All other doubles denote numbers. -/
theorem exists_denoted (h : x.isNaN = false) : ∃ r, x.denoted? = some r := by
  rw [← Option.ne_none_iff_exists', Ne, denoted?_eq_none_iff, h]
  exact Bool.false_ne_true

/-- What a finite double denotes, in units. -/
theorem denoted?_of_finite (h : x.exponentField ≠ 2047) :
    x.denoted? = some ((x.units / unitsInOne : ℝ) : EReal) := by
  have hunits : (x.units : ℝ) =
      (if x.negative then -1 else 1) * (x.significand * 2 ^ (x.scale - 1)) := by
    rw [units, signed, unsignedUnits]
    split <;> push_cast <;> ring
  have hone : (2 : ℝ) ^ (-1022 : ℤ) = 2 ^ 52 / unitsInOne := by
    rw [unitsInOne, Nat.cast_pow, Nat.cast_two, eq_div_iff (by positivity), ← zpow_natCast,
      ← zpow_natCast, ← zpow_add₀ two_ne_zero]
    norm_num
  rw [denoted?, if_neg h]
  split
  · next hzero =>
    have hscale : x.scale = 1 := by rw [scale, hzero]; rfl
    rw [hunits, hone, hscale, significand, if_pos hzero, Nat.sub_self, pow_zero]
    generalize (unitsInOne : ℝ) = unit
    congr 2
    ring
  · next hne =>
    have hscale : x.scale = x.exponentField := Nat.max_eq_right (by omega)
    have hexponent : (2 : ℝ) ^ ((x.exponentField : ℤ) - 1023) =
        2 ^ (x.exponentField - 1) * 2 ^ (-1022 : ℤ) := by
      rw [← zpow_natCast, ← zpow_add₀ two_ne_zero]
      congr 1
      omega
    rw [hunits, hexponent, hone, hscale, significand, if_neg hne, Nat.pow_eq, Nat.cast_add,
      Nat.cast_pow, Nat.cast_two]
    generalize (unitsInOne : ℝ) = unit
    congr 2
    ring

/-! ## Equality of doubles -/

theorem isNaN_of_finite (h : x.exponentField ≠ 2047) : x.isNaN = false := by
  simp [isNaN, h]

theorem isZero_iff : x.isZero = true ↔ x.unsignedBits = 0 := by
  rw [unsignedBits_eq_fields]
  simp only [isZero, Bool.and_eq_true, decide_eq_true_eq]
  omega

/-- No two doubles stand in the same place, the two zeros apart. -/
theorem rung_eq_iff : x.rung = y.rung ↔ x.bits = y.bits ∨ x.isZero = true ∧ y.isZero = true := by
  have hbits := x.toNat_bits
  have hbits' := y.toNat_bits
  rw [isZero_iff, isZero_iff, ← UInt64.toNat_inj]
  simp only [rung, signed]
  have hlt : x.unsignedBits < 2 ^ 63 := Nat.mod_lt _ (Nat.two_pow_pos 63)
  have hlt' : y.unsignedBits < 2 ^ 63 := Nat.mod_lt _ (Nat.two_pow_pos 63)
  split at hbits <;> split at hbits' <;> simp_all <;> omega

/-! ### Infinities -/

theorem denoted?_of_infinite (h : x.exponentField = 2047) (hzero : x.fractionField = 0) :
    x.denoted? = some (if x.negative then ⊥ else ⊤) := by
  rw [denoted?, if_pos h, if_pos hzero]

theorem rung_of_infinite (h : x.exponentField = 2047) (hzero : x.fractionField = 0) :
    x.rung = if x.negative then -(2047 * 2 ^ 52) else 2047 * 2 ^ 52 := by
  rw [rung, signed, unsignedBits_eq_fields, h, hzero]
  rfl

/-- Infinities stand outside all finite doubles. -/
theorem rung_of_finite (h : x.exponentField ≠ 2047) :
    -(2047 * 2 ^ 52) < x.rung ∧ x.rung < 2047 * 2 ^ 52 := by
  have hexponent := x.exponentField_lt
  have hfraction := x.fractionField_lt
  have hfields := x.unsignedBits_eq_fields
  rw [rung, signed]
  split <;> omega

/-- No infinity is a finite double, and neither is what they denote. -/
theorem infinite_ne_finite (h : x.exponentField = 2047) (hzero : x.fractionField = 0)
    (hfinite : y.exponentField ≠ 2047) : x.denoted? ≠ y.denoted? ∧ x.rung ≠ y.rung := by
  have hrung := rung_of_finite hfinite
  rw [denoted?_of_infinite h hzero, denoted?_of_finite hfinite, rung_of_infinite h hzero]
  split
  · exact ⟨fun heq ↦ EReal.coe_ne_bot _ (Option.some.inj heq).symm, by omega⟩
  · exact ⟨fun heq ↦ EReal.coe_ne_top _ (Option.some.inj heq).symm, by omega⟩

/-- A double that is no NaN has no fraction bits set with the greatest exponent. -/
theorem fractionField_eq_zero (h : x.isNaN = false) (hexponent : x.exponentField = 2047) :
    x.fractionField = 0 := by
  simpa [isNaN, hexponent] using h

/-- Doubles denote the same number if they stand in the same place. -/
theorem denoted?_eq_iff (h : x.isNaN = false) (h' : y.isNaN = false) :
    x.denoted? = y.denoted? ↔ x.rung = y.rung := by
  by_cases hx : x.exponentField = 2047 <;> by_cases hy : y.exponentField = 2047
  · have hzero := fractionField_eq_zero h hx
    have hzero' := fractionField_eq_zero h' hy
    rw [denoted?_of_infinite hx hzero, denoted?_of_infinite hy hzero', rung_of_infinite hx hzero,
      rung_of_infinite hy hzero']
    split <;> split <;> simp
  · obtain ⟨hdenoted, hrung⟩ := infinite_ne_finite hx (fractionField_eq_zero h hx) hy
    exact iff_of_false hdenoted hrung
  · obtain ⟨hdenoted, hrung⟩ := infinite_ne_finite hy (fractionField_eq_zero h' hy) hx
    exact iff_of_false hdenoted.symm hrung.symm
  · have hpos : (unitsInOne : ℝ) ≠ 0 := Nat.cast_ne_zero.2 unitsInOne_pos.ne'
    rw [denoted?_of_finite hx, denoted?_of_finite hy, Option.some_inj, EReal.coe_eq_coe_iff,
      div_left_inj' hpos, Int.cast_inj, units_eq_iff]

/-- **Doubles are equal if both denote one number.** -/
theorem equal_iff : x.equal y = true ↔ ∃ r, x.denoted? = some r ∧ y.denoted? = some r := by
  simp only [equal, Bool.and_eq_true, Bool.or_eq_true, Bool.not_eq_true', decide_eq_true_eq,
    ← rung_eq_iff, and_assoc]
  constructor
  · rintro ⟨h, h', hrung⟩
    obtain ⟨r, hr⟩ := exists_denoted h
    exact ⟨r, hr, ((denoted?_eq_iff h h').2 hrung).symm.trans hr⟩
  · rintro ⟨r, hr, hr'⟩
    have h := isNaN_of_denoted hr
    have h' := isNaN_of_denoted hr'
    exact ⟨h, h', (denoted?_eq_iff h h').1 (hr.trans hr'.symm)⟩

/-! ## Equality with words -/

theorem signed_mul (x : Binary64) (m n : Nat) : x.signed (m * n) = x.signed m * n := by
  simp only [signed]
  split <;> push_cast <;> ring

theorem natAbs_signed (x : Binary64) (n : Nat) : (x.signed n).natAbs = n := by
  rw [signed]
  split <;> omega

/-- A whole double is its whole part. -/
theorem units_eq_wholePart (h : x.isWhole = true) : x.units = x.wholePart * unitsInOne := by
  have hscale := x.one_le_scale
  simp only [isWhole, Bool.and_eq_true, Bool.or_eq_true, decide_eq_true_eq, Nat.pow_eq] at h
  simp only [wholePart, units, unsignedUnits, Nat.pow_eq]
  split
  · next hle =>
    have hpow : 2 ^ (x.scale - 1) = 2 ^ (x.scale - 1075) * unitsInOne := by
      rw [unitsInOne, ← Nat.pow_add]
      congr 1
      omega
    rw [← signed_mul, hpow, Nat.mul_assoc]
  · next hlt =>
    have hdiv := Nat.div_mul_cancel (Nat.dvd_of_mod_eq_zero (h.2.resolve_left hlt))
    have hpow : unitsInOne = 2 ^ (1075 - x.scale) * 2 ^ (x.scale - 1) :=
      unitsInOne_eq (by omega)
    rw [← signed_mul, hpow, ← Nat.mul_assoc, hdiv]

/-- A finite double that denotes a whole number is whole. -/
theorem isWhole_of_units (hfinite : x.exponentField ≠ 2047) {i : Int}
    (h : x.units = i * unitsInOne) : x.isWhole = true := by
  have hscale := x.one_le_scale
  have habs : x.unsignedUnits = i.natAbs * unitsInOne := by
    have habs := congrArg Int.natAbs h
    rwa [units, natAbs_signed, Int.natAbs_mul, Int.natAbs_natCast] at habs
  simp only [isWhole, Bool.and_eq_true, Bool.or_eq_true, decide_eq_true_eq, Nat.pow_eq]
  refine ⟨hfinite, ?_⟩
  rcases Nat.lt_or_ge x.scale 1075 with hlt | hge
  · have hpow : unitsInOne = 2 ^ (1075 - x.scale) * 2 ^ (x.scale - 1) :=
      unitsInOne_eq (by omega)
    rw [unsignedUnits, hpow, ← Nat.mul_assoc] at habs
    refine Or.inr (Nat.mod_eq_zero_of_dvd ⟨i.natAbs, ?_⟩)
    rw [Nat.mul_comm]
    exact Nat.eq_of_mul_eq_mul_right (Nat.two_pow_pos _) habs
  · exact Or.inl hge

/-- The two bounds of the range of words, in units. -/
theorem units_bounds :
    (ofInt (-9223372036854775808)).units = -9223372036854775808 * unitsInOne ∧
      (ofInt 9223372036854775808).units = 9223372036854775808 * unitsInOne := by
  decide +kernel

/-- The bounds are doubles, and the test for the range between them is exact. -/
theorem inRange_iff (hfinite : x.exponentField ≠ 2047) :
    ((ofInt (-9223372036854775808)).le x && x.lt (ofInt 9223372036854775808)) = true ↔
      -9223372036854775808 * (unitsInOne : Int) ≤ x.units ∧
        x.units < 9223372036854775808 * unitsInOne := by
  have hnumbers : (ofInt (-9223372036854775808)).isNaN = false ∧
      (ofInt 9223372036854775808).isNaN = false := by decide +kernel
  have hlower : -9223372036854775808 * (unitsInOne : Int) ≤ x.units ↔
      (ofInt (-9223372036854775808)).rung ≤ x.rung := by
    rw [← units_le_iff, units_bounds.1]
  have hupper : x.units < 9223372036854775808 * unitsInOne ↔
      x.rung < (ofInt 9223372036854775808).rung := by
    rw [← Int.not_le, ← Int.not_le, ← units_le_iff, units_bounds.2]
  rw [hlower, hupper, le, lt, isNaN_of_finite hfinite, hnumbers.1, hnumbers.2]
  simp

/-- In the range of words the cast of a finite double is its whole part. -/
theorem toInt_toInt64 (hfinite : x.exponentField ≠ 2047) (h : FitsWord x.wholePart) :
    x.toInt64.toInt = x.wholePart := by
  have hinfinite : x.isInfinite = false := by simp [isInfinite, hfinite]
  rw [toInt64, isNaN_of_finite hfinite, hinfinite]
  exact Int64.toInt_ofIntClamp h.1 (Int.le_sub_one_of_lt h.2)

/-- What the comparison of a double with a word comes to, in units. -/
theorem equalInt_iff_units (hfinite : x.exponentField ≠ 2047) {i : Int} (hi : FitsWord i) :
    x.equalInt i = true ↔ x.units = i * unitsInOne := by
  have hpos : (0 : Int) < unitsInOne := Int.natCast_pos.2 unitsInOne_pos
  rw [equalInt, Bool.and_assoc, Bool.and_assoc, ← Bool.and_assoc (le _ _), Bool.and_eq_true,
    Bool.and_eq_true, inRange_iff hfinite, decide_eq_true_iff]
  constructor
  · rintro ⟨hwhole, ⟨hlower, hupper⟩, hcast⟩
    have hunits := units_eq_wholePart hwhole
    rw [hunits] at hlower hupper
    have hfits : FitsWord x.wholePart :=
      ⟨Int.le_of_mul_le_mul_right hlower hpos, Int.lt_of_mul_lt_mul_right hupper hpos.le⟩
    rw [hunits, ← hcast, toInt_toInt64 hfinite hfits]
  · intro h
    have hwhole := isWhole_of_units hfinite h
    have hpart : x.wholePart = i := by
      rw [units_eq_wholePart hwhole] at h
      exact Int.eq_of_mul_eq_mul_right hpos.ne' h
    refine ⟨hwhole, ⟨?_, ?_⟩, ?_⟩
    · rw [h]
      exact Int.mul_le_mul_of_nonneg_right hi.1 hpos.le
    · rw [h]
      exact Int.mul_lt_mul_of_pos_right hi.2 hpos
    · rw [toInt_toInt64 hfinite (hpart.symm ▸ hi), hpart]

/-- **A double is equal to a word if it denotes the same number**: neither a fractional part, nor
the range, nor the cast makes a difference. -/
theorem equalInt_iff {i : Int} (hi : FitsWord i) :
    x.equalInt i = true ↔ x.denoted? = some ((i : ℝ) : EReal) := by
  by_cases hfinite : x.exponentField = 2047
  · have hwhole : x.isWhole = false := by simp [isWhole, hfinite]
    have hequal : x.equalInt i = false := by simp [equalInt, hwhole]
    rw [hequal, denoted?, if_pos hfinite]
    refine iff_of_false Bool.false_ne_true ?_
    split
    · split
      · exact fun heq ↦ EReal.coe_ne_bot _ (Option.some.inj heq).symm
      · exact fun heq ↦ EReal.coe_ne_top _ (Option.some.inj heq).symm
    · exact fun heq ↦ Option.some_ne_none _ heq.symm
  · have hpos : (unitsInOne : ℝ) ≠ 0 := Nat.cast_ne_zero.2 unitsInOne_pos.ne'
    rw [equalInt_iff_units hfinite hi, denoted?_of_finite hfinite, Option.some_inj,
      EReal.coe_eq_coe_iff, div_eq_iff hpos]
    norm_cast

end Binary64
end ListRuntime
