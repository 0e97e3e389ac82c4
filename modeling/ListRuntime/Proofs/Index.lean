import ListRuntime.Index

/-!
# Positions without overflow

Positions are computed in 64-bit arithmetic.  For lists that can exist, which are no longer than the
greatest signed word, nothing overflows, so the rules of `ListRuntime.Index` are the ones that are
written down over unbounded integers.

* `toInt_add`, `toInt_sub` and `toInt_mul` compute in 64 bits what fits into them.
* `resolveIndex_eq` and `clampPosition_eq` are the two rules over the integers.
-/

set_option autoImplicit false

namespace ListRuntime

/-! ## Words -/

/-- The integers that a signed word holds. -/
def FitsWord (i : Int) : Prop := -9223372036854775808 ≤ i ∧ i < 9223372036854775808

theorem fitsWord_toInt (i : Int64) : FitsWord i.toInt := ⟨i.le_toInt, i.toInt_lt⟩

theorem FitsWord.bmod {i : Int} (h : FitsWord i) : i.bmod 18446744073709551616 = i := by
  have hlo := h.1
  have hhi := h.2
  exact Int.bmod_eq_of_le (by omega) (by omega)

theorem toInt_add {i j : Int64} (h : FitsWord (i.toInt + j.toInt)) :
    (i + j).toInt = i.toInt + j.toInt := by
  rw [Int64.toInt_add]
  exact h.bmod

theorem toInt_sub {i j : Int64} (h : FitsWord (i.toInt - j.toInt)) :
    (i - j).toInt = i.toInt - j.toInt := by
  rw [Int64.toInt_sub]
  exact h.bmod

theorem toInt_mul {i j : Int64} (h : FitsWord (i.toInt * j.toInt)) :
    (i * j).toInt = i.toInt * j.toInt := by
  rw [Int64.toInt_mul]
  exact h.bmod

theorem toInt_max (i j : Int64) : (max i j).toInt = max i.toInt j.toInt := by
  change (if i ≤ j then j else i).toInt = max i.toInt j.toInt
  split
  · next h => exact (Int.max_eq_right (Int64.le_iff_toInt_le.1 h)).symm
  · next h => exact (Int.max_eq_left (by rw [Int64.le_iff_toInt_le] at h; omega)).symm

theorem toInt_min (i j : Int64) : (min i j).toInt = min i.toInt j.toInt := by
  change (if i ≤ j then i else j).toInt = min i.toInt j.toInt
  split
  · next h => exact (Int.min_eq_left (Int64.le_iff_toInt_le.1 h)).symm
  · next h => exact (Int.min_eq_right (by rw [Int64.le_iff_toInt_le] at h; omega)).symm

theorem toInt_ofNat {n : Nat} (h : n ≤ maxObjectBytes) : (Int64.ofNat n).toInt = n :=
  Int64.toInt_ofNat_of_lt (Nat.lt_of_le_of_lt h (by decide))

theorem lt_zero_iff (i : Int64) : i < 0 ↔ i.toInt < 0 := Int64.lt_iff_toInt_lt

theorem zero_lt_iff (i : Int64) : 0 < i ↔ 0 < i.toInt := Int64.lt_iff_toInt_lt

theorem zero_le_iff (i : Int64) : 0 ≤ i ↔ 0 ≤ i.toInt := Int64.le_iff_toInt_le

theorem eq_zero_iff (i : Int64) : i = 0 ↔ i.toInt = 0 := Int64.toInt_inj.symm

/-- The bound of lengths as a numeral, for arithmetic. -/
theorem maxObjectBytes_eq : maxObjectBytes = 9223372036854775807 := rfl

/-! ## The length and the two rules -/

variable {length : Nat}

theorem toInt_signedLength (h : length ≤ maxObjectBytes) :
    (signedLength length).toInt = length := by
  rw [signedLength, Nat.min_eq_left h, toInt_ofNat h]

/-- An index names a position if, counted from the end when it is negative, it lies in the list. -/
theorem resolveIndex_eq (index : Int64) (h : length ≤ maxObjectBytes) :
    resolveIndex index length =
      let position := if index.toInt < 0 then index.toInt + length else index.toInt
      if 0 ≤ position ∧ position < length then some position.toNat else none := by
  have hindex := fitsWord_toInt index
  rw [maxObjectBytes_eq] at h
  by_cases hneg : index.toInt < 0
  · have hsum : (index + signedLength length).toInt = index.toInt + length := by
      rw [toInt_add, toInt_signedLength h]
      rw [toInt_signedLength h]
      exact ⟨by have := hindex.1; omega, by omega⟩
    simp only [resolveIndex, lt_zero_iff, if_pos hneg, zero_le_iff, Int64.toNatClampNeg, hsum]
    congr 1
    exact propext ⟨by omega, by omega⟩
  · simp only [resolveIndex, lt_zero_iff, if_neg hneg, zero_le_iff, Int64.toNatClampNeg]
    congr 1
    exact propext ⟨by omega, by omega⟩

/-- A position to insert at is counted from the end when it is negative, and moved into the list. -/
theorem clampPosition_eq (position : Int64) (h : length ≤ maxObjectBytes) :
    clampPosition position length =
      (if position.toInt < 0 then max (position.toInt + length) 0
      else min position.toInt length).toNat := by
  have hposition := fitsWord_toInt position
  rw [maxObjectBytes_eq] at h
  by_cases hneg : position.toInt < 0
  · have hsum : (position + signedLength length).toInt = position.toInt + length := by
      rw [toInt_add, toInt_signedLength h]
      rw [toInt_signedLength h]
      exact ⟨by have := hposition.1; omega, by omega⟩
    simp only [clampPosition, lt_zero_iff, if_pos hneg, Int64.toNatClampNeg, toInt_max, hsum]
    rfl
  · simp only [clampPosition, lt_zero_iff, if_neg hneg, Int64.toNatClampNeg, toInt_min,
      toInt_signedLength h]

/-- A position is moved into the list, however long that is. -/
theorem clampPosition_le (position : Int64) (length : Nat) :
    clampPosition position length ≤ length := by
  have hposition := fitsWord_toInt position
  have hsigned : (signedLength length).toInt = (min length maxObjectBytes : Nat) :=
    toInt_ofNat (Nat.min_le_right _ _)
  rw [maxObjectBytes_eq] at hsigned
  by_cases hneg : position.toInt < 0
  · have hsum : (position + signedLength length).toInt =
        position.toInt + (signedLength length).toInt :=
      toInt_add (by rw [hsigned]; exact ⟨by have := hposition.1; omega, by omega⟩)
    simp only [clampPosition, lt_zero_iff, if_pos hneg, Int64.toNatClampNeg, toInt_max, hsum,
      hsigned, Int64.toInt_zero]
    omega
  · simp only [clampPosition, lt_zero_iff, if_neg hneg, Int64.toNatClampNeg, toInt_min, hsigned]
    omega

theorem lt_of_resolveIndex {index : Int64} {position : Nat}
    (h : resolveIndex index length = some position) : position < length := by
  simp only [resolveIndex, Option.ite_none_right_eq_some, Option.some.injEq] at h
  exact h.2 ▸ h.1.2

end ListRuntime
