import ListRuntime.Proofs.Index
import ListRuntime.Slice
import Mathlib.Data.List.Range

/-!
# What a slice selects

The language defines the positions of a slice in two steps: its bounds are clamped to the list, and
then a range is walked from one to the other.  Both are about unbounded integers.  This file states
them so and proves that a slice resolves to exactly these positions.

* `rangeWalk` is a walk, `Slice.walk` the one that a slice stands for, and `Slice.walked` are the
  positions that it visits.
* `Slice.resolve_eq_error_iff` and `Slice.walk_of_resolve` are the two outcomes of resolving.
* `Selection.Inside` is what a resolved slice satisfies; its positions lie in the list
  (`Inside.position_lt`), and the test for one of them is right (`Inside.selects_iff`).
-/

set_option autoImplicit false

namespace ListRuntime

/-! ## Walking a range -/

/-- Walk from `i` by `step` until `stop` is reached or passed. -/
def rangeWalk (step stop i : Int) : List Int :=
  if 0 < step ∧ i < stop ∨ step < 0 ∧ stop < i then i :: rangeWalk step stop (i + step) else []
termination_by (if 0 < step then stop - i else i - stop).toNat
decreasing_by split <;> omega

/-- The distance from `i` to `stop` in the direction of the step. -/
def spanFrom (step stop i : Int) : Int := if step < 0 then i - stop else stop - i

theorem stepsWithin_eq_succ {span stride : Nat} (hspan : 0 < span) (hstride : 0 < stride) :
    stepsWithin span stride = stepsWithin (span - stride) stride + 1 := by
  rw [stepsWithin, if_neg (by omega), stepsWithin]
  split
  · next h => rw [Nat.div_eq_of_lt (by omega)]
  · next h =>
    have hsub : span - 1 - stride = span - stride - 1 := by omega
    rw [Nat.div_eq_sub_div hstride (by omega), hsub]

/-- The last of the steps within a span starts inside it. -/
theorem mul_lt_of_lt_stepsWithin {span stride k : Nat} (hk : k < stepsWithin span stride) :
    k * stride < span := by
  rw [stepsWithin] at hk
  split at hk
  · omega
  · next h =>
    have hle : k * stride ≤ span - 1 :=
      (Nat.mul_le_mul_right stride (Nat.le_of_lt_succ hk)).trans (Nat.div_mul_le_self _ _)
    omega

/-- Steps of length one start everywhere. -/
theorem stepsWithin_one (span : Nat) : stepsWithin span 1 = span := by
  rw [stepsWithin]
  split
  · omega
  · rw [Nat.div_one]
    omega

theorem stepsWithin_le (span stride : Nat) : stepsWithin span stride ≤ span := by
  rw [stepsWithin]
  split
  · omega
  · have := Nat.div_le_self (span - 1) stride
    omega

/-- A walk makes its steps one by one, as many as start within its span. -/
theorem rangeWalk_eq_map {step : Int} (hstep : step ≠ 0) (stop i : Int) :
    rangeWalk step stop i =
      (List.range (stepsWithin (spanFrom step stop i).toNat step.natAbs)).map fun k : Nat ↦
        i + k * step := by
  rw [rangeWalk]
  split
  · next h =>
    have hspan : 0 < (spanFrom step stop i).toNat := by
      rw [spanFrom]
      split <;> omega
    have hnext : (spanFrom step stop (i + step)).toNat =
        (spanFrom step stop i).toNat - step.natAbs := by
      simp only [spanFrom]
      split <;> omega
    rw [rangeWalk_eq_map hstep, hnext, stepsWithin_eq_succ hspan (by omega),
      List.range_succ_eq_map, List.map_cons, List.map_map]
    refine congrArg₂ List.cons (by simp) (List.map_congr_left fun k _ ↦ ?_)
    simp only [Function.comp_apply, Nat.succ_eq_add_one, Int.natCast_add, Int.add_mul]
    omega
  · next h =>
    have hspan : (spanFrom step stop i).toNat = 0 := by
      rw [spanFrom]
      split <;> omega
    rw [hspan]
    rfl
termination_by (if 0 < step then stop - i else i - stop).toNat
decreasing_by split <;> omega

/-! ## The positions of a slice -/

namespace Slice

variable (slice : Slice) (length : Nat)

/-- The distance from one selected position to the next. -/
def stride : Int := (slice.step.map Int64.toInt).getD 1

/-- The least bound: walking down, a walk may stop before the first position. -/
def lower : Int := if slice.stride < 0 then -1 else 0

/-- The greatest bound: walking down, a walk starts at the last position. -/
def upper : Int := if slice.stride < 0 then length - 1 else length

/-- A bound, counted from the end when it is negative, and moved between the least bound and the
greatest. -/
def clamped (bound : Int64) : Int :=
  max slice.lower (min (slice.upper length)
    (if bound.toInt < 0 then bound.toInt + length else bound.toInt))

/-- Where the walk starts. -/
def first : Int :=
  (slice.start.map (slice.clamped length)).getD
    (if slice.stride < 0 then slice.upper length else slice.lower)

/-- Where the walk stops. -/
def last : Int :=
  (slice.stop.map (slice.clamped length)).getD
    (if slice.stride < 0 then slice.lower else slice.upper length)

/-- The walk over unbounded integers that the slice stands for, from one clamped bound to the
other. -/
def walk : List Int := rangeWalk slice.stride (slice.last length) (slice.first length)

/-- The positions that the slice selects, in the order of the walk. -/
def walked : List Nat :=
  (rangeWalk slice.stride (slice.last length) (slice.first length)).map Int.toNat

theorem lower_le_upper : slice.lower ≤ slice.upper length := by
  simp only [lower, upper]
  split <;> omega

/-- A clamped bound lies between the least and the greatest one. -/
theorem clamped_mem (bound : Int64) :
    slice.lower ≤ slice.clamped length bound ∧ slice.clamped length bound ≤ slice.upper length := by
  have := slice.lower_le_upper length
  rw [clamped]
  omega

theorem first_mem : slice.lower ≤ slice.first length ∧ slice.first length ≤ slice.upper length := by
  have := slice.lower_le_upper length
  rw [first]
  cases slice.start with
  | none =>
    simp only [Option.map_none, Option.getD_none]
    split <;> omega
  | some bound => exact slice.clamped_mem length bound

theorem last_mem : slice.lower ≤ slice.last length ∧ slice.last length ≤ slice.upper length := by
  have := slice.lower_le_upper length
  rw [last]
  cases slice.stop with
  | none =>
    simp only [Option.map_none, Option.getD_none]
    split <;> omega
  | some bound => exact slice.clamped_mem length bound

/-! ## Resolving -/

variable {slice length}

theorem stride_eq : slice.stride = (slice.step.getD 1).toInt := by
  rw [stride]
  cases slice.step <;> rfl

/-- The clamped bounds, computed in words. -/
theorem toInt_clamp (h : length ≤ maxObjectBytes) {lower upper : Int64}
    (hlower : lower.toInt = slice.lower) (hupper : upper.toInt = slice.upper length)
    (bound : Int64) :
    (if bound < 0 then max (bound + signedLength length) lower else min bound upper).toInt =
      slice.clamped length bound := by
  have hbound := fitsWord_toInt bound
  have hrange : slice.lower ≤ slice.upper length ∧ slice.lower ≤ 0 ∧
      (length : Int) - 1 ≤ slice.upper length := by
    simp only [Slice.lower, Slice.upper]
    split <;> omega
  rw [maxObjectBytes_eq] at h
  simp only [clamped, lt_zero_iff]
  split
  · next hneg =>
    have hsum : (bound + signedLength length).toInt = bound.toInt + length := by
      rw [toInt_add, toInt_signedLength h]
      rw [toInt_signedLength h]
      exact ⟨by have := hbound.1; omega, by omega⟩
    rw [toInt_max, hsum, hlower]
    omega
  · next hneg =>
    rw [toInt_min, hupper]
    omega

/-- A bound that may be left out, computed in words. -/
theorem toInt_getD {clamp : Int64 → Int64} (hclamp : ∀ b, (clamp b).toInt = slice.clamped length b)
    {default : Int64} {omitted : Int} (hdefault : default.toInt = omitted) (bound : Option Int64) :
    ((bound.map clamp).getD default).toInt =
      (bound.map (slice.clamped length)).getD omitted := by
  cases bound with
  | none => exact hdefault
  | some b => exact hclamp b

/-- Resolving fails for a step of zero and for nothing else. -/
theorem resolve_eq_error_iff {e : ListError} :
    slice.resolve length = .error e ↔ slice.stride = 0 ∧ e = .zeroStep := by
  rw [stride_eq, ← eq_zero_iff, resolve]
  split
  · next h => simp [h, eq_comm]
  · next h => simp [h]

/-- Any other step is one that a slice resolves with. -/
theorem exists_resolve (h : slice.stride ≠ 0) (length : Nat) :
    ∃ selection, slice.resolve length = .ok selection := by
  cases hresolve : slice.resolve length with
  | error e => exact absurd (resolve_eq_error_iff.1 hresolve).1 h
  | ok selection => exact ⟨selection, rfl⟩

/-- The distance between the bounds, computed in words. -/
theorem toInt_span (h : length ≤ maxObjectBytes) {start stop : Int64}
    (hstart : start.toInt = slice.first length) (hstop : stop.toInt = slice.last length) :
    (if slice.step.getD 1 < 0 then start - stop else stop - start).toInt =
      spanFrom slice.stride (slice.last length) (slice.first length) := by
  have hfirst := slice.first_mem length
  have hlast := slice.last_mem length
  have hrange : -1 ≤ slice.lower ∧ slice.upper length ≤ slice.lower + length := by
    simp only [Slice.lower, Slice.upper]
    split <;> omega
  rw [maxObjectBytes_eq] at h
  simp only [spanFrom, ← hstart, ← hstop, stride_eq, lt_zero_iff]
  split
  · exact toInt_sub ⟨by omega, by omega⟩
  · exact toInt_sub ⟨by omega, by omega⟩

/-- A resolved slice has the bounds, the step and the number of positions of the walk. -/
theorem of_resolve (h : length ≤ maxObjectBytes) {selection : Selection}
    (hresolve : slice.resolve length = .ok selection) :
    selection.start.toInt = slice.first length ∧ selection.stop.toInt = slice.last length ∧
      selection.step.toInt = slice.stride ∧
      selection.count = stepsWithin (spanFrom slice.stride (slice.last length)
        (slice.first length)).toNat slice.stride.natAbs := by
  have hdown : slice.step.getD 1 < 0 ↔ slice.stride < 0 := by rw [stride_eq, lt_zero_iff]
  have hlower : (if slice.step.getD 1 < 0 then (-1 : Int64) else 0).toInt = slice.lower := by
    simp only [lower, ← hdown]
    exact apply_ite Int64.toInt ..
  have hupper : (if slice.step.getD 1 < 0 then signedLength length - 1
      else signedLength length).toInt = slice.upper length := by
    have hpred : (signedLength length - 1).toInt = length - 1 := by
      rw [toInt_sub, toInt_signedLength h, Int64.toInt_one]
      rw [toInt_signedLength h, Int64.toInt_one]
      rw [maxObjectBytes_eq] at h
      exact ⟨by omega, by omega⟩
    simp only [upper, ← hdown]
    rw [apply_ite Int64.toInt, hpred, toInt_signedLength h]
  have hdefault {one two : Int64} {i j : Int} (hone : one.toInt = i) (htwo : two.toInt = j) :
      (if slice.step.getD 1 < 0 then one else two).toInt = if slice.stride < 0 then i else j := by
    simp only [← hdown, apply_ite Int64.toInt, hone, htwo]
  have hclamp := toInt_clamp h hlower hupper
  have hstart := toInt_getD hclamp (hdefault hupper hlower) slice.start
  have hstop := toInt_getD hclamp (hdefault hlower hupper) slice.stop
  rw [resolve] at hresolve
  split at hresolve
  · cases hresolve
  · next hstep =>
    cases hresolve
    refine ⟨hstart, hstop, stride_eq.symm, congrArg₂ stepsWithin ?_ ?_⟩
    · exact congrArg Int.toNat (toInt_span h hstart hstop)
    · exact congrArg Int.natAbs stride_eq.symm

end Slice

/-! ## The positions of a selection -/

namespace Selection

/-- What a slice resolved against a list satisfies: its bounds are positions of the list, or just
outside it, and it selects as many positions as steps start between them. -/
structure Inside (selection : Selection) (length : Nat) : Prop where
  /-- The list can exist. -/
  length_le : length ≤ maxObjectBytes
  /-- A walk goes somewhere. -/
  step_ne : selection.step.toInt ≠ 0
  /-- A walk starts in the list or just outside it. -/
  start_mem : -1 ≤ selection.start.toInt ∧ selection.start.toInt ≤ length
  /-- Walking up, all up to the bound may be positions. -/
  up : 0 < selection.step.toInt → 0 ≤ selection.start.toInt ∧ selection.stop.toInt ≤ length
  /-- Walking down, all down to the bound may be positions. -/
  down : selection.step.toInt < 0 → selection.start.toInt < length ∧ -1 ≤ selection.stop.toInt
  /-- A step is counted if it starts between the bounds. -/
  count_eq : selection.count = stepsWithin
    (spanFrom selection.step.toInt selection.stop.toInt selection.start.toInt).toNat
    selection.step.toInt.natAbs

variable {selection : Selection} {length : Nat}

theorem length_positions (selection : Selection) :
    selection.positions.length = selection.count := by
  rw [positions, List.length_map, List.length_range]

theorem isContiguous_iff : selection.isContiguous = true ↔ selection.step.toInt = 1 := by
  rw [isContiguous, decide_eq_true_iff, ← Int64.toInt_inj]
  rfl

/-- The exact distance of a selected position from the first one. -/
theorem Inside.offset (h : selection.Inside length) {k : Nat} (hk : k < selection.count) :
    0 ≤ selection.start.toInt + k * selection.step.toInt ∧
      selection.start.toInt + k * selection.step.toInt < length ∧
      -(length : Int) < k * selection.step.toInt ∧ k * selection.step.toInt < length := by
  have hsteps : k * selection.step.toInt.natAbs <
      (spanFrom selection.step.toInt selection.stop.toInt selection.start.toInt).toNat :=
    mul_lt_of_lt_stepsWithin (h.count_eq ▸ hk)
  rcases Int.lt_or_gt_of_ne h.step_ne with hneg | hpos
  · obtain ⟨hstart, hstop⟩ := h.down hneg
    have habs : ((k * selection.step.toInt.natAbs : Nat) : Int) = -(k * selection.step.toInt) := by
      rw [Int.natCast_mul, Int.ofNat_natAbs_of_nonpos (by omega), Int.mul_neg]
    rw [spanFrom, if_pos hneg] at hsteps
    omega
  · obtain ⟨hstart, hstop⟩ := h.up hpos
    have habs : ((k * selection.step.toInt.natAbs : Nat) : Int) = k * selection.step.toInt := by
      rw [Int.natCast_mul, Int.natAbs_of_nonneg (by omega)]
    rw [spanFrom, if_neg (by omega)] at hsteps
    omega

theorem Inside.count_le (h : selection.Inside length) : selection.count ≤ length := by
  have hsteps := stepsWithin_le
    (spanFrom selection.step.toInt selection.stop.toInt selection.start.toInt).toNat
    selection.step.toInt.natAbs
  rw [← h.count_eq] at hsteps
  rcases Int.lt_or_gt_of_ne h.step_ne with hneg | hpos
  · have := h.down hneg
    rw [spanFrom, if_pos hneg] at hsteps
    omega
  · have := h.up hpos
    rw [spanFrom, if_neg (by omega)] at hsteps
    omega

/-- A selected position, computed in words. -/
theorem Inside.position_eq (h : selection.Inside length) {k : Nat} (hk : k < selection.count) :
    (selection.position k : Int) = selection.start.toInt + k * selection.step.toInt := by
  have hoffset := h.offset hk
  have hlength := h.length_le
  have hcount := h.count_le
  have hkword : (Int64.ofNat k).toInt = k := toInt_ofNat (by omega)
  rw [maxObjectBytes_eq] at hlength
  have hmul : (Int64.ofNat k * selection.step).toInt = k * selection.step.toInt := by
    rw [toInt_mul, hkword]
    rw [hkword]
    exact ⟨by omega, by omega⟩
  have hadd : (selection.start + Int64.ofNat k * selection.step).toInt =
      selection.start.toInt + k * selection.step.toInt := by
    rw [toInt_add, hmul]
    rw [hmul]
    exact ⟨by omega, by omega⟩
  rw [position, Int64.toNatClampNeg, hadd]
  omega

theorem Inside.position_lt (h : selection.Inside length) {k : Nat} (hk : k < selection.count) :
    selection.position k < length := by
  have heq := h.position_eq hk
  have hoffset := h.offset hk
  omega

/-- All selected positions are positions of the list. -/
theorem Inside.lt_of_mem_positions (h : selection.Inside length) {position : Nat}
    (hmem : position ∈ selection.positions) : position < length := by
  obtain ⟨k, hk, rfl⟩ := List.mem_map.1 hmem
  exact h.position_lt (List.mem_range.1 hk)

/-! ## Walking upwards -/

/-- Walking up, the `k`-th position is `k` steps after the first. -/
theorem Inside.position_up (h : selection.Inside length) (hup : 0 < selection.step.toInt) {k : Nat}
    (hk : k < selection.count) :
    selection.position k = selection.position 0 + k * magnitude selection.step := by
  have hfirst := h.position_eq (Nat.lt_of_le_of_lt (Nat.zero_le k) hk)
  have hposition := h.position_eq hk
  have habs : ((k * magnitude selection.step : Nat) : Int) = k * selection.step.toInt := by
    rw [magnitude, Int.natCast_mul, Int.natAbs_of_nonneg (by omega)]
  omega

/-- Walking down, it is as many steps after the last as there are positions behind it. -/
theorem Inside.position_down (h : selection.Inside length) (hdown : selection.step.toInt < 0)
    {k : Nat} (hk : k < selection.count) : selection.position k =
      selection.position (selection.count - 1) +
        (selection.count - 1 - k) * magnitude selection.step := by
  have hlast := h.position_eq (k := selection.count - 1) (by omega)
  have hposition := h.position_eq hk
  have habs (j : Nat) : ((j * magnitude selection.step : Nat) : Int) =
      -(j * selection.step.toInt) := by
    rw [magnitude, Int.natCast_mul, Int.ofNat_natAbs_of_nonpos (by omega), Int.mul_neg]
  have hk' := habs k
  have hlast' := habs (selection.count - 1)
  have hle : k * magnitude selection.step ≤ (selection.count - 1) * magnitude selection.step :=
    Nat.mul_le_mul_right _ (by omega)
  rw [Nat.sub_mul]
  omega

/-- The walk begins where it starts, even if it goes nowhere. -/
theorem position_zero (selection : Selection) :
    selection.position 0 = selection.start.toNatClampNeg := by
  have hfirst : selection.start + Int64.ofNat 0 * selection.step = selection.start := by simp
  rw [position, hfirst]

/-- Contiguous positions are those from the first on. -/
theorem Inside.positions_eq_range' (h : selection.Inside length)
    (hcontiguous : selection.isContiguous = true) :
    selection.positions = List.range' (selection.position 0) selection.count := by
  rw [isContiguous_iff] at hcontiguous
  rw [positions, List.range'_eq_map_range]
  refine List.map_congr_left fun k hk ↦ ?_
  rw [h.position_up (by omega) (List.mem_range.1 hk), magnitude, hcontiguous]
  exact congrArg _ (Nat.mul_one k)

theorem Inside.mem_positions_iff (h : selection.Inside length)
    (hcontiguous : selection.isContiguous = true) (position : Nat) :
    position ∈ selection.positions ↔
      selection.position 0 ≤ position ∧ position < selection.position 0 + selection.count := by
  rw [h.positions_eq_range' hcontiguous, List.mem_range'_1]

/-- A position is selected if it is a number of steps after the least one. -/
theorem selects_iff_exists (hstride : 0 < selection.ascending.2) {position : Nat} :
    selection.selects position = true ↔
      ∃ k < selection.count, position = selection.ascending.1 + k * selection.ascending.2 := by
  simp only [selects, Bool.and_eq_true, decide_eq_true_eq]
  constructor
  · rintro ⟨⟨hle, hmod⟩, hdiv⟩
    refine ⟨_, hdiv, ?_⟩
    have := Nat.div_mul_cancel (Nat.dvd_of_mod_eq_zero hmod)
    omega
  · rintro ⟨k, hk, rfl⟩
    rw [Nat.add_sub_cancel_left, Nat.mul_mod_left, Nat.mul_div_cancel _ hstride]
    exact ⟨⟨Nat.le_add_right _ _, rfl⟩, hk⟩

/-- **The test for a selected position is right**, whichever way the walk goes. -/
theorem Inside.selects_iff (h : selection.Inside length) {position : Nat} :
    selection.selects position = true ↔ position ∈ selection.positions := by
  by_cases hcount : selection.count = 0
  · have hascending : selection.ascending = (0, 1) := if_pos hcount
    rw [selects_iff_exists (by rw [hascending]; decide), positions, hcount]
    simp
  · have hmagnitude : 0 < magnitude selection.step := Int.natAbs_pos.2 h.step_ne
    rcases Int.lt_or_gt_of_ne h.step_ne with hdown | hup
    · have hascending : selection.ascending =
          (selection.position (selection.count - 1), magnitude selection.step) := by
        rw [ascending, if_neg hcount, if_neg (by rw [zero_lt_iff]; omega)]
      rw [selects_iff_exists (by rw [hascending]; exact hmagnitude), hascending, positions,
        List.mem_map]
      constructor
      · rintro ⟨k, hk, rfl⟩
        refine ⟨selection.count - 1 - k, List.mem_range.2 (by omega), ?_⟩
        rw [h.position_down hdown (by omega), Nat.sub_sub_self (by omega)]
      · rintro ⟨k, hk, rfl⟩
        exact ⟨selection.count - 1 - k, by omega, h.position_down hdown (List.mem_range.1 hk)⟩
    · have hascending : selection.ascending =
          (selection.position 0, magnitude selection.step) := by
        rw [ascending, if_neg hcount, if_pos ((zero_lt_iff _).2 hup)]
      rw [selects_iff_exists (by rw [hascending]; exact hmagnitude), hascending, positions,
        List.mem_map]
      constructor
      · rintro ⟨k, hk, rfl⟩
        exact ⟨k, List.mem_range.2 hk, h.position_up hup hk⟩
      · rintro ⟨k, hk, rfl⟩
        exact ⟨k, List.mem_range.1 hk, h.position_up hup (List.mem_range.1 hk)⟩

end Selection

namespace Slice

variable {slice : Slice} {length : Nat} {selection : Selection}

/-- A slice that resolves does not have a step of zero. -/
theorem stride_ne_of_resolve (hresolve : slice.resolve length = .ok selection) :
    slice.stride ≠ 0 := by
  intro hzero
  rw [resolve_eq_error_iff.2 ⟨hzero, rfl⟩] at hresolve
  cases hresolve

theorem inside_of_resolve (h : length ≤ maxObjectBytes)
    (hresolve : slice.resolve length = .ok selection) : selection.Inside length := by
  obtain ⟨hstart, hstop, hstep, hcount⟩ := of_resolve h hresolve
  have hfirst := slice.first_mem length
  have hlast := slice.last_mem length
  have hne := stride_ne_of_resolve hresolve
  simp only [Slice.lower, Slice.upper] at hfirst hlast
  refine ⟨h, hstep ▸ hne, ?_, fun hpos ↦ ?_, fun hneg ↦ ?_, by rw [hcount, hstart, hstop, hstep]⟩
  · rw [hstart]
    split at hfirst <;> omega
  · have hup : ¬ slice.stride < 0 := by omega
    rw [if_neg hup, if_neg hup] at hfirst hlast
    omega
  · have hdown : slice.stride < 0 := by omega
    rw [if_pos hdown, if_pos hdown] at hfirst hlast
    omega

/-- It is contiguous if its step is one. -/
theorem isContiguous_iff (h : length ≤ maxObjectBytes)
    (hresolve : slice.resolve length = .ok selection) :
    selection.isContiguous = true ↔ slice.stride = 1 := by
  obtain ⟨-, -, hstep, -⟩ := of_resolve h hresolve
  rw [Selection.isContiguous_iff, hstep]

/-- A contiguous selection goes from the first bound to the last one, or from the first to itself if
the last is before it. -/
theorem bounds_of_resolve (h : length ≤ maxObjectBytes)
    (hresolve : slice.resolve length = .ok selection) (hone : slice.stride = 1) :
    selection.start.toNatClampNeg = (slice.first length).toNat ∧
      selection.start.toNatClampNeg + selection.count =
        max (slice.first length).toNat (slice.last length).toNat := by
  obtain ⟨hstart, -, -, hcount⟩ := of_resolve h hresolve
  have hfirst := slice.first_mem length
  have hlast := slice.last_mem length
  have hlower : slice.lower = 0 := if_neg (by omega)
  have hclamp : selection.start.toNatClampNeg = (slice.first length).toNat :=
    congrArg Int.toNat hstart
  have hspan : selection.count = (slice.last length - slice.first length).toNat := by
    rw [hcount, spanFrom, hone]
    exact stepsWithin_one _
  exact ⟨hclamp, by omega⟩

/-- Its start is the first bound, which is not before the list. -/
theorem toNat_first_of_resolve (h : length ≤ maxObjectBytes)
    (hresolve : slice.resolve length = .ok selection) (hone : slice.stride = 1) :
    ((slice.first length).toNat : Int) = selection.start.toInt := by
  obtain ⟨hstart, -⟩ := of_resolve h hresolve
  have hfirst := slice.first_mem length
  have hlower : slice.lower = 0 := if_neg (by omega)
  omega

/-- **A slice resolves to the members of the walk**, none of which is negative. -/
theorem walk_of_resolve (h : length ≤ maxObjectBytes)
    (hresolve : slice.resolve length = .ok selection) :
    slice.walk length = selection.positions.map Int.ofNat := by
  obtain ⟨hstart, hstop, hstep, hcount⟩ := of_resolve h hresolve
  have hinside := inside_of_resolve h hresolve
  rw [walk, ← hstart, ← hstop, ← hstep, rangeWalk_eq_map hinside.step_ne, ← hinside.count_eq,
    Selection.positions, List.map_map]
  refine List.map_congr_left fun k hk ↦ ?_
  exact (hinside.position_eq (List.mem_range.1 hk)).symm

theorem positions_of_resolve (h : length ≤ maxObjectBytes)
    (hresolve : slice.resolve length = .ok selection) :
    selection.positions = slice.walked length := by
  have hwalked : slice.walked length = (slice.walk length).map Int.toNat := rfl
  rw [hwalked, walk_of_resolve h hresolve, List.map_map]
  exact (List.map_id _).symm

theorem length_walked (h : length ≤ maxObjectBytes)
    (hresolve : slice.resolve length = .ok selection) :
    (slice.walked length).length = selection.count := by
  rw [← positions_of_resolve h hresolve, selection.length_positions]

/-- A walk in steps of one goes from the first bound to the last one, if that is not before it. -/
theorem first_add_length_walked (h : length ≤ maxObjectBytes) (hone : slice.stride = 1) :
    (slice.first length).toNat + (slice.walked length).length =
      max (slice.first length).toNat (slice.last length).toNat := by
  obtain ⟨selection, hresolve⟩ := exists_resolve (by omega : slice.stride ≠ 0) length
  obtain ⟨hstart, hstop⟩ := bounds_of_resolve h hresolve hone
  rw [length_walked h hresolve, ← hstart, hstop, hstart]

/-- What it walks is a piece of the list. -/
theorem first_add_length_walked_le (h : length ≤ maxObjectBytes) (hone : slice.stride = 1) :
    (slice.first length).toNat + (slice.walked length).length ≤ length := by
  have hfirst := slice.first_mem length
  have hlast := slice.last_mem length
  have hupper : slice.upper length = length := if_neg (by omega)
  rw [first_add_length_walked h hone]
  omega

/-- The positions in it are adjacent. -/
theorem walked_eq_range' (h : length ≤ maxObjectBytes) (hone : slice.stride = 1) :
    slice.walked length =
      List.range' (slice.first length).toNat (slice.walked length).length := by
  obtain ⟨selection, hresolve⟩ := exists_resolve (by omega : slice.stride ≠ 0) length
  have hcontiguous := (isContiguous_iff h hresolve).2 hone
  rw [length_walked h hresolve, ← positions_of_resolve h hresolve,
    (inside_of_resolve h hresolve).positions_eq_range' hcontiguous, selection.position_zero,
    (bounds_of_resolve h hresolve hone).1]

/-- What is walked are positions of the list. -/
theorem lt_of_mem_walked (h : length ≤ maxObjectBytes) (hstride : slice.stride ≠ 0) {position : Nat}
    (hmem : position ∈ slice.walked length) : position < length := by
  obtain ⟨selection, hresolve⟩ := exists_resolve hstride length
  rw [← positions_of_resolve h hresolve] at hmem
  exact (inside_of_resolve h hresolve).lt_of_mem_positions hmem

end Slice
end ListRuntime
