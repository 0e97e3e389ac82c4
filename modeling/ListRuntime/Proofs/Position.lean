import ListRuntime.Proofs.Slice

/-!
# The position that a number counts to

An index, a place to insert at and a bound of a slice are numbers, and a negative one counts from the
end.  There is a rule for each of the three, written on its own and computed in words.  This file
goes back to what they have in common: a number counts to one position, in the list or outside, and
the rules differ in what they make of one outside.

* `counted` is that position.
* `resolveIndex_eq_some_iff` and `resolveIndex_eq_none_iff`: an index has to count to a position of
  the list.
* `natCast_clampPosition`: a place to insert at is moved to the nearer end.
* `Slice.clamped_up` and `Slice.clamped_down` are about the bounds of slices, by the way a slice
  walks.  Walking up, they are moved as a place to insert at is; walking down, to the last position
  or to just before the first.
* `RulesAgree` says what all this comes to for one number, and `rulesAgree` says that it is so.
-/

set_option autoImplicit false

namespace ListRuntime

variable {index : Int64} {length position : Nat}

/-- The position that a number counts to: a negative one counts from the end.  It may lie outside
the list. -/
def counted (index : Int64) (length : Nat) : Int :=
  if index.toInt < 0 then index.toInt + length else index.toInt

/-- A position of the list is counted to by a number from zero on, and by one below zero. -/
theorem counted_mem_iff : 0 ≤ counted index length ∧ counted index length < length ↔
    -(length : Int) ≤ index.toInt ∧ index.toInt < length := by
  rw [counted]
  split <;> omega

/-! ## Indices and places -/

/-- An index names the position that it counts to, if that is one of the list. -/
theorem resolveIndex_eq_some_iff (h : length ≤ maxObjectBytes) :
    resolveIndex index length = some position ↔
      counted index length = position ∧ position < length := by
  rw [resolveIndex_eq index h]
  show (if 0 ≤ counted index length ∧ counted index length < length then
    some (counted index length).toNat else none) = some position ↔ _
  rw [Option.ite_none_right_eq_some, Option.some_inj]
  constructor
  · rintro ⟨hmem, rfl⟩
    omega
  · rintro ⟨hcounted, hlt⟩
    omega

/-- Otherwise it names none. -/
theorem resolveIndex_eq_none_iff (h : length ≤ maxObjectBytes) :
    resolveIndex index length = none ↔
      counted index length < 0 ∨ length ≤ counted index length := by
  constructor
  · intro hnone
    by_contra hmem
    have hsome : resolveIndex index length = some (counted index length).toNat :=
      (resolveIndex_eq_some_iff h).2 (by omega)
    simp [hnone] at hsome
  · intro houtside
    refine Option.eq_none_iff_forall_ne_some.2 fun position hsome ↦ ?_
    obtain ⟨hcounted, hlt⟩ := (resolveIndex_eq_some_iff h).1 hsome
    omega

/-- A place to insert at is the position counted to, moved into the list. -/
theorem natCast_clampPosition (index : Int64) (h : length ≤ maxObjectBytes) :
    (clampPosition index length : Int) = max 0 (min (length : Int) (counted index length)) := by
  rw [clampPosition_eq index h, counted]
  split <;> omega

/-! ## Bounds of slices -/

namespace Slice

variable {slice : Slice}

/-- The slice resolves, and its walk starts at `position`. -/
def StartsAt (slice : Slice) (length : Nat) (position : Int) : Prop :=
  ∃ selection, slice.resolve length = .ok selection ∧ selection.start.toInt = position

/-- The slice resolves, and its walk stops at `position`. -/
def StopsAt (slice : Slice) (length : Nat) (position : Int) : Prop :=
  ∃ selection, slice.resolve length = .ok selection ∧ selection.stop.toInt = position

theorem startsAt_clamped (h : length ≤ maxObjectBytes) (hstride : slice.stride ≠ 0)
    (hstart : slice.start = some index) : slice.StartsAt length (slice.clamped length index) := by
  obtain ⟨selection, hresolve⟩ := exists_resolve hstride length
  obtain ⟨hfirst, -⟩ := of_resolve h hresolve
  refine ⟨selection, hresolve, ?_⟩
  rw [hfirst, first, hstart]
  rfl

theorem stopsAt_clamped (h : length ≤ maxObjectBytes) (hstride : slice.stride ≠ 0)
    (hstop : slice.stop = some index) : slice.StopsAt length (slice.clamped length index) := by
  obtain ⟨selection, hresolve⟩ := exists_resolve hstride length
  obtain ⟨-, hlast, -⟩ := of_resolve h hresolve
  refine ⟨selection, hresolve, ?_⟩
  rw [hlast, last, hstop]
  rfl

/-- A bound is the position counted to, moved between the least bound and the greatest. -/
theorem clamped_eq (slice : Slice) (length : Nat) (bound : Int64) :
    slice.clamped length bound =
      max slice.lower (min (slice.upper length) (counted bound length)) := rfl

/-- **Walking up, a bound is moved into the list as a place to insert at is.** -/
theorem clamped_up (h : length ≤ maxObjectBytes) (hup : 0 < slice.stride) (bound : Int64) :
    slice.clamped length bound = clampPosition bound length := by
  have hlower : slice.lower = 0 := if_neg (by omega)
  have hupper : slice.upper length = length := if_neg (by omega)
  rw [clamped_eq, hlower, hupper, natCast_clampPosition bound h]

/-- Walking down, it is moved to the last position, or to just before the first one. -/
theorem clamped_down (hdown : slice.stride < 0) (bound : Int64) :
    slice.clamped length bound = max (-1) (min ((length : Int) - 1) (counted bound length)) := by
  rw [clamped_eq, lower, upper, if_pos hdown, if_pos hdown]

/-- In steps of one, a bound is moved into the list as the position of an insertion is. -/
theorem toNat_clamped (h : length ≤ maxObjectBytes) (hone : slice.stride = 1) (bound : Int64) :
    (slice.clamped length bound).toNat = clampPosition bound length := by
  rw [clamped_up h (by omega), Int.toNat_natCast]

end Slice

/-! ## Agreement -/

/-- What the three rules make of one number fits together. -/
structure RulesAgree (index : Int64) (length : Nat) : Prop where
  /-- An index names a position if there is one, counted from either end. -/
  resolveIndex_iff (position : Nat) : resolveIndex index length = some position ↔
    -(length : Int) ≤ index.toInt ∧ index.toInt < length ∧
      (position : Int) = if index.toInt < 0 then index.toInt + length else index.toInt
  /-- That is the place to insert at, and a walk down starts there. -/
  of_some (position : Nat) : resolveIndex index length = some position →
    clampPosition index length = position ∧
      ∀ slice : Slice, slice.stride < 0 → slice.start = some index →
        slice.StartsAt length position
  /-- Where there is none, a negative number is the first place, and a walk down starts before the
  first position. -/
  of_none_neg : resolveIndex index length = none → index.toInt < 0 →
    clampPosition index length = 0 ∧
      ∀ slice : Slice, slice.stride < 0 → slice.start = some index → slice.StartsAt length (-1)
  /-- Any other number is the last place then, and a walk down starts at the last position. -/
  of_none_nonneg : resolveIndex index length = none → 0 ≤ index.toInt →
    clampPosition index length = length ∧
      ∀ slice : Slice, slice.stride < 0 → slice.start = some index →
        slice.StartsAt length (length - 1)
  /-- In any case a walk up starts at the place to insert at. -/
  startsAt (slice : Slice) : 0 < slice.stride → slice.start = some index →
    slice.StartsAt length (clampPosition index length)
  /-- And it stops there. -/
  stopsAt (slice : Slice) : 0 < slice.stride → slice.stop = some index →
    slice.StopsAt length (clampPosition index length)

/-- **The three rules agree** on every number, for every list that can exist. -/
theorem rulesAgree (index : Int64) (h : length ≤ maxObjectBytes) : RulesAgree index length := by
  have hclamp := natCast_clampPosition index h
  have hdown {position : Int}
      (hposition : max (-1) (min ((length : Int) - 1) (counted index length)) = position)
      (slice : Slice) (hstride : slice.stride < 0) (hstart : slice.start = some index) :
      slice.StartsAt length position := by
    rw [← hposition, ← Slice.clamped_down hstride]
    exact Slice.startsAt_clamped h (by omega) hstart
  constructor
  case resolveIndex_iff =>
    intro position
    rw [resolveIndex_eq_some_iff h, ← and_assoc, ← counted_mem_iff]
    show _ ↔ _ ∧ (position : Int) = counted index length
    omega
  case of_some =>
    intro position hsome
    obtain ⟨hcounted, hlt⟩ := (resolveIndex_eq_some_iff h).1 hsome
    exact ⟨by omega, hdown (by omega)⟩
  case of_none_neg =>
    intro hnone hneg
    have houtside := (resolveIndex_eq_none_iff h).1 hnone
    -- what counts from the end does not get behind it
    have hcounted : counted index length < 0 := by
      rw [counted, if_pos hneg] at houtside ⊢
      omega
    exact ⟨by omega, hdown (by omega)⟩
  case of_none_nonneg =>
    intro hnone hnonneg
    have houtside := (resolveIndex_eq_none_iff h).1 hnone
    -- nor does what counts from the start get before that
    have hcounted : length ≤ counted index length := by
      rw [counted, if_neg (Int.not_lt.2 hnonneg)] at houtside ⊢
      omega
    exact ⟨by omega, hdown (by omega)⟩
  case startsAt =>
    intro slice hup hstart
    rw [← Slice.clamped_up h hup]
    exact Slice.startsAt_clamped h (by omega) hstart
  case stopsAt =>
    intro slice hup hstop
    rw [← Slice.clamped_up h hup]
    exact Slice.stopsAt_clamped h (by omega) hstop

end ListRuntime
