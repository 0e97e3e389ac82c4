import ListRuntime.Proofs.Slice
import Mathlib.Data.List.Nodup
import Mathlib.Data.List.Perm.Basic

/-!
# What a slice selects, exactly

A slice is resolved in words and by a closed formula for the number of its positions.  This file
says that nothing is lost by that: for every list that can exist the positions are those of the walk
over unbounded integers, one for one.

* `Selection.ascent` are the positions that the ascending description of a selection stands for.
* `Selection.Inside.nodup_positions` and `Inside.ascent_perm`: no position is selected twice, and
  walking upwards visits the same ones.
* `Slice.resolve_exact` puts everything about resolving together.
-/

set_option autoImplicit false

namespace ListRuntime

namespace Selection

variable {selection : Selection} {length : Nat}

/-- The positions that are so many strides after the least one. -/
def ascent (selection : Selection) : List Nat :=
  (List.range selection.count).map fun j ↦ selection.ascending.1 + j * selection.ascending.2

/-- The stride of an ascending walk is at least one. -/
theorem Inside.ascending_pos (h : selection.Inside length) : 0 < selection.ascending.2 := by
  have hmagnitude : 0 < magnitude selection.step := Int.natAbs_pos.2 h.step_ne
  rw [ascending]
  split
  · exact Nat.one_pos
  · split <;> exact hmagnitude

/-- An ascending walk ascends. -/
theorem pairwise_ascent (hstride : 0 < selection.ascending.2) :
    selection.ascent.Pairwise (· < ·) := by
  rw [ascent, List.pairwise_map]
  refine List.pairwise_lt_range.imp fun hlt ↦ ?_
  exact Nat.add_lt_add_left (Nat.mul_lt_mul_of_pos_right hlt hstride) _

/-- No position is selected twice. -/
theorem Inside.nodup_positions (h : selection.Inside length) : selection.positions.Nodup := by
  refine List.nodup_range.map_on fun j hj k hk heq ↦ ?_
  have hsteps : (j : Int) * selection.step.toInt = k * selection.step.toInt := by
    have hj' := h.position_eq (List.mem_range.1 hj)
    have hk' := h.position_eq (List.mem_range.1 hk)
    omega
  exact Int.ofNat.inj (Int.eq_of_mul_eq_mul_right h.step_ne hsteps)

/-- **The ascending walk visits the selected positions**, each of them once. -/
theorem Inside.ascent_perm (h : selection.Inside length) :
    selection.ascent.Perm selection.positions := by
  have hnodup : selection.ascent.Nodup := (pairwise_ascent h.ascending_pos).imp Nat.ne_of_lt
  refine (List.perm_ext_iff_of_nodup hnodup h.nodup_positions).2 fun position ↦ ?_
  rw [← h.selects_iff, selects_iff_exists h.ascending_pos, ascent, List.mem_map]
  constructor
  · rintro ⟨j, hj, rfl⟩
    exact ⟨j, List.mem_range.1 hj, rfl⟩
  · rintro ⟨j, hj, rfl⟩
    exact ⟨j, List.mem_range.2 hj, rfl⟩

end Selection

namespace Slice

/-- A walk along a slice does not come back. -/
theorem nodup_walked {slice : Slice} {length : Nat} (h : length ≤ maxObjectBytes)
    (hstride : slice.stride ≠ 0) : (slice.walked length).Nodup := by
  obtain ⟨selection, hresolve⟩ := exists_resolve hstride length
  rw [← positions_of_resolve h hresolve]
  exact (inside_of_resolve h hresolve).nodup_positions

/-- **Resolving a slice is exact.**  Against a list that can exist it fails for a step of zero and
for nothing else.  Otherwise the selected positions are the members of the walk in its order, and
counted right; they all lie in the list and no two of them are the same; and the ascending
description enumerates them in increasing order. -/
theorem resolve_exact (slice : Slice) {length : Nat} (h : length ≤ maxObjectBytes) :
    (∀ e, slice.resolve length = .error e ↔ slice.stride = 0 ∧ e = .zeroStep) ∧
    (slice.stride ≠ 0 → ∃ selection, slice.resolve length = .ok selection ∧
      selection.count = (slice.walk length).length ∧
      selection.positions.map Int.ofNat = slice.walk length ∧
      (∀ position ∈ selection.positions, position < length) ∧
      selection.positions.Nodup ∧
      selection.ascent.Perm selection.positions ∧
      selection.ascent.Pairwise (· < ·)) := by
  refine ⟨fun e ↦ resolve_eq_error_iff, fun hstride ↦ ?_⟩
  cases hresolve : slice.resolve length with
  | error e => exact absurd (resolve_eq_error_iff.1 hresolve).1 hstride
  | ok selection =>
    have hinside := inside_of_resolve h hresolve
    have hwalk := walk_of_resolve h hresolve
    have hcount : selection.count = (slice.walk length).length := by
      rw [hwalk, List.length_map, Selection.length_positions]
    exact ⟨selection, rfl, hcount, hwalk.symm, fun _ hmem ↦ hinside.lt_of_mem_positions hmem,
      hinside.nodup_positions, hinside.ascent_perm,
      Selection.pairwise_ascent hinside.ascending_pos⟩

/-- A walk down the longest list there can be, in steps of `2 ^ 62`: it visits two
positions. -/
theorem resolve_exact_longest :
    let slice : Slice := { start := some Int64.maxValue, step := some (-4611686018427387904) }
    slice.stride ≠ 0 ∧ slice.walk maxObjectBytes = [9223372036854775806, 4611686018427387902] ∧
      ∃ selection, slice.resolve maxObjectBytes = .ok selection ∧
        selection.ascent = [4611686018427387902, 9223372036854775806] := by
  intro slice
  have hstride : slice.stride ≠ 0 := by decide
  obtain ⟨-, hresolves⟩ := resolve_exact slice (Nat.le_refl maxObjectBytes)
  obtain ⟨selection, hresolve, -, hwalk, -⟩ := hresolves hstride
  obtain rfl : (⟨9223372036854775806, -1, -4611686018427387904, 2⟩ : Selection) = selection :=
    Except.ok.inj ((by decide +kernel : _ = slice.resolve maxObjectBytes).trans hresolve)
  exact ⟨hstride, hwalk.symm.trans (by decide +kernel), _, hresolve, by decide +kernel⟩

end Slice
end ListRuntime
