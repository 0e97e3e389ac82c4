import ListRuntime.Proofs.Position
import ListRuntime.Proofs.UniformList.SliceEffect

/-!
# Cutting a list in two

A slice up to a number and one from the same number on leave out nothing of a list and share nothing
of it, since both of them read the number as the same position.  Put together they are the list
again, whatever the number.

* `Gives` says in full what making a list of known elements comes to.
* `gives_between` is reading a piece of a list; `gives_take` and `gives_drop` are reading up to a
  number and from it on.
* `gives_concat` is putting two lists together.
* `positions_agree` has all that a number means for a list: the three rules about it, and the cut.
-/

set_option autoImplicit false

namespace ListRuntime
namespace UniformList

open ListRuntime.Action Course Sequence

variable {α : Type} [Element α] {list : UniformList α}

/-- Making a list gives these elements.  If there is memory for a buffer of just their number, a new
list of them is made, of the policy `growth`, and each of them is acquired, in order; otherwise
nothing is done. -/
def Gives (making : (σ : Type) → Action α σ (UniformList α)) (growth : Growth) (items : List α) :
    Prop :=
  ∀ (σ : Type) (mem : Allocator) (s : σ), (making σ).run mem none s =
    match (Buffer.withCapacity (Element.layout α) mem items.length :
      Except AllocError (Buffer α)) with
    | .ok buffer => ⟨items.map (⟨.acquire, ·⟩), s,
        .returned ⟨{ buffer with items := items.toArray }, growth⟩⟩
    | .error cause => ⟨[], s, .failed (.allocation cause)⟩

/-- A slice of step one reads what stands between its bounds. -/
theorem gives_between (h : list.Fits) {slice : Slice} (hone : slice.stride = 1) {start stop : Nat}
    (hfirst : (slice.first list.length).toNat = start)
    (hlast : (slice.last list.length).toNat = stop) :
    Gives (fun _ ↦ list.slice slice) list.growth
      ((list.toList.drop start).take (stop - start)) := by
  have hmax := h.length_le_max
  have hend := Slice.first_add_length_walked hmax hone
  have hcount : (slice.walked list.length).length = stop - start := by omega
  have hreads := reads_walked h (by omega : slice.stride ≠ 0)
  rw [Slice.walked_eq_range' hmax hone, pickAt_range', hfirst, hcount] at hreads
  exact hreads

/-- A slice up to a number reads what stands before the place to insert at. -/
theorem gives_take (h : list.Fits) (index : Int64) :
    Gives (fun _ ↦ list.slice { stop := some index }) list.growth
      (list.toList.take (clampPosition index list.length)) := by
  have hfirst : (Slice.first { stop := some index } list.length).toNat = 0 := rfl
  have hlast : (Slice.last { stop := some index } list.length).toNat =
      clampPosition index list.length := Slice.toNat_clamped h.length_le_max rfl index
  have hgives := gives_between h rfl hfirst hlast
  rwa [List.drop_zero, Nat.sub_zero] at hgives

/-- A slice from it on reads what stands behind that place. -/
theorem gives_drop (h : list.Fits) (index : Int64) :
    Gives (fun _ ↦ list.slice { start := some index }) list.growth
      (list.toList.drop (clampPosition index list.length)) := by
  have hfirst : (Slice.first { start := some index } list.length).toNat =
      clampPosition index list.length := Slice.toNat_clamped h.length_le_max rfl index
  have hlast : (Slice.last { start := some index } list.length).toNat = list.length := rfl
  have hgives := gives_between h rfl hfirst hlast
  rwa [List.take_of_length_le (by simp)] at hgives

/-- Two lists put together are the elements of the one and then those of the other. -/
theorem gives_concat (list : UniformList α) {items : List α}
    (h : list.length + items.length < wordLimit) :
    Gives (fun _ ↦ list.concat items) list.growth (list.toList ++ items) := by
  intro σ mem s
  have hlength : (list.toList ++ items).length = list.length + items.length := by
    rw [List.length_append, length_toList]
  rw [concat_follows list s items none, hlength]
  exact (makesAtOnce_concat list h).run_eq mem

/-- **A number means one position.**  For every list that can exist, the rules for indices, for
places to insert at and for bounds of slices agree on it.  So a list comes apart there: what a slice
up to the number reads and what one from it on reads are the list when they are put together.  All
this needs is memory for the parts and for the whole. -/
theorem positions_agree (index : Int64) :
    (∀ length ≤ maxObjectBytes, RulesAgree index length) ∧
    ∀ list : UniformList α, list.Fits → ∃ front back : List α,
      front ++ back = list.toList ∧ front.length = clampPosition index list.length ∧
      Gives (fun _ ↦ list.slice { stop := some index }) list.growth front ∧
      Gives (fun _ ↦ list.slice { start := some index }) list.growth back ∧
      ∀ first second : UniformList α, first.toList = front → second.toList = back →
        Gives (fun _ ↦ first.concat second.toList) first.growth list.toList := by
  refine ⟨fun length h ↦ rulesAgree index h, fun list hfits ↦ ?_⟩
  have hwhole := List.take_append_drop (clampPosition index list.length) list.toList
  refine ⟨_, _, hwhole, ?_, gives_take hfits index, gives_drop hfits index,
    fun first second hfront hback ↦ ?_⟩
  · rw [List.length_take, length_toList]
    exact Nat.min_eq_left (clampPosition_le index list.length)
  · have hjoin : first.toList ++ second.toList = list.toList := by rw [hfront, hback, hwhole]
    have htotal : first.length + second.toList.length = list.length := by
      rw [← first.length_toList, ← List.length_append, hjoin, length_toList]
    have hmax := hfits.length_le_max
    have hword : maxObjectBytes < wordLimit := by decide
    rw [← hjoin]
    exact gives_concat first (by omega)

/-- The least number there is, in the longest list; and three elements, cut before the last. -/
theorem positions_agree_of_three :
    let list : UniformList Int64 := ⟨⟨#[7, 8, 9], 4⟩, .standard⟩
    let front : UniformList Int64 := ⟨⟨#[7, 8], 2⟩, .standard⟩
    let back : UniformList Int64 := ⟨⟨#[9], 1⟩, .standard⟩
    let backwards (index : Int64) : Slice := { start := some index, step := some (-1) }
    resolveIndex Int64.minValue maxObjectBytes = none ∧
      clampPosition Int64.minValue maxObjectBytes = 0 ∧
      (backwards Int64.minValue).StartsAt maxObjectBytes (-1) ∧
      list.Fits ∧ resolveIndex (-1) list.length = some 2 ∧ (backwards (-1)).StartsAt list.length 2 ∧
      (list.slice { stop := some (-1) }).run .boundless none () =
        ⟨[⟨.acquire, 7⟩, ⟨.acquire, 8⟩], (), .returned front⟩ ∧
      (list.slice { start := some (-1) }).run .boundless none () =
        ⟨[⟨.acquire, 9⟩], (), .returned back⟩ ∧
      (front.concat back.toList).run .boundless none () =
        ⟨[⟨.acquire, 7⟩, ⟨.acquire, 8⟩, ⟨.acquire, 9⟩], (),
          .returned ⟨⟨#[7, 8, 9], 3⟩, .standard⟩⟩ := by
  intro list front back backwards
  have hfits : list.Fits := ⟨by decide, by decide⟩
  have hnone : resolveIndex Int64.minValue maxObjectBytes = none := by decide +kernel
  have hsome : resolveIndex (-1) list.length = some 2 := by decide +kernel
  obtain ⟨hrules, -⟩ := positions_agree (α := Int64) Int64.minValue
  obtain ⟨hfirst, hstarts⟩ := (hrules maxObjectBytes (Nat.le_refl _)).of_none_neg hnone (by decide)
  obtain ⟨hrules', hcut⟩ := positions_agree (α := Int64) (-1)
  obtain ⟨hplace, hstarts'⟩ := (hrules' list.length (by decide)).of_some 2 hsome
  obtain ⟨items, items', hwhole, hlength, hfront, hback, hjoin⟩ := hcut list hfits
  obtain ⟨rfl, rfl⟩ : items = [7, 8] ∧ items' = [9] :=
    List.append_inj hwhole (hlength.trans hplace)
  exact ⟨hnone, hfirst, hstarts _ (by decide) rfl, hfits, hsome, hstarts' _ (by decide) rfl,
    hfront Unit .boundless (), hback Unit .boundless (), hjoin front back rfl rfl Unit .boundless ()⟩

end UniformList
end ListRuntime
