import ListRuntime.Proofs.Position
import ListRuntime.Proofs.UniformList.Slicing

/-!
# Operations on elements as operations on slices

What is done to one element, or behind the last one, can be done to a slice just as well: the same
room is made, the same hooks are called in the same order, and the same list is left.

* `Slice.toNat_clamped_ofNat` says that a number of elements is a bound as it is.
* `storeCourse_eq_splice`, `shrinkCourse_zero` and `spliceCourse_one` are about storing, clearing
  and withdrawing as splices, `setSliceCourse_of_bounds` and `delSliceCourse_of_bounds` about the
  slices that come to the same splices.
* `Run.Agrees` is for runs that differ at most in what is left when a hook call unwinds.
* `slice_forms` puts both sides together.
-/

set_option autoImplicit false

namespace ListRuntime

/-! ## Runs that look the same -/

/-- Two runs call the same hooks and end in the same way, and unless that is because a hook call
unwound, they leave the same state. -/
structure Run.Agrees {α σ β : Type} (run run' : Run α σ β) : Prop where
  calls_eq : run.calls = run'.calls
  ending_eq : run.ending = run'.ending
  state_eq : (∀ call, run.ending ≠ .unwound call) → run.state = run'.state

/-- A row of hook calls looks the same in whatever state the calls are made. -/
theorem Course.agrees_row {α σ β : Type} (hook : Hook) (items : List α) (s s' final : σ)
    (result : Except ListError β) (mishap : Mishap) :
    (Course.run ⟨Stage.row hook items s, final, result⟩ mishap).Agrees
      (Course.run ⟨Stage.row hook items s', final, result⟩ mishap) := by
  have hcalls (t : σ) : (Course.mk (Stage.row hook items t) final result).calls =
      items.map (⟨hook, ·⟩) := map_call_row hook items t
  rcases mishap.spares_or_strikes items.length with hspared | ⟨k, hk, rfl⟩
  · have hspares (t : σ) : mishap.Spares (Stage.row hook items t).length := by rwa [length_row]
    rw [run_of_spares _ (hspares s), run_of_spares _ (hspares s'), hcalls, hcalls]
    exact ⟨rfl, rfl, fun _ ↦ rfl⟩
  · have hlt (t : σ) : k < (Stage.row hook items t).length := by rwa [length_row]
    rw [run_of_lt _ (hlt s), run_of_lt _ (hlt s'), hcalls, hcalls]
    simp only [Stage.row, List.getElem_map, List.append_nil]
    exact ⟨rfl, rfl, fun hnever ↦ absurd rfl (hnever _)⟩

/-! ## The bounds -/

namespace Slice

variable {slice : Slice} {length : Nat}

/-- A number of elements is no bound to be moved. -/
theorem toNat_clamped_ofNat (h : length ≤ maxObjectBytes) (hone : slice.stride = 1) {n : Nat}
    (hn : n ≤ length) : (slice.clamped length (.ofNat n)).toNat = n := by
  rw [toNat_clamped h hone, clampPosition_eq _ h, toInt_ofNat (Nat.le_trans hn h),
    if_neg (by omega)]
  omega

end Slice

namespace UniformList

open ListRuntime.Action Course

variable {α : Type} {mem : Allocator} {list : UniformList α}

theorem insertIdx_eq_take_append_drop {items : List α} {position : Nat}
    (h : position ≤ items.length) (a : α) :
    items.insertIdx position a = items.take position ++ [a] ++ items.drop position := by
  induction items generalizing position with
  | nil =>
    obtain rfl : position = 0 := Nat.le_zero.1 h
    rfl
  | cons b items ih =>
    cases position with
    | zero => rfl
    | succ position =>
      rw [List.insertIdx_succ_cons, ih (Nat.le_of_succ_le_succ h)]
      rfl

variable [Element α]

/-! ## Courses as splices -/

/-- Storing elements replaces none. -/
theorem storeCourse_eq_splice {items : List α} {put : UniformList α → List α} {first : Nat}
    (hput : ∀ roomy : UniformList α, roomy.toList = list.toList →
      put roomy = list.spliced first 0 items) :
    storeCourse mem items put list = spliceCourse mem first 0 items list := by
  have htotal : (list.toList.take first).length + (list.toList.drop (first + 0)).length =
      list.length := by
    rw [Nat.add_zero, ← List.length_append, List.take_append_drop, length_toList]
  dsimp only [storeCourse, spliceCourse, roomForMore]
  rw [htotal]
  by_cases hlimit : wordLimit ≤ list.length + items.length
  · rw [if_pos hlimit, if_pos hlimit]
    rfl
  · rw [if_neg hlimit, if_neg hlimit]
    cases hroom : list.roomFor mem (list.length + items.length) with
    | error e => rfl
    | ok roomy =>
      have hstored := hput roomy (roomier_of_roomFor hroom).toList_eq
      change Course.mk (Stage.row .acquire items roomy) (roomy.holding (put roomy)) _ =
        ⟨Stage.row .acquire items roomy ++ Stage.row .release (List.take 0 _) _,
          roomy.holding (list.spliced first 0 items), .ok ()⟩
      rw [hstored, List.take_zero]
      exact congrArg (Course.mk · _ _) (List.append_nil _).symm

/-- Clearing replaces all elements by none. -/
theorem shrinkCourse_zero (h : list.Fits) :
    shrinkCourse 0 list = spliceCourse mem 0 list.length [] list := by
  have hall : list.toList.take list.length = list.toList :=
    List.take_of_length_le (Nat.le_of_eq list.length_toList)
  have hnone : list.spliced 0 list.length [] = [] := by
    rw [spliced, Nat.zero_add, List.drop_of_length_le (Nat.le_of_eq list.length_toList)]
    rfl
  rw [spliceCourse_nil h, hnone, List.drop_zero, hall]
  rfl

/-- Withdrawing an element replaces it by none.  The element leaves the list with all that stand
behind it, so the two courses agree in all but what the release finds. -/
theorem spliceCourse_one (h : list.Fits) (position : Nat) :
    spliceCourse mem position 1 [] list =
      ⟨Stage.row .release list.toList[position]?.toList
        (list.holding (list.toList.take position)),
        list.holding (list.toList.eraseIdx position), .ok ()⟩ := by
  rw [spliceCourse_nil h, List.take_one, List.head?_drop, spliced, List.append_nil,
    List.eraseIdx_eq_take_drop_succ]

/-! ## Slices -/

variable {slice : Slice}

/-- A slice from one bound to another that is not before it, as an assignment. -/
theorem setSliceCourse_of_bounds (h : list.Fits) (hone : slice.stride = 1) {first removed : Nat}
    (hfirst : (slice.first list.length).toNat = first)
    (hlast : (slice.last list.length).toNat = first + removed) (items : List α) :
    setSliceCourse mem slice items list = spliceCourse mem first removed items list := by
  have hwalked := Slice.first_add_length_walked h.length_le_max hone
  have hremoved : (slice.walked list.length).length = removed := by omega
  rw [setSliceCourse_of_contiguous h hone, hfirst, hremoved]

/-- The same, as a deletion. -/
theorem delSliceCourse_of_bounds (h : list.Fits) (hone : slice.stride = 1) {first removed : Nat}
    (hfirst : (slice.first list.length).toNat = first)
    (hlast : (slice.last list.length).toNat = first + removed) :
    delSliceCourse mem slice list = spliceCourse mem first removed [] list := by
  have hwalked := Slice.first_add_length_walked h.length_le_max hone
  have hremoved : (slice.walked list.length).length = removed := by omega
  rw [delSliceCourse_of_contiguous h hone, hfirst, hremoved]

/-- What is stored behind the last element is assigned to the slice behind it. -/
theorem extendCourse_eq_setSlice (h : list.Fits) (items : List α) :
    extendCourse mem items list =
      setSliceCourse mem ⟨some (.ofNat list.length), none, none⟩ items list := by
  have hfirst : (Slice.first ⟨some (.ofNat list.length), none, none⟩ list.length).toNat =
      list.length := Slice.toNat_clamped_ofNat h.length_le_max rfl (Nat.le_refl _)
  have hlast : (Slice.last ⟨some (.ofNat list.length), none, none⟩ list.length).toNat =
      list.length + 0 := rfl
  rw [setSliceCourse_of_bounds h rfl hfirst hlast, extendCourse]
  refine storeCourse_eq_splice fun roomy htoList ↦ ?_
  rw [spliced, htoList, ← length_toList, List.take_length, Nat.add_zero, List.drop_length,
    List.append_nil]

theorem insert_follows_setSlice (h : list.Fits) (position : Int64) (a : α) :
    (insert position a).Follows mem list
      (setSliceCourse mem ⟨some position, some position, none⟩ [a] list) := by
  have hfirst : (Slice.first ⟨some position, some position, none⟩ list.length).toNat =
      clampPosition position list.length := Slice.toNat_clamped h.length_le_max rfl position
  have hlast : (Slice.last ⟨some position, some position, none⟩ list.length).toNat =
      clampPosition position list.length + 0 := hfirst
  have hclamp : clampPosition position list.length ≤ list.toList.length := by
    rw [length_toList]
    exact clampPosition_le position _
  rw [setSliceCourse_of_bounds h rfl hfirst hlast]
  refine (insert_follows list position a).of_eq (storeCourse_eq_splice fun roomy htoList ↦ ?_)
  rw [length_eq_of_toList_eq htoList, htoList, insertIdx_eq_take_append_drop hclamp]
  rfl

theorem clear_follows_delSlice (h : list.Fits) :
    clear.Follows mem list (delSliceCourse mem {} list) := by
  have hlast : (Slice.last {} list.length).toNat = 0 + list.length := (Nat.zero_add _).symm
  have hfirst : (Slice.first {} list.length).toNat = 0 := rfl
  rw [delSliceCourse_of_bounds h rfl hfirst hlast, ← shrinkCourse_zero h]
  exact shrinkTo_follows list 0

theorem delete_agrees_delSlice (h : list.Fits) {index : Int64} {position : Nat}
    (hposition : resolveIndex index list.length = some position) (mishap : Mishap) :
    ((delete index).run mem mishap list).Agrees
      ((delSlice ⟨some (.ofNat position), some (.ofNat (position + 1)), none⟩).run mem mishap
        list) := by
  have hlt := lt_of_resolveIndex hposition
  have hlength := h.length_le_max
  have hfirst : (Slice.first ⟨some (.ofNat position), some (.ofNat (position + 1)), none⟩
      list.length).toNat = position :=
    Slice.toNat_clamped_ofNat hlength rfl (Nat.le_of_lt hlt)
  have hlast : (Slice.last ⟨some (.ofNat position), some (.ofNat (position + 1)), none⟩
      list.length).toNat = position + 1 := Slice.toNat_clamped_ofNat hlength rfl hlt
  rw [delete_follows, delSlice_follows, atIndex, hposition,
    delSliceCourse_of_bounds h rfl hfirst hlast, spliceCourse_one h]
  exact Course.agrees_row ..

/-! ## The main result -/

/-- **Operations on elements are operations on slices.**  Inserting, appending, extending and
clearing are assignments and deletions of slices, call by call, whatever the allocator refuses and
whichever hook call unwinds.  So is deleting an element, but for what is left if its release
unwinds. -/
theorem slice_forms (h : list.Fits) (mem : Allocator) (mishap : Mishap) :
    (∀ position a, (insert position a).run mem mishap list =
      (setSlice ⟨some position, some position, none⟩ [a]).run mem mishap list) ∧
    (∀ a, (append a).run mem mishap list =
      (setSlice ⟨some (.ofNat list.length), none, none⟩ [a]).run mem mishap list) ∧
    (∀ items, (extendFromList items).run mem mishap list =
      (setSlice ⟨some (.ofNat list.length), none, none⟩ items).run mem mishap list) ∧
    clear.run mem mishap list = (delSlice {}).run mem mishap list ∧
    ∀ index position, resolveIndex index list.length = some position →
      ((delete index).run mem mishap list).Agrees
        ((delSlice ⟨some (.ofNat position), some (.ofNat (position + 1)), none⟩).run mem mishap
          list) := by
  refine ⟨fun position a ↦ ?_, fun a ↦ ?_, fun items ↦ ?_, ?_, fun index position hposition ↦ ?_⟩
  · rw [insert_follows_setSlice h, setSlice_follows]
  · rw [append_follows, setSlice_follows, extendCourse_eq_setSlice h]
  · rw [extendFromList_follows, setSlice_follows, extendCourse_eq_setSlice h]
  · rw [clear_follows_delSlice h, delSlice_follows]
  · exact delete_agrees_delSlice h hposition mishap

/-- Far outside a list of three, and at its last element. -/
theorem slice_forms_of_three :
    let list : UniformList Int64 := ⟨⟨#[1, 2, 3], 3⟩, .standard⟩
    list.Fits ∧ resolveIndex (-1) list.length = some 2 ∧
      (∀ mem mishap, (insert Int64.minValue 0).run mem mishap list =
        (setSlice ⟨some Int64.minValue, some Int64.minValue, none⟩ [0]).run mem mishap list) ∧
      ∀ mem, ((delete (-1)).run mem none list).Agrees
        ((delSlice ⟨some (.ofNat 2), some (.ofNat 3), none⟩).run mem none list) := by
  intro list
  have hfits : list.Fits := ⟨by decide, by decide⟩
  have hlast : resolveIndex (-1) list.length = some 2 := by decide +kernel
  refine ⟨hfits, hlast, fun mem mishap ↦ (slice_forms hfits mem mishap).1 _ _, fun mem ↦ ?_⟩
  obtain ⟨-, -, -, -, hdelete⟩ := slice_forms hfits mem none
  with_reducible exact hdelete (-1) 2 hlast

end UniformList
end ListRuntime
