import ListRuntime.Proofs.Selection
import ListRuntime.Proofs.Sequence.Positions
import ListRuntime.Proofs.UniformList.Sweep

/-!
# What slices make of a list

The courses of assigning to a slice and of deleting one, taken apart by what the slice is.  Each of
them is a row of acquires and a row of releases, or acquires and releases in turn, and what is left
can be said of plain sequences.

* `UniformList.spliced` are the elements after a splice.  Whether it succeeds depends on room for
  them and on nothing else (`spliceCourse_of_room`, `spliceCourse_of_refused`).
* `overwriteEachCourse` overwrites one element after the other, and `HookCall.inTurn` are the calls
  that it makes.
* `setSliceCourse_of_contiguous`, `setSliceCourse_of_stepped` and `delSliceCourse_eq` are the
  courses of the two operations.
-/

set_option autoImplicit false

namespace ListRuntime

/-- One element comes in and one goes, then the next ones. -/
def HookCall.inTurn {α : Type} (incoming outgoing : List α) : List (HookCall α) :=
  (incoming.zip outgoing).flatMap fun (a, b) ↦ [⟨.acquire, a⟩, ⟨.release, b⟩]

namespace UniformList

open ListRuntime.Action Course Sequence

variable {α : Type} {mem : Allocator} {list : UniformList α}

/-! ## Overwriting -/

/-- Overwrite one element after the other. -/
def overwriteEachCourse (entries : List (Nat × α)) :
    UniformList α → Course α (UniformList α) Unit :=
  Course.forEach (fun entry : Nat × α ↦ overwriteCourse entry.1 entry.2) entries

theorem overwriteEachCourse_cons (entry : Nat × α) (entries : List (Nat × α))
    (list : UniformList α) :
    overwriteEachCourse (entry :: entries) list =
      (overwriteEachCourse entries (list.holding (list.toList.set entry.1 entry.2))).after
        (overwriteCourse entry.1 entry.2 list).stages := rfl

/-- A round is an acquire, a change of the list and a release. -/
theorem stages_overwriteEach_cons {entry : Nat × α} (h : entry.1 < list.toList.length)
    (entries : List (Nat × α)) :
    let changed := list.holding (list.toList.set entry.1 entry.2)
    (overwriteEachCourse (entry :: entries) list).stages =
      ⟨⟨.acquire, entry.2⟩, list, []⟩ :: ⟨⟨.release, list.toList[entry.1]⟩, changed, []⟩ ::
        (overwriteEachCourse entries changed).stages := by
  have hget : list.toList[entry.1]? = some list.toList[entry.1] := List.getElem?_eq_getElem h
  rw [overwriteEachCourse_cons, overwriteCourse, hget]
  rfl

/-- It never fails. -/
theorem result_overwriteEach (entries : List (Nat × α)) (list : UniformList α) :
    (overwriteEachCourse entries list).result = .ok () := by
  induction entries generalizing list with
  | nil => rfl
  | cons entry entries ih => exact ih _

theorem state_overwriteEach (entries : List (Nat × α)) (list : UniformList α) :
    (overwriteEachCourse entries list).state = list.holding (replaceAt list.toList entries) := by
  induction entries generalizing list with
  | nil => rfl
  | cons entry entries ih => exact ih _

/-- Each element that comes in is followed by the one that it takes the place of.  This is the one
from the beginning, since no position comes twice. -/
theorem calls_overwriteEach {positions : List Nat} {incoming : List α} (hnodup : positions.Nodup)
    (hrange : ∀ position ∈ positions, position < list.toList.length)
    (hlength : positions.length = incoming.length) :
    (overwriteEachCourse (positions.zip incoming) list).calls =
      HookCall.inTurn incoming (pickAt list.toList positions) := by
  induction positions generalizing list incoming with
  | nil =>
    rw [List.length_eq_zero_iff.1 hlength.symm]
    rfl
  | cons position positions ih =>
    obtain ⟨a, incoming, rfl⟩ := List.exists_cons_of_length_eq_add_one hlength.symm
    obtain ⟨hfresh, hnodup⟩ := List.nodup_cons.1 hnodup
    have hposition : position < list.toList.length := hrange position List.mem_cons_self
    let changed := list.holding (list.toList.set position a)
    have hcalls : (overwriteEachCourse (positions.zip incoming) changed).calls =
        HookCall.inTurn incoming (pickAt changed.toList positions) := by
      refine ih hnodup (fun other hmem ↦ ?_) (Nat.succ.inj hlength)
      rw [toList_holding, List.length_set]
      exact hrange other (List.mem_cons_of_mem position hmem)
    have hpick : pickAt (list.toList.set position a) positions = pickAt list.toList positions := by
      refine List.filterMap_congr fun other hmem ↦ List.getElem?_set_ne ?_
      rintro rfl
      exact hfresh hmem
    rw [toList_holding, hpick] at hcalls
    rw [List.zip_cons_cons, Course.calls, stages_overwriteEach_cons hposition, List.map_cons,
      List.map_cons, pickAt_cons hposition]
    exact congrArg ([⟨.acquire, a⟩, ⟨.release, list.toList[position]⟩] ++ ·) hcalls

theorem run_overwriteEach {positions : List Nat} {items : List α} (hnodup : positions.Nodup)
    (hrange : ∀ position ∈ positions, position < list.toList.length)
    (hlength : positions.length = items.length) :
    (overwriteEachCourse (positions.zip items) list).run none =
      ⟨HookCall.inTurn items (pickAt list.toList positions),
        list.holding (replaceAt list.toList (positions.zip items)), .returned ()⟩ := by
  rw [Course.run, calls_overwriteEach hnodup hrange hlength, state_overwriteEach, Course.ending,
    result_overwriteEach]

/-! ## Sweeping -/

/-- What a sweep keeps in front is what is not to be removed. -/
theorem kept_sweep_eq_removeAt {selection : Selection} {length : Nat}
    (h : selection.Inside length) (items : List α) :
    (sweep items selection).kept.reverse = removeAt items selection.positions := by
  rw [kept_sweep, removeAt]
  refine congrArg (List.map Prod.fst) (List.filter_congr fun entry _ ↦ ?_)
  simp only [← h.selects_iff, decide_not, Bool.decide_eq_true]

/-- What it takes to the back is what is removed, in some order. -/
theorem leaving_sweep_perm {selection : Selection} {items : List α}
    (h : selection.Inside items.length) :
    (sweep items selection).leaving.Perm (pickAt items selection.positions) := by
  refine (leaving_sweep items selection).trans (.trans (.of_eq ?_)
    (picked_perm h.nodup_positions fun _ ↦ h.lt_of_mem_positions))
  refine congrArg (List.map Prod.fst) (List.filter_congr fun entry _ ↦ ?_)
  simp only [← h.selects_iff, Bool.decide_eq_true]

/-! ## Splicing -/

/-- The elements of a list, of which so many from `first` on are replaced. -/
def spliced (list : UniformList α) (first removed : Nat) (items : List α) : List α :=
  list.toList.take first ++ items ++ list.toList.drop (first + removed)

theorem length_spliced (list : UniformList α) (first removed : Nat) (items : List α) :
    (list.spliced first removed items).length = (list.toList.take first).length +
      (list.toList.drop (first + removed)).length + items.length := by
  rw [spliced, List.length_append, List.length_append]
  omega

/-- Replacing elements by none leaves no more of them. -/
theorem length_spliced_nil_le (list : UniformList α) (first removed : Nat) :
    (list.spliced first removed []).length ≤ list.length := by
  rw [length_spliced, List.length_take, List.length_drop, length_toList, List.length_nil]
  omega

variable [Element α]

/-- With room for what is to be left, a splice takes its course. -/
theorem spliceCourse_of_room (h : list.Fits) {first removed : Nat} {items : List α}
    {roomy : UniformList α}
    (hroom : list.roomFor mem (list.spliced first removed items).length = .ok roomy) :
    spliceCourse mem first removed items list =
      ⟨Stage.row .acquire items roomy ++ Stage.row .release
        ((list.toList.drop first).take removed) (roomy.holding (list.toList.take first)),
        roomy.holding (list.spliced first removed items), .ok ()⟩ := by
  have hroomier := roomier_of_roomFor hroom
  have hword : (list.spliced first removed items).length < wordLimit :=
    Nat.lt_of_le_of_lt hroomier.required_le (h.roomier hroomier).capacity_lt
  dsimp only [spliceCourse]
  rw [← length_spliced, if_neg (Nat.not_le.2 hword), hroom]
  rfl

/-- Without it, a splice does nothing, and fails as making room does. -/
theorem spliceCourse_of_refused (h : list.Fits) {first removed : Nat} {items : List α}
    {cause : ListError}
    (hroom : list.roomFor mem (list.spliced first removed items).length = .error cause) :
    ∃ e, e.category = cause.category ∧
      spliceCourse mem first removed items list = .fail list e := by
  dsimp only [spliceCourse]
  rw [← length_spliced]
  split
  · next hlimit =>
    -- more than a word counts is more than a buffer can have
    have hmax := Layout.maxElements_le (Element.isSlot (α := α))
    have hword : maxObjectBytes < wordLimit := by decide
    exact ⟨.countOverflow, (h.category_of_roomFor (by omega) hroom).symm, rfl⟩
  · rw [hroom]
    exact ⟨cause, rfl, rfl⟩

/-- Nothing comes in, so there is room. -/
theorem spliceCourse_nil (h : list.Fits) (first removed : Nat) :
    spliceCourse mem first removed [] list =
      ⟨Stage.row .release ((list.toList.drop first).take removed)
        (list.holding (list.toList.take first)),
        list.holding (list.spliced first removed []), .ok ()⟩ :=
  spliceCourse_of_room h (roomFor_of_le
    (Nat.le_trans (list.length_spliced_nil_le first removed) h.length_le))

/-! ## Assigning -/

variable {slice : Slice} {selection : Selection}

theorem setSliceCourse_of_zero (h : slice.stride = 0) (items : List α) :
    setSliceCourse mem slice items list = .fail list .zeroStep := by
  rw [setSliceCourse, Slice.resolve_eq_error_iff.2 ⟨h, rfl⟩]

theorem setSliceCourse_of_contiguous (h : list.Fits) (hone : slice.stride = 1) (items : List α) :
    setSliceCourse mem slice items list =
      spliceCourse mem (slice.first list.length).toNat (slice.walked list.length).length items
        list := by
  have hlength := h.length_le_max
  obtain ⟨selection, hresolve⟩ := Slice.exists_resolve (by omega : slice.stride ≠ 0) list.length
  rw [setSliceCourse, hresolve, ← (Slice.bounds_of_resolve hlength hresolve hone).1,
    Slice.length_walked hlength hresolve]
  exact if_pos ((Slice.isContiguous_iff hlength hresolve).2 hone)

theorem setSliceCourse_of_stepped (h : list.Fits) (hzero : slice.stride ≠ 0)
    (hone : slice.stride ≠ 1) (items : List α) : setSliceCourse mem slice items list =
      if (slice.walked list.length).length = items.length then
        overwriteEachCourse ((slice.walked list.length).zip items) list
      else .fail list (.lengthMismatch (slice.walked list.length).length items.length) := by
  obtain ⟨selection, hresolve⟩ := Slice.exists_resolve hzero list.length
  rw [setSliceCourse, hresolve, ← Slice.positions_of_resolve h.length_le_max hresolve,
    selection.length_positions]
  exact if_neg (mt (Slice.isContiguous_iff h.length_le_max hresolve).1 hone)

/-- What a slice walks are positions of the list. -/
theorem lt_of_mem_walked (h : list.Fits) (hzero : slice.stride ≠ 0) :
    ∀ position ∈ slice.walked list.length, position < list.toList.length := by
  rw [length_toList]
  exact fun _ ↦ Slice.lt_of_mem_walked h.length_le_max hzero

/-- Each round overwrites an element of the list. -/
theorem lt_of_mem_zip_walked (h : list.Fits) (hzero : slice.stride ≠ 0) (items : List α) :
    ∀ entry ∈ (slice.walked list.length).zip items, entry.1 < list.toList.length :=
  fun _ hmem ↦ lt_of_mem_walked h hzero _ (List.of_mem_zip hmem).1

/-! ## Deleting -/

theorem delSliceCourse_of_zero (h : slice.stride = 0) :
    delSliceCourse mem slice list = .fail list .zeroStep := by
  rw [delSliceCourse, Slice.resolve_eq_error_iff.2 ⟨h, rfl⟩]

/-- Where a deletion is cut off when it releases what it deletes: a contiguous piece is cut off with
all that stands behind it, and of any other slice nothing is left to be cut off. -/
def remnant (list : UniformList α) (slice : Slice) : List α :=
  if slice.stride = 1 then list.toList.take (slice.first list.length).toNat
  else removeAt list.toList (slice.walked list.length)

/-- Deleting a contiguous slice is splicing nothing in. -/
theorem delSliceCourse_of_contiguous (h : list.Fits) (hone : slice.stride = 1) :
    delSliceCourse mem slice list =
      spliceCourse mem (slice.first list.length).toNat (slice.walked list.length).length []
        list := by
  have hlength := h.length_le_max
  obtain ⟨selection, hresolve⟩ := Slice.exists_resolve (by omega : slice.stride ≠ 0) list.length
  rw [Slice.length_walked hlength hresolve, ← (Slice.bounds_of_resolve hlength hresolve hone).1]
  simp only [delSliceCourse, hresolve]
  by_cases hnone : selection.count = 0
  · rw [if_pos hnone, hnone, spliceCourse_nil h, spliced, List.append_nil, Nat.add_zero,
      List.take_append_drop]
    rfl
  · rw [if_neg hnone, if_pos ((Slice.isContiguous_iff hlength hresolve).2 hone),
      selection.position_zero]

/-- **Deleting a slice** is a row of releases, whatever the slice and whatever the allocator. -/
theorem delSliceCourse_eq (h : list.Fits) (hstride : slice.stride ≠ 0) :
    ∃ released : List α, released.Perm (pickAt list.toList (slice.walked list.length)) ∧
      ∀ mem, delSliceCourse mem slice list =
        ⟨Stage.row .release released (list.holding (list.remnant slice)),
          list.holding (removeAt list.toList (slice.walked list.length)), .ok ()⟩ := by
  have hlength := h.length_le_max
  by_cases hone : slice.stride = 1
  · have hadjacent := Slice.walked_eq_range' hlength hone
    refine ⟨(list.toList.drop (slice.first list.length).toNat).take
      (slice.walked list.length).length, ?_, fun mem ↦ ?_⟩
    · rw [← pickAt_range', ← hadjacent]
    · have hmem (position : Nat) : position ∈ slice.walked list.length ↔
          (slice.first list.length).toNat ≤ position ∧ position <
            (slice.first list.length).toNat + (slice.walked list.length).length := by
        rw [← List.mem_range'_1, ← hadjacent]
      rw [delSliceCourse_of_contiguous h hone, spliceCourse_nil h, remnant, if_pos hone, spliced,
        List.append_nil, removeAt_adjacent _ hmem]
  · obtain ⟨selection, hresolve⟩ := Slice.exists_resolve hstride list.length
    have hinside := Slice.inside_of_resolve hlength hresolve
    have hcontiguous := mt (Slice.isContiguous_iff hlength hresolve).1 hone
    rw [remnant, if_neg hone, ← Slice.positions_of_resolve hlength hresolve]
    simp only [delSliceCourse, hresolve, if_neg hcontiguous]
    by_cases hnone : selection.count = 0
    · have hpositions : selection.positions = [] := by
        rw [Selection.positions, hnone, List.range_zero, List.map_nil]
      refine ⟨[], by rw [hpositions]; rfl, fun mem ↦ ?_⟩
      rw [if_pos hnone, hpositions, removeAt_nil]
      rfl
    · have hswept : (sweep list.toList selection).order =
          removeAt list.toList selection.positions ++ (sweep list.toList selection).leaving := by
        rw [Sweep.order_eq, kept_sweep_eq_removeAt hinside]
      have hkept : (sweep list.toList selection).kept.length =
          (removeAt list.toList selection.positions).length := by
        rw [← kept_sweep_eq_removeAt hinside, List.length_reverse]
      refine ⟨(sweep list.toList selection).leaving,
        leaving_sweep_perm (list.length_toList.symm ▸ hinside), fun mem ↦ ?_⟩
      rw [if_neg hnone, shrinkCourse, toList_holding, hswept, hkept, List.take_left, List.drop_left]
      rfl

end UniformList
end ListRuntime
