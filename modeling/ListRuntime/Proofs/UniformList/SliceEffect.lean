import ListRuntime.Proofs.UniformList.Filling
import ListRuntime.Proofs.UniformList.Slicing

/-!
# What reading, deleting and assigning slices does

The full effect of reading a slice, of deleting one and of assigning to one, when all hook calls
return: how the operation ends, the elements and the buffer that it leaves, and the hook calls that
it makes.  Every list that can come up fits its buffer, and no more is asked of a list here.

* `slice_effect`: reading makes a new list of the elements at the selected positions, in the order
  of the slice, if there is memory for it.  `Reads` is what the two ways to fill it come to.
* `delSlice_effect`: whatever the step is, so long as it is not zero, a deletion leaves the elements
  at the other positions and releases those at the selected ones.  It does not ask for memory.
* `setSlice_effect`: with step one a replacement of any length takes the place of a piece of the
  list, if there is room for what comes of it.  With any other step a replacement of just the right
  length is put in, position by position.
-/

set_option autoImplicit false

namespace ListRuntime
namespace UniformList

open ListRuntime.Action Course Sequence

variable {α : Type} {list : UniformList α}

/-! ## Reading -/

/-- A slice picks out the elements at its positions, be it as one piece or one by one. -/
theorem picked_eq_pickAt {selection : Selection} (h : selection.Inside list.length) :
    list.picked selection = pickAt list.toList selection.positions := by
  rw [picked]
  split
  · next hcontiguous => rw [h.positions_eq_range' hcontiguous, pickAt_range']
  · rw [select, pickAt, funext list.items_getElem?]

variable [Element α]

/-- Reading the slice gives these elements.  If there is memory for a buffer of just their number, a
new list of them is made, and each of them is acquired, in order; otherwise nothing is done. -/
def Reads (list : UniformList α) (slice : Slice) (selected : List α) : Prop :=
  ∀ (σ : Type) (mem : Allocator) (s : σ), (list.slice slice).run mem none s =
    match (Buffer.withCapacity (Element.layout α) mem selected.length :
      Except AllocError (Buffer α)) with
    | .ok buffer => ⟨selected.map (⟨.acquire, ·⟩), s,
        .returned ⟨{ buffer with items := selected.toArray }, list.growth⟩⟩
    | .error cause => ⟨[], s, .failed (.allocation cause)⟩

/-- **Reading a slice** gives the elements at the positions that it walks. -/
theorem reads_walked (h : list.Fits) {slice : Slice} (hstride : slice.stride ≠ 0) :
    list.Reads slice (pickAt list.toList (slice.walked list.length)) := by
  intro σ mem s
  obtain ⟨selection, hresolve⟩ := Slice.exists_resolve hstride list.length
  have hinside := Slice.inside_of_resolve h.length_le_max hresolve
  rw [← Slice.positions_of_resolve h.length_le_max hresolve, ← picked_eq_pickAt hinside,
    slice_follows list s slice none, length_picked hinside]
  exact (makesAtOnce_slice list hresolve).run_eq mem

/-- **Reading a slice** fails with step zero.  With any other step it makes a new list of just as
many elements as the slice selects, if there is memory for them, and the `k`-th of them is the one
that stands `k` steps from the start of the selection.  It is of the policy of the list, which is
not touched.  Each of the elements is acquired, in the order of the slice, and nothing else is
called.  It makes no difference that one piece is copied at once and anything else is drawn one by
one. -/
theorem slice_effect (h : list.Fits) (slice : Slice) :
    (slice.stride = 0 → ∀ (σ : Type) (mem : Allocator) (s : σ),
      (list.slice slice).run mem none s = ⟨[], s, .failed .zeroStep⟩) ∧
    (slice.stride ≠ 0 → ∃ (selection : Selection) (selected : List α),
      slice.resolve list.length = .ok selection ∧
      selected.length = selection.count ∧
      (∀ k < selection.count, ∃ position : Nat,
        position = selection.start.toInt + k * selection.step.toInt ∧ position < list.length ∧
          selected[k]? = list.toList[position]?) ∧
      list.Reads slice selected) := by
  have hmax := h.length_le_max
  refine ⟨fun hzero σ mem s ↦ ?_, fun hstride ↦ ?_⟩
  · rw [slice_follows list s slice none, sliceCourse, Slice.resolve_eq_error_iff.2 ⟨hzero, rfl⟩]
    rfl
  · obtain ⟨selection, hresolve⟩ := Slice.exists_resolve hstride list.length
    have hinside := Slice.inside_of_resolve hmax hresolve
    have hreads := reads_walked h hstride
    rw [← Slice.positions_of_resolve hmax hresolve] at hreads
    have hrange : ∀ position ∈ selection.positions, position < list.toList.length := by
      rw [length_toList]
      exact fun _ ↦ hinside.lt_of_mem_positions
    refine ⟨selection, _, hresolve, (length_pickAt hrange).trans selection.length_positions,
      fun k hk ↦ ⟨selection.position k, hinside.position_eq hk, hinside.position_lt hk, ?_⟩, hreads⟩
    rw [getElem?_pickAt hrange (selection.length_positions.symm ▸ hk)]
    simp [Selection.positions]

/-- Every third element backwards from the last but one, of seven; and with no memory, nothing. -/
theorem slice_effect_backwards :
    let list : UniformList Int64 := ⟨⟨#[0, 1, 2, 3, 4, 5, 6], 8⟩, .standard⟩
    let slice : Slice := { start := some (-2), step := some (-3) }
    list.Fits ∧ slice.stride ≠ 0 ∧
      (list.slice slice).run .boundless none () =
        ⟨[⟨.acquire, 5⟩, ⟨.acquire, 2⟩], (), .returned ⟨⟨#[5, 2], 2⟩, .standard⟩⟩ ∧
      (list.slice slice).run ⟨fun _ ↦ false⟩ none () =
        ⟨[], (), .failed (.allocation (.outOfMemory 16))⟩ := by
  intro list slice
  have hfits : list.Fits := ⟨by decide, by decide⟩
  have hstride : slice.stride ≠ 0 := by decide
  obtain ⟨selection, selected, hresolve, hlength, helements, hreads⟩ :=
    (slice_effect hfits slice).2 hstride
  obtain rfl : (⟨5, -1, -3, 2⟩ : Selection) = selection :=
    Except.ok.inj ((by decide +kernel : _ = slice.resolve list.length).trans hresolve)
  obtain ⟨a, b, rfl⟩ := List.length_eq_two.1 hlength
  obtain ⟨first, hfirst, -, ha⟩ := helements 0 (by decide)
  obtain ⟨second, hsecond, -, hb⟩ := helements 1 (by decide)
  obtain rfl : first = 5 := Int.ofNat.inj hfirst
  obtain rfl : second = 2 := Int.ofNat.inj hsecond
  obtain rfl : a = 5 := Option.some.inj ha
  obtain rfl : b = 2 := Option.some.inj hb
  exact ⟨hfits, hstride, hreads Unit .boundless (), hreads Unit ⟨fun _ ↦ false⟩ ()⟩

/-! ## Deletion -/

/-- **Deleting a slice** fails with step zero, and with no other.  Otherwise just the elements at
the positions that the slice does not select are left, in their order and in the same buffer; each
of those that it selects is released, once, and nothing else is called.  The allocator is not asked,
so all this is so whatever it would say. -/
theorem delSlice_effect (h : list.Fits) (slice : Slice) :
    (slice.stride = 0 → ∀ mem,
      (delSlice slice).run mem none list = ⟨[], list, .failed .zeroStep⟩) ∧
    (slice.stride ≠ 0 → ∃ released : List α,
      released.Perm (pickAt list.toList (slice.walked list.length)) ∧
      ∀ mem, (delSlice slice).run mem none list =
        ⟨released.map (⟨.release, ·⟩),
          list.holding (removeAt list.toList (slice.walked list.length)), .returned ()⟩) := by
  refine ⟨fun hzero mem ↦ ?_, fun hstride ↦ ?_⟩
  · rw [delSlice_follows list slice none, delSliceCourse_of_zero hzero]
    rfl
  · obtain ⟨released, hperm, hcourse⟩ := delSliceCourse_eq h hstride
    refine ⟨released, hperm, fun mem ↦ ?_⟩
    rw [delSlice_follows list slice none, hcourse mem, Course.run, Course.calls, map_call_row]
    rfl

/-- Every second element from the back, of seven. -/
theorem delSlice_effect_backwards :
    let list : UniformList Int64 := ⟨⟨#[0, 1, 2, 3, 4, 5, 6], 8⟩, .standard⟩
    let slice : Slice := { step := some (-2) }
    list.Fits ∧ slice.stride ≠ 0 ∧ ∃ released : List Int64, released.Perm [6, 4, 2, 0] ∧
      ∀ mem, (delSlice slice).run mem none list =
        ⟨released.map (⟨.release, ·⟩), list.holding [1, 3, 5], .returned ()⟩ := by
  intro list slice
  have hfits : list.Fits := ⟨by decide, by decide⟩
  have hstride : slice.stride ≠ 0 := by decide
  have hresolve : slice.resolve list.length = .ok ⟨6, -1, -2, 4⟩ := by decide +kernel
  have hwalked : slice.walked list.length = [6, 4, 2, 0] :=
    (Slice.positions_of_resolve hfits.length_le_max hresolve).symm.trans (by decide +kernel)
  obtain ⟨released, hperm, hrun⟩ := (delSlice_effect hfits slice).2 hstride
  rw [hwalked] at hperm hrun
  exact ⟨hfits, hstride, released, hperm, hrun⟩

/-! ## Assignment -/

/-- A splice comes to what making room for its outcome comes to: with the room it is done, and
without it nothing is. -/
theorem run_splice (h : list.Fits) (mem : Allocator) (first removed : Nat) (items : List α) :
    match (ensureCapacity (list.spliced first removed items).length).run mem none list with
      | ⟨_, roomy, .returned ()⟩ => (spliceCourse mem first removed items list).run none =
          ⟨items.map (⟨.acquire, ·⟩) ++
              ((list.toList.drop first).take removed).map (⟨.release, ·⟩),
            roomy.holding (list.spliced first removed items), .returned ()⟩
      | ⟨_, _, .failed cause⟩ => ∃ e, e.category = cause.category ∧
          (spliceCourse mem first removed items list).run none = ⟨[], list, .failed e⟩
      | ⟨_, _, .unwound _⟩ => False := by
  rw [ensureCapacity_follows mem list _ none]
  cases hroom : list.roomFor mem (list.spliced first removed items).length with
  | ok roomy =>
    show (spliceCourse mem first removed items list).run none = _
    rw [spliceCourse_of_room h hroom, Course.run, Course.calls, List.map_append, map_call_row,
      map_call_row]
    rfl
  | error cause =>
    obtain ⟨e, hcategory, hrefused⟩ := spliceCourse_of_refused h hroom
    exact ⟨e, hcategory, by rw [hrefused]; rfl⟩

/-- **Assigning to a slice.**  With step one the elements from where the slice starts are replaced,
as many of them as it selects, if there is room for what comes of it; and otherwise nothing is done.
The elements that come in are acquired, in order, and then those that go are released, in order.
With any other step as many elements must come in as are selected.  Each of them is acquired and
takes its place, and the one that was there is released, before the next one; and nothing else about
the list changes. -/
theorem setSlice_effect (h : list.Fits) {slice : Slice} (hstride : slice.stride ≠ 0)
    (items : List α) :
    ∃ selection, slice.resolve list.length = .ok selection ∧
      (slice.stride = 1 →
        ∃ start : Nat, start = selection.start.toInt ∧ start + selection.count ≤ list.length ∧
          let changed := list.toList.take start ++ items ++
            list.toList.drop (start + selection.count)
          ∀ mem, match (ensureCapacity changed.length).run mem none list with
            | ⟨_, roomy, .returned ()⟩ => (setSlice slice items).run mem none list =
                ⟨items.map (⟨.acquire, ·⟩) ++
                    ((list.toList.drop start).take selection.count).map (⟨.release, ·⟩),
                  roomy.holding changed, .returned ()⟩
            | ⟨_, _, .failed cause⟩ => ∃ e, e.category = cause.category ∧
                (setSlice slice items).run mem none list = ⟨[], list, .failed e⟩
            | ⟨_, _, .unwound _⟩ => False) ∧
      (slice.stride ≠ 1 →
        (selection.count ≠ items.length → ∀ mem, (setSlice slice items).run mem none list =
          ⟨[], list, .failed (.lengthMismatch selection.count items.length)⟩) ∧
        (selection.count = items.length → ∃ changed outgoing : List α,
          ReplacedAt list.toList changed selection.positions items ∧
          outgoing = pickAt list.toList selection.positions ∧ outgoing.length = items.length ∧
          ∀ mem, (setSlice slice items).run mem none list =
            ⟨HookCall.inTurn items outgoing, list.holding changed, .returned ()⟩)) := by
  have hmax := h.length_le_max
  obtain ⟨selection, hresolve⟩ := Slice.exists_resolve hstride list.length
  have hinside := Slice.inside_of_resolve hmax hresolve
  have hwalked := Slice.length_walked hmax hresolve
  have hrun (mem : Allocator) : (setSlice slice items).run mem none list =
      (setSliceCourse mem slice items list).run none := setSlice_follows list slice items none
  refine ⟨selection, hresolve, fun hone ↦ ?_, fun hone ↦ ⟨fun hcount mem ↦ ?_, fun hcount ↦ ?_⟩⟩
  · have hle := Slice.first_add_length_walked_le hmax hone
    refine ⟨_, Slice.toNat_first_of_resolve hmax hresolve hone, hwalked ▸ hle, ?_⟩
    intro changed mem
    rw [hrun, setSliceCourse_of_contiguous h hone, hwalked]
    exact run_splice h mem _ _ items
  · rw [hrun, setSliceCourse_of_stepped h hstride hone, hwalked, if_neg hcount]
    rfl
  · have hlength : selection.positions.length = items.length :=
      selection.length_positions.trans hcount
    have hrange : ∀ position ∈ selection.positions, position < list.toList.length := by
      rw [length_toList]
      exact fun _ ↦ hinside.lt_of_mem_positions
    have hreplaced := replacedAt_replaceAt hinside.nodup_positions hrange hlength
    refine ⟨_, _, hreplaced, rfl, (length_pickAt hrange).trans hlength, fun mem ↦ ?_⟩
    rw [hrun, setSliceCourse_of_stepped h hstride hone, hwalked, if_pos hcount,
      ← Slice.positions_of_resolve hmax hresolve]
    exact run_overwriteEach hinside.nodup_positions hrange hlength

/-- In a list of five with room for more, three elements take the place of two, and the first and
the last change places. -/
theorem setSlice_effect_in_place :
    let list : UniformList Int64 := ⟨⟨#[1, 2, 3, 4, 5], 8⟩, .standard⟩
    let piece : Slice := { start := some 1, stop := some 3 }
    let ends : Slice := { step := some (-4) }
    list.Fits ∧ piece.stride ≠ 0 ∧ ends.stride ≠ 0 ∧
      (∀ mem, (setSlice piece [7, 8, 9]).run mem none list =
        ⟨[⟨.acquire, 7⟩, ⟨.acquire, 8⟩, ⟨.acquire, 9⟩, ⟨.release, 2⟩, ⟨.release, 3⟩],
          list.holding [1, 7, 8, 9, 4, 5], .returned ()⟩) ∧
      ∃ changed : List Int64, ReplacedAt [1, 2, 3, 4, 5] changed [4, 0] [1, 5] ∧
        ∀ mem, (setSlice ends [1, 5]).run mem none list =
          ⟨[⟨.acquire, 1⟩, ⟨.release, 5⟩, ⟨.acquire, 5⟩, ⟨.release, 1⟩], list.holding changed,
            .returned ()⟩ := by
  intro list piece ends
  have hfits : list.Fits := ⟨by decide, by decide⟩
  have hpiece : piece.stride ≠ 0 := by decide
  have hends : ends.stride ≠ 0 := by decide
  have hroom (mem : Allocator) {n : Nat} (hn : n ≤ 8) :
      (ensureCapacity n).run mem none list = ⟨[], list, .returned ()⟩ := by
    rw [ensureCapacity_follows mem list n none, roomFor_of_le hn]
    rfl
  obtain ⟨one, hone, hspliced, -⟩ := setSlice_effect hfits hpiece [7, 8, 9]
  obtain ⟨start, hstart, -, hspliced⟩ := hspliced rfl
  obtain rfl : (⟨1, 3, 1, 2⟩ : Selection) = one :=
    Except.ok.inj ((by decide +kernel : _ = piece.resolve list.length).trans hone)
  obtain rfl : 1 = start := Int.ofNat.inj hstart.symm
  obtain ⟨two, htwo, -, hreplaced⟩ := setSlice_effect hfits hends [1, 5]
  obtain rfl : (⟨4, -1, -4, 2⟩ : Selection) = two :=
    Except.ok.inj ((by decide +kernel : _ = ends.resolve list.length).trans htwo)
  obtain ⟨changed, outgoing, hchanged, rfl, -, hrun⟩ := (hreplaced (by decide)).2 rfl
  refine ⟨hfits, hpiece, hends, fun mem ↦ ?_, changed, hchanged, hrun⟩
  have hrun := hspliced mem
  dsimp only at hrun
  rw [hroom mem (by decide)] at hrun
  exact hrun

end UniformList
end ListRuntime
