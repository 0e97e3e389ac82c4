import ListRuntime.Proofs.UniformList.SliceEffect

/-!
# Reading and assigning slices together

Reading a slice and assigning to it go different ways through a list: one piece copied, or elements
drawn one by one; a splice, or elements overwritten one by one.  Still they fit together as looking
at a place and putting something there.

* `Assigns` is an assignment that succeeds.  `assigns_iff` says for all steps but one when it does:
  the list changes just at the positions of the slice.  `spliced_of_assigns` is about step one.
* `slice_lens` are the laws: what was read can be put back, what was put in is read, and the later
  of two assignments counts.

With step one the list may change its length, and the slice then selects something else.  What was
put in is found where the slice started.
-/

set_option autoImplicit false

namespace ListRuntime
namespace UniformList

open ListRuntime.Action Course Sequence

variable {α σ : Type} [Element α] {mem : Allocator} {list changed : UniformList α} {slice : Slice}
variable {items : List α}

/-- Assigning elements to a slice of a list succeeds, and turns the list into `changed`. -/
def Assigns (mem : Allocator) (slice : Slice) (items : List α) (list changed : UniformList α) :
    Prop :=
  ∃ calls, (setSlice slice items).run mem none list = ⟨calls, changed, .returned ()⟩

/-! ## What is read -/

/-- A list that was made by reading holds what the slice walks. -/
theorem toList_of_slice (h : list.Fits) (hstride : slice.stride ≠ 0) {s : σ} {made : UniformList α}
    (hmade : ((list.slice slice).run mem none s).ending = .returned made) :
    made.toList = pickAt list.toList (slice.walked list.length) := by
  rw [reads_walked h hstride σ mem s] at hmade
  split at hmade
  · cases hmade
    rfl
  · cases hmade

/-! ## Step one -/

/-- With step one an assignment is a splice. -/
theorem spliced_of_assigns (h : list.Fits) (hone : slice.stride = 1)
    (hassigns : Assigns mem slice items list changed) :
    changed.toList =
      list.spliced (slice.first list.length).toNat (slice.walked list.length).length items := by
  obtain ⟨calls, hrun⟩ := hassigns
  rw [setSlice_follows list slice items none, setSliceCourse_of_contiguous h hone] at hrun
  cases hroom : list.roomFor mem (list.spliced (slice.first list.length).toNat
      (slice.walked list.length).length items).length with
  | ok roomy =>
    rw [spliceCourse_of_room h hroom] at hrun
    cases hrun
    rfl
  | error cause =>
    obtain ⟨e, -, hrefused⟩ := spliceCourse_of_refused h hroom
    rw [hrefused] at hrun
    cases congrArg Run.ending hrun

/-- The piece that the slice selects fits where it was. -/
theorem assigns_piece (h : list.Fits) (hone : slice.stride = 1) (mem : Allocator) :
    Assigns mem slice (pickAt list.toList (slice.walked list.length)) list list := by
  have hmax := h.length_le_max
  let start := (slice.first list.length).toNat
  let count := (slice.walked list.length).length
  have hpiece : pickAt list.toList (slice.walked list.length) =
      (list.toList.drop start).take count := by
    rw [Slice.walked_eq_range' hmax hone, pickAt_range']
  have hsame : list.spliced start count ((list.toList.drop start).take count) = list.toList := by
    rw [spliced, List.append_assoc, ← List.drop_drop, List.take_append_drop, List.take_append_drop]
  have hroom : list.roomFor mem
      (list.spliced start count ((list.toList.drop start).take count)).length = .ok list :=
    roomFor_of_le (by rw [hsame, length_toList]; exact h.length_le)
  rw [hpiece, Assigns, setSlice_follows list slice _ none, setSliceCourse_of_contiguous h hone,
    spliceCourse_of_room h hroom, hsame]
  exact ⟨_, rfl⟩

/-! ## Any other step -/

/-- **With any other step, an assignment succeeds exactly if the lengths agree**, and it changes the
list just at the positions of the slice. -/
theorem assigns_iff (h : list.Fits) (hstride : slice.stride ≠ 0) (hone : slice.stride ≠ 1) :
    Assigns mem slice items list changed ↔
      (slice.walked list.length).length = items.length ∧ changed = list.holding changed.toList ∧
        ReplacedAt list.toList changed.toList (slice.walked list.length) items := by
  have hnodup := Slice.nodup_walked h.length_le_max hstride
  have hrange := lt_of_mem_walked h hstride
  have hrun : (setSlice slice items).run mem none list =
      (setSliceCourse mem slice items list).run none := setSlice_follows list slice items none
  rw [setSliceCourse_of_stepped h hstride hone] at hrun
  rw [Assigns, hrun]
  by_cases hlength : (slice.walked list.length).length = items.length
  · have hreplaced := replacedAt_replaceAt hnodup hrange hlength
    rw [if_pos hlength, run_overwriteEach hnodup hrange hlength]
    constructor
    · rintro ⟨calls, heq⟩
      cases heq
      exact ⟨hlength, rfl, hreplaced⟩
    · rintro ⟨-, hholding, hchanged⟩
      rw [hholding, hchanged.unique hreplaced]
      exact ⟨_, rfl⟩
  · rw [if_neg hlength]
    refine iff_of_false ?_ fun h' ↦ hlength h'.1
    rintro ⟨calls, heq⟩
    cases congrArg Run.ending heq

/-- The list that is left is as long as before. -/
theorem length_of_assigns (h : list.Fits) (hstride : slice.stride ≠ 0) (hone : slice.stride ≠ 1)
    (hassigns : Assigns mem slice items list changed) :
    changed.length = list.length ∧ changed.Fits := by
  obtain ⟨-, hholding, hreplaced⟩ := (assigns_iff h hstride hone).1 hassigns
  have hlength : changed.length = list.length := by
    rw [← length_toList, ← length_toList, hreplaced.length_eq]
  rw [hholding]
  exact ⟨hlength, h.holding (by rw [length_toList, hlength])⟩

/-! ## The laws -/

/-- What was read can be put back. -/
theorem assigns_read (h : list.Fits) (hstride : slice.stride ≠ 0) {s : σ} {made : UniformList α}
    (hmade : ((list.slice slice).run mem none s).ending = .returned made) (mem' : Allocator) :
    Assigns mem' slice made.toList list list := by
  rw [toList_of_slice h hstride hmade]
  by_cases hone : slice.stride = 1
  · exact assigns_piece h hone mem'
  · have hrange := lt_of_mem_walked h hstride
    exact (assigns_iff h hstride hone).2
      ⟨(length_pickAt hrange).symm, rfl, replacedAt_pickAt hrange⟩

/-- What was put in is read. -/
theorem reads_of_assigns (h : list.Fits) (hstride : slice.stride ≠ 0) (hone : slice.stride ≠ 1)
    (hassigns : Assigns mem slice items list changed) : changed.Reads slice items := by
  obtain ⟨hlength, hfits⟩ := length_of_assigns h hstride hone hassigns
  obtain ⟨hcount, -, hreplaced⟩ := (assigns_iff h hstride hone).1 hassigns
  have hreads := reads_walked hfits hstride
  rwa [hlength, hreplaced.pickAt_eq (lt_of_mem_walked h hstride) hcount] at hreads

/-- With step one it stands where the slice started. -/
theorem drop_of_assigns (h : list.Fits) (hone : slice.stride = 1)
    (hassigns : Assigns mem slice items list changed) :
    (changed.toList.drop (slice.first list.length).toNat).take items.length = items := by
  have hle := Slice.first_add_length_walked_le h.length_le_max hone
  have hstart : (list.toList.take (slice.first list.length).toNat).length =
      (slice.first list.length).toNat := by
    rw [List.length_take, length_toList]
    omega
  rw [spliced_of_assigns h hone hassigns, spliced, List.append_assoc, List.drop_left' hstart,
    List.take_left]

/-- The later assignment counts. -/
theorem Assigns.trans {second : List α} {between : UniformList α} {mem' : Allocator}
    (h : list.Fits) (hstride : slice.stride ≠ 0) (hone : slice.stride ≠ 1)
    (hfirst : Assigns mem slice items list between)
    (hsecond : Assigns mem' slice second between changed) (mem'' : Allocator) :
    Assigns mem'' slice second list changed := by
  obtain ⟨hlength, hfits⟩ := length_of_assigns h hstride hone hfirst
  obtain ⟨-, hbetween, hreplaced⟩ := (assigns_iff h hstride hone).1 hfirst
  obtain ⟨hcount, hchanged, hreplaced'⟩ := (assigns_iff hfits hstride hone).1 hsecond
  rw [hlength] at hcount hreplaced'
  rw [hbetween] at hchanged
  exact (assigns_iff h hstride hone).2 ⟨hcount, hchanged, hreplaced.trans hreplaced'⟩

/-- **Reading a slice and assigning to it obey the laws of looking at a place and putting something
there**, for every step but zero, wherever the bounds lie.

What was read can be put back: that succeeds even without any memory, and it leaves the list as it
was, elements, capacity and all.  What was put in is read: with any step but one, whenever an
assignment succeeds, reading the slice afterwards gives just what was assigned; with step one, that
stands where the slice started.  The later assignment counts: with any step but one, two that
succeed leave what the second leaves on its own. -/
theorem slice_lens (h : list.Fits) (hstride : slice.stride ≠ 0) :
    (∀ (σ : Type) (mem mem' : Allocator) (s : σ) (made : UniformList α),
      ((list.slice slice).run mem none s).ending = .returned made →
      Assigns mem' slice made.toList list list) ∧
    (slice.stride ≠ 1 → ∀ mem items changed, Assigns mem slice items list changed →
      changed.Reads slice items) ∧
    (slice.stride = 1 → ∃ (selection : Selection) (start : Nat),
      slice.resolve list.length = .ok selection ∧ start = selection.start.toInt ∧
      ∀ mem items changed, Assigns mem slice items list changed →
        (changed.toList.drop start).take items.length = items) ∧
    (slice.stride ≠ 1 → ∀ mem mem' mem'' first second between changed,
      Assigns mem slice first list between → Assigns mem' slice second between changed →
      Assigns mem'' slice second list changed) := by
  refine ⟨fun σ mem mem' s made hmade ↦ assigns_read h hstride hmade mem',
    fun hone mem items changed hassigns ↦ reads_of_assigns h hstride hone hassigns,
    fun hone ↦ ?_, fun hone mem mem' mem'' first second between changed hfirst hsecond ↦
      hfirst.trans h hstride hone hsecond mem''⟩
  obtain ⟨selection, hresolve⟩ := Slice.exists_resolve hstride list.length
  exact ⟨selection, _, hresolve, Slice.toNat_first_of_resolve h.length_le_max hresolve hone,
    fun mem items changed hassigns ↦ drop_of_assigns h hone hassigns⟩

/-- Every second element of five, backwards: what is there is put back without any memory, and of
two assignments the second is read.  And where three elements took the place of two, they are
found. -/
theorem slice_lens_in_place :
    let list : UniformList Int64 := ⟨⟨#[1, 2, 3, 4, 5], 8⟩, .standard⟩
    let changed := list.holding [9, 2, 8, 4, 7]
    let longer := list.holding [1, 7, 8, 9, 4, 5]
    let stingy : Allocator := ⟨fun _ ↦ false⟩
    let backwards : Slice := { step := some (-2) }
    let piece : Slice := { start := some 1, stop := some 3 }
    Assigns stingy backwards [5, 3, 1] list list ∧
      Assigns stingy backwards [7, 8, 9] list changed ∧ changed.Reads backwards [7, 8, 9] ∧
      Assigns stingy piece [7, 8, 9] list longer ∧ (longer.toList.drop 1).take 3 = [7, 8, 9] := by
  intro list changed longer stingy backwards piece
  have hfits : list.Fits := ⟨by decide, by decide⟩
  have hlength : list.length = 5 := rfl
  have hbackwards : backwards.resolve 5 = .ok ⟨4, -1, -2, 3⟩ := by decide +kernel
  have hpiece : piece.resolve 5 = .ok ⟨1, 3, 1, 2⟩ := by decide +kernel
  have hwalked : backwards.walked 5 = [4, 2, 0] :=
    (Slice.positions_of_resolve (by decide) hbackwards).symm.trans (by decide +kernel)
  have hread : ((list.slice backwards).run .boundless none ()).ending =
      .returned ⟨⟨#[5, 3, 1], 3⟩, .standard⟩ := by
    rw [reads_walked hfits (by decide) Unit .boundless (), hlength, hwalked]
    rfl
  have hassigns {before : UniformList Int64} (hbefore : before.Fits)
      (hlength : before.length = 5) {items : List Int64} (hitems : items.length = 3) :
      Assigns stingy backwards items before
        (before.holding (replaceAt before.toList ([4, 2, 0].zip items))) := by
    refine (assigns_iff hbefore (by decide) (by decide)).2 ⟨?_, rfl, ?_⟩
    all_goals rw [hlength, hwalked]
    · exact hitems.symm
    · refine replacedAt_replaceAt (by decide) ?_ hitems.symm
      rw [length_toList, hlength]
      decide
  have hfirst : Assigns stingy backwards [0, 0, 0] list (list.holding [0, 2, 0, 4, 0]) :=
    hassigns hfits rfl rfl
  have hsecond : Assigns stingy backwards [7, 8, 9] (list.holding [0, 2, 0, 4, 0]) changed :=
    hassigns ⟨by decide, by decide⟩ rfl rfl
  have hspliced : Assigns stingy piece [7, 8, 9] list longer := by
    rw [Assigns, setSlice_follows list piece _ none, setSliceCourse, hlength, hpiece]
    exact ⟨_, rfl⟩
  obtain ⟨hputBack, hreads, -, hlater⟩ := slice_lens hfits (by decide : backwards.stride ≠ 0)
  obtain ⟨-, -, hfound, -⟩ := slice_lens hfits (by decide : piece.stride ≠ 0)
  obtain ⟨selection, start, hresolve, hstart, hfound⟩ := hfound rfl
  obtain rfl : (⟨1, 3, 1, 2⟩ : Selection) = selection := Except.ok.inj (hpiece.symm.trans hresolve)
  obtain rfl : start = 1 := Int.ofNat.inj hstart
  have hagain := hlater (by decide) stingy stingy stingy [0, 0, 0] [7, 8, 9] _ changed hfirst
    hsecond
  have hputBack := hputBack Unit .boundless stingy () _ hread
  have hreads := hreads (by decide) stingy [7, 8, 9] changed hagain
  have hfound := hfound stingy [7, 8, 9] longer hspliced
  exact ⟨hputBack, hagain, hreads, hspliced, hfound⟩

end UniformList
end ListRuntime
