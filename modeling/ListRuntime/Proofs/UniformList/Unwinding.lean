import ListRuntime.Proofs.UniformList.Failure
import ListRuntime.Proofs.UniformList.Slicing

/-!
# What an unwinding leaves behind

Any hook call may unwind out of an operation.  The list stays behind with elements that depend on
the order in which the operation writes its slots, sets its length and calls its hooks.  This file
says which elements these are, for every operation and every one of its calls.

* `Operation.leftover` are the elements.  They depend on which of the two hooks unwinds, and on how
  many calls of it have returned before.
* `Stage.CutShort` says that the stages of a course leave what a function of these two says, and
  make no further calls.  A row of calls leaves the same wherever it is cut short; the two loops,
  over the positions of a slice and over an iterator, leave one element more with every round.
* `Operation.unwound_leaves`: every operation leaves its `leftover`.
-/

set_option autoImplicit false

namespace ListRuntime

open ListRuntime.Action Course Sequence

variable {α : Type}

/-! ## Stages that are cut short -/

namespace Stage

/-- The stages make no further calls when they unwind, and leave the elements that `left` says of
the hook that does so and of the number of its calls that have returned. -/
def CutShort (left : Hook → Nat → List α) (stages : List (Stage α (UniformList α))) : Prop :=
  ∀ k (hk : k < stages.length), stages[k].cleanup = [] ∧ stages[k].state.toList =
    left stages[k].call.hook
      (((stages.map Stage.call).take k).countP fun call ↦ call.hook = stages[k].call.hook)

/-- The stage leaves what `left` says, and it does not matter how many calls have returned. -/
def Steady (left : Hook → Nat → List α) (stage : Stage α (UniformList α)) : Prop :=
  stage.cleanup = [] ∧ ∀ n, stage.state.toList = left stage.call.hook n

variable {left : Hook → Nat → List α} {stage : Stage α (UniformList α)}
  {stages more : List (Stage α (UniformList α))}

theorem cutShort_nil : CutShort left [] := fun _ hk ↦ absurd hk (Nat.not_lt_zero _)

/-- Once a call has returned, there is one more of its hook that has. -/
theorem CutShort.cons {next : Hook → Nat → List α} {hook : Hook} {a : α} {list : UniformList α}
    (hlist : list.toList = left hook 0)
    (hnext : ∀ other n, next other n = left other (if hook = other then n + 1 else n))
    (h : CutShort next stages) : CutShort left (⟨⟨hook, a⟩, list, []⟩ :: stages) := by
  intro k hk
  cases k with
  | zero => exact ⟨rfl, hlist⟩
  | succ k =>
    obtain ⟨hcleanup, hstate⟩ := h k (Nat.lt_of_succ_lt_succ hk)
    refine ⟨hcleanup, (hstate.trans (hnext _ _)).trans ?_⟩
    rw [List.map_cons, List.take_succ_cons, List.countP_cons, List.getElem_cons_succ]
    simp only [decide_eq_true_eq]
    split <;> rfl

/-- Steady stages may come after any others. -/
theorem CutShort.append (h : CutShort left stages) (hmore : ∀ stage ∈ more, Steady left stage) :
    CutShort left (stages ++ more) := by
  intro k hk
  rcases Nat.lt_or_ge k stages.length with hlt | hge
  · have hget : (stages ++ more)[k] = stages[k] := List.getElem_append_left hlt
    have htake : ((stages ++ more).map Stage.call).take k = (stages.map Stage.call).take k := by
      rw [List.map_append, List.take_append_of_le_length (by simpa using Nat.le_of_lt hlt)]
    rw [hget, htake]
    exact h k hlt
  · have hget : (stages ++ more)[k] ∈ more := by
      rw [List.getElem_append_right hge]
      exact List.getElem_mem _
    exact ⟨(hmore _ hget).1, (hmore _ hget).2 _⟩

theorem cutShort_of_steady (h : ∀ stage ∈ stages, Steady left stage) : CutShort left stages :=
  cutShort_nil.append h

/-- Calls in a row are steady. -/
theorem steady_of_mem_row {hook : Hook} {items : List α} {list : UniformList α}
    (h : ∀ n, list.toList = left hook n) :
    ∀ stage ∈ Stage.row hook items list, Steady left stage := by
  intro stage hmem
  obtain ⟨a, -, rfl⟩ := List.mem_map.1 hmem
  exact ⟨rfl, h⟩

/-- Acquires in a row, and then releases in a row. -/
theorem cutShort_exchange (incoming outgoing : List α) {before between : UniformList α}
    (hbefore : ∀ n, before.toList = left .acquire n)
    (hbetween : ∀ n, between.toList = left .release n) :
    CutShort left (Stage.row .acquire incoming before ++ Stage.row .release outgoing between) :=
  (cutShort_of_steady (steady_of_mem_row hbefore)).append (steady_of_mem_row hbetween)

/-- A call that unwinds is the last one. -/
theorem CutShort.run {β : Type} {course : Course α (UniformList α) β}
    (h : CutShort left course.stages) {k : Nat} (hk : k < course.calls.length) :
    ∃ list, course.run (some k) =
        ⟨course.calls.take (k + 1), list, .unwound course.calls[k]⟩ ∧
      list.toList = left course.calls[k].hook
        ((course.calls.take k).countP fun earlier ↦ earlier.hook = course.calls[k].hook) := by
  have hstage : k < course.stages.length := length_calls course ▸ hk
  have hcall : course.calls[k] = course.stages[k].call := List.getElem_map _
  obtain ⟨hcleanup, hstate⟩ := h k hstage
  refine ⟨course.stages[k].state, ?_, ?_⟩
  · rw [Course.run_of_lt _ hstage, hcleanup, List.append_nil, hcall]
  · rw [hcall]
    exact hstate

/-- Whatever unwinds, the calls up to then are those that are made in any case. -/
theorem CutShort.calls_run {β : Type} {course : Course α (UniformList α) β}
    (h : CutShort left course.stages) (mishap : Mishap) :
    (course.run mishap).calls <+: course.calls := by
  rcases mishap.spares_or_strikes course.stages.length with hspared | ⟨k, hk, rfl⟩
  · have hrun := run_of_spares course hspared
    exact hrun ▸ List.prefix_refl course.calls
  · obtain ⟨list, hrun, -⟩ := h.run ((length_calls course).symm ▸ hk)
    rw [hrun]
    exact List.take_prefix _ _

end Stage

namespace UniformList

open Stage

/-! ## What is left -/

/-- The elements from before until something is released, and those that stay from then on. -/
def beforeOrAfter (items complete : List α) : Hook → Nat → List α
  | .acquire, _ => items
  | .release, _ => complete

/-- What is left of replacing elements one after the other: the replacements of the rounds that are
over, and that of the round under way once it has come to the release. -/
def replacedBefore (items : List α) (entries : List (Nat × α)) : Hook → Nat → List α
  | .acquire, n => replaceAt items (entries.take n)
  | .release, n => replaceAt items (entries.take (n + 1))

/-- What is left of appending what an iterator yields: that which has been yielded.  What is
released again has been cut off before. -/
def appendedBefore (items complete : List α) (yielded : List (Except ListError α)) :
    Hook → Nat → List α
  | .acquire, n => items ++ (yielded.take n).filterMap Except.toOption
  | .release, _ => complete

/-- The elements that an operation leaves if a call of a hook unwinds out of it, of which so many
calls have returned: `items` are the elements from before, and `complete` are those that the
operation leaves otherwise. -/
def Operation.leftover (items complete : List α) : Operation α (List α) → Hook → Nat → List α
  | extend incoming _ => appendedBefore items complete (incoming.map .ok)
  | tryExtend yielded _ => appendedBefore items complete yielded
  | setSlice slice incoming =>
    if slice.stride = 1 then beforeOrAfter items (items.take (slice.first items.length).toNat)
    else replacedBefore items ((slice.walked items.length).zip incoming)
  | delSlice slice =>
    beforeOrAfter items
      (if slice.stride = 1 then items.take (slice.first items.length).toNat else complete)
  | _ => beforeOrAfter items complete

/-! ## Rows -/

variable {list : UniformList α}

theorem cutShort_overwrite (position : Nat) (a : α) (list : UniformList α) :
    CutShort (beforeOrAfter list.toList (overwriteCourse position a list).state.toList)
      (overwriteCourse position a list).stages :=
  cutShort_exchange [a] _ (fun _ ↦ rfl) fun _ ↦ rfl

theorem cutShort_withdraw (position : Nat) (list : UniformList α) :
    CutShort (beforeOrAfter list.toList (withdrawCourse position list).state.toList)
      (withdrawCourse position list).stages :=
  cutShort_of_steady (steady_of_mem_row fun _ ↦ rfl)

theorem cutShort_shrink (n : Nat) (list : UniformList α) :
    CutShort (beforeOrAfter list.toList (shrinkCourse n list).state.toList)
      (shrinkCourse n list).stages :=
  cutShort_of_steady (steady_of_mem_row fun _ ↦ rfl)

theorem cutShort_atIndex {course : Nat → UniformList α → Course α (UniformList α) Unit}
    (h : ∀ position, CutShort (beforeOrAfter list.toList (course position list).state.toList)
      (course position list).stages) (index : Int64) :
    CutShort (beforeOrAfter list.toList (atIndex index course list).state.toList)
      (atIndex index course list).stages := by
  rw [atIndex]
  split
  · exact h _
  · exact cutShort_nil

theorem cutShort_remove (test : α → Bool) (list : UniformList α) :
    CutShort (beforeOrAfter list.toList (removeCourse test list).state.toList)
      (removeCourse test list).stages := by
  rw [removeCourse]
  split
  · exact cutShort_withdraw _ list
  · exact cutShort_nil

/-- Handing an element over calls no hook. -/
theorem stages_pop (index : Option Int64) (list : UniformList α) :
    (popCourse index list).stages = [] := by
  rw [popCourse]
  split
  · rfl
  · split <;> rfl

/-! ## Loops -/

theorem cutShort_overwriteEach {entries : List (Nat × α)}
    (hrange : ∀ entry ∈ entries, entry.1 < list.toList.length) :
    CutShort (replacedBefore list.toList entries) (overwriteEachCourse entries list).stages := by
  induction entries generalizing list with
  | nil => exact cutShort_nil
  | cons entry entries ih =>
    obtain ⟨hentry, hrange⟩ := List.forall_mem_cons.1 hrange
    let changed := list.holding (list.toList.set entry.1 entry.2)
    have hrest : CutShort (replacedBefore changed.toList entries)
        (overwriteEachCourse entries changed).stages := by
      refine ih fun other hmem ↦ ?_
      rw [toList_holding, List.length_set]
      exact hrange other hmem
    -- when a round is over, one more call of either hook has returned
    rw [stages_overwriteEach_cons hentry]
    refine .cons rfl (fun _ _ ↦ rfl) (.cons rfl (fun hook n ↦ ?_) hrest)
    cases hook <;> rfl

variable [Element α] {mem : Allocator}

theorem cutShort_forEach_yield (complete : List α) (yielded : List (Except ListError α))
    (list : UniformList α) : CutShort (appendedBefore list.toList complete yielded)
      (Course.forEach (yieldCourse mem) yielded list).stages := by
  induction yielded generalizing list with
  | nil => exact cutShort_nil
  | cons item yielded ih =>
    rw [Course.forEach]
    cases item with
    | error e => exact cutShort_nil
    | ok a =>
      rw [yieldCourse, extendCourse, storeCourse]
      cases hroom : list.roomForMore mem [a].length with
      | error e => exact cutShort_nil
      | ok roomy =>
        have hroomy : roomy.toList = list.toList := (roomier_of_roomForMore hroom).toList_eq
        have hrest := ih (roomy.holding (roomy.toList ++ [a]))
        refine CutShort.cons (hroomy.trans (List.append_nil _).symm) (fun hook n ↦ ?_) hrest
        cases hook with
        | acquire =>
          show roomy.toList ++ [a] ++ _ = _
          rw [hroomy, List.append_assoc]
          rfl
        | release => rfl

theorem cutShort_tryExtend (hint : Nat) (yielded : List (Except ListError α)) :
    CutShort
      (appendedBefore list.toList (tryExtendCourse mem hint yielded list).state.toList yielded)
      (tryExtendCourse mem hint yielded list).stages := by
  have happended (complete : List α) : CutShort (appendedBefore list.toList complete yielded)
      (appendYieldedCourse mem hint yielded list).stages := by
    rw [appendYieldedCourse]
    cases hroom : list.roomForMore mem hint with
    | error e => exact cutShort_nil
    | ok roomy =>
      rw [← (roomier_of_roomForMore hroom).toList_eq]
      exact cutShort_forEach_yield complete yielded roomy
  cases hresult : (appendYieldedCourse mem hint yielded list).result with
  | ok b =>
    rw [tryExtendCourse_of_ok hresult]
    exact happended _
  | error e =>
    -- after a failure what was appended is released in one row
    rw [tryExtendCourse_of_error hresult]
    refine (happended _).append fun stage hmem ↦ ?_
    rcases List.mem_append.1 hmem with hmem | hmem
    · exact steady_of_mem_row (fun _ ↦ rfl) stage hmem
    · cases hmem

/-! ## Operations that make room, and slices -/

theorem cutShort_store (items complete : List α) (put : UniformList α → List α) :
    CutShort (beforeOrAfter list.toList complete) (storeCourse mem items put list).stages := by
  rw [storeCourse]
  cases hroom : list.roomForMore mem items.length with
  | ok roomy =>
    exact cutShort_of_steady (steady_of_mem_row fun _ ↦ (roomier_of_roomForMore hroom).toList_eq)
  | error e => exact cutShort_nil

/-- Making room calls no hook. -/
theorem stages_room (required : Nat) :
    (afterRoom list (list.roomFor mem required) (.done · ())).stages = [] := by
  cases list.roomFor mem required <;> rfl

theorem cutShort_splice (h : list.Fits) (first removed : Nat) (items : List α) :
    CutShort (beforeOrAfter list.toList (list.toList.take first))
      (spliceCourse mem first removed items list).stages := by
  cases hroom : list.roomFor mem (list.spliced first removed items).length with
  | ok roomy =>
    rw [spliceCourse_of_room h hroom]
    exact cutShort_exchange _ _ (fun _ ↦ (roomier_of_roomFor hroom).toList_eq) fun _ ↦ rfl
  | error cause =>
    obtain ⟨e, -, hrefused⟩ := spliceCourse_of_refused h hroom
    rw [hrefused]
    exact cutShort_nil

theorem cutShort_setSlice (h : list.Fits) (slice : Slice) (items complete : List α) :
    CutShort ((Operation.setSlice slice items).leftover list.toList complete)
      (setSliceCourse mem slice items list).stages := by
  by_cases hzero : slice.stride = 0
  · rw [setSliceCourse_of_zero hzero]
    exact cutShort_nil
  · rw [Operation.leftover, length_toList]
    by_cases hone : slice.stride = 1
    · rw [if_pos hone, setSliceCourse_of_contiguous h hone]
      exact cutShort_splice h _ _ items
    · rw [if_neg hone, setSliceCourse_of_stepped h hzero hone]
      split
      · exact cutShort_overwriteEach (lt_of_mem_zip_walked h hzero items)
      · exact cutShort_nil

theorem cutShort_delSlice (h : list.Fits) (slice : Slice) :
    CutShort ((Operation.delSlice slice).leftover list.toList
      (delSliceCourse mem slice list).state.toList) (delSliceCourse mem slice list).stages := by
  by_cases hzero : slice.stride = 0
  · rw [delSliceCourse_of_zero hzero]
    exact cutShort_nil
  · obtain ⟨released, -, hcourse⟩ := delSliceCourse_eq h hzero
    rw [hcourse, Operation.leftover, length_toList]
    exact cutShort_of_steady (steady_of_mem_row fun _ ↦ rfl)

/-! ## All operations -/

theorem Operation.cutShort (h : list.Fits) (operation : Operation α (List α)) :
    CutShort (operation.leftover list.toList (operation.course mem list).state.toList)
      (operation.course mem list).stages := by
  cases operation with
  | read _ | contains _ | count _ | index _ _ _ | equal _ | elements | text | summary
  | reverse => exact cutShort_nil
  | assign i a => exact cutShort_atIndex (cutShort_overwrite · a list) i
  | delete i => exact cutShort_atIndex (cutShort_withdraw · list) i
  | remove a => exact cutShort_remove _ list
  | clear => exact cutShort_shrink 0 list
  | shrinkTo n => exact cutShort_shrink n list
  | pop i =>
    have hstages : ((Operation.pop i).course mem list).stages = [] := stages_pop i list
    rw [hstages]
    exact cutShort_nil
  | ensureCapacity required =>
    have hstages : ((Operation.ensureCapacity required).course mem list).stages = [] :=
      stages_room required
    rw [hstages]
    exact cutShort_nil
  | append a => exact cutShort_store [a] _ _
  | insert position a => exact cutShort_store [a] _ _
  | extendSelf => exact cutShort_store list.toList _ _
  | extendFromList items => exact cutShort_store items _ _
  | extend items hint => exact cutShort_tryExtend _ _
  | tryExtend yielded hint => exact cutShort_tryExtend _ yielded
  | setSlice slice items => exact cutShort_setSlice h slice items _
  | delSlice slice => exact cutShort_delSlice h slice

/-- **Whichever hook call unwinds, the elements that are left are known.**  It is the last call, and
the elements are those that `Operation.leftover` says of its hook, given how many calls of that hook
there were before it and the elements that are left if no call unwinds. -/
theorem Operation.unwound_leaves (h : list.Fits) (mem : Allocator)
    (operation : Operation α (List α)) :
    let complete := operation.action.run mem none list
    ∀ k (hk : k < complete.calls.length),
      let call := complete.calls[k]
      let before := (complete.calls.take k).countP fun earlier ↦ earlier.hook = call.hook
      ∃ left : UniformList α,
        operation.action.run mem (some k) list =
          ⟨complete.calls.take (k + 1), left, .unwound call⟩ ∧
        left.toList = operation.leftover list.toList complete.state.toList call.hook before := by
  rw [operation.action_follows list none]
  intro complete k hk
  rw [operation.action_follows list (some k)]
  exact (operation.cutShort h).run hk

/-- Four elements are replaced from the back, and the second release unwinds: two of those that come
in are in their places, and the other two are not. -/
theorem Operation.unwound_leaves_midway :
    let list : UniformList Int64 := ⟨⟨#[1, 2, 3, 4], 4⟩, .standard⟩
    let operation : Operation Int64 (List Int64) := .setSlice { step := some (-1) } [5, 6, 7, 8]
    list.Fits ∧ 3 < (operation.action.run .boundless none list).calls.length ∧
      ∃ left : UniformList Int64, operation.action.run .boundless (some 3) list =
          ⟨[⟨.acquire, 5⟩, ⟨.release, 4⟩, ⟨.acquire, 6⟩, ⟨.release, 3⟩], left,
            .unwound ⟨.release, 3⟩⟩ ∧
        left.toList = [1, 2, 6, 5] := by
  intro list operation
  have hfits : list.Fits := ⟨by decide, by decide⟩
  have hcalls : (operation.action.run .boundless none list).calls =
      HookCall.inTurn [5, 6, 7, 8] [4, 3, 2, 1] := by decide +kernel
  have hcall : 3 < (operation.action.run .boundless none list).calls.length := by
    rw [hcalls]
    decide
  obtain ⟨left, hrun, hleft⟩ := operation.unwound_leaves hfits .boundless 3 hcall
  have hresolve : Slice.resolve { step := some (-1) } list.length = .ok ⟨3, -1, -1, 4⟩ := by
    decide +kernel
  have hwalked : Slice.walked { step := some (-1) } list.length = [3, 2, 1, 0] :=
    (Slice.positions_of_resolve hfits.length_le_max hresolve).symm.trans (by decide +kernel)
  simp only [hcalls] at hrun hleft
  refine ⟨hfits, hcall, left, hrun, hleft.trans ?_⟩
  rw [Operation.leftover, if_neg (by decide), length_toList, hwalked]
  rfl

end UniformList
end ListRuntime
