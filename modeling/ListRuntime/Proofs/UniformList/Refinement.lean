import ListRuntime.Proofs.UniformList.Failure
import ListRuntime.Proofs.UniformList.Slicing

/-!
# Uniform lists are lists of the language

A uniform list does in its buffer, by words, what the language says of plain sequences.  As long as
there is memory, nobody can tell the two apart.

* `UniformList.Refines` says that a course does to the elements what the language says, or that
  there is no memory for it.
* There is one lemma for each operation, and `refines_operation` is about all of them.
* `trace_agrees`: whole programs see the same of a list as of a sequence, as long as no allocation
  fails.  None fails where there is memory for the sequences (`lacksMemory_of_afforded`).
-/

set_option autoImplicit false

namespace ListRuntime

variable {α : Type}

/-- How many elements an operation says beforehand that it is going to add. -/
def Edit.announced : Edit α → Nat
  | extend items hint => hint.getD items.length
  | _ => 0

namespace UniformList

open ListRuntime.Action Course

variable {mem : Allocator} {list : UniformList α}

/-! ## What needs no room -/

/-- Without a position to pop at, `pop` fails. -/
theorem popCourse_of_none {index : Option Int64}
    (h : resolveIndex (index.getD (-1)) list.length = none) :
    ∃ e, popCourse index list = .fail list e ∧ e.category = .index := by
  have hlocate : list.locate? (index.getD (-1)) = none := by
    rw [locate?, h]
    rfl
  rw [popCourse]
  by_cases hnil : list.toList = []
  · exact ⟨.popFromEmpty, if_pos hnil, rfl⟩
  · refine ⟨.popOutOfRange, ?_, rfl⟩
    rw [if_neg hnil, hlocate]

/-- With one, it hands over the element there. -/
theorem popCourse_of_some {index : Option Int64} {position : Nat}
    (h : resolveIndex (index.getD (-1)) list.length = some position) :
    ∃ a, list.toList[position]? = some a ∧
      popCourse index list = .done (list.holding (list.toList.eraseIdx position)) a := by
  have hlt : position < list.toList.length := by
    rw [length_toList]
    exact lt_of_resolveIndex h
  have hget : list.toList[position]? = some list.toList[position] := List.getElem?_eq_getElem hlt
  have hlocate : list.locate? (index.getD (-1)) = some (position, list.toList[position]) := by
    simp [locate?, h, items_getElem?, hget]
  refine ⟨_, hget, ?_⟩
  rw [popCourse, if_neg (List.ne_nil_of_length_pos (by omega)), hlocate]

/-! ## What the language expects of a course -/

/-- The answer of an operation that hands over an element, or none. -/
def answerOf : Option α → Answer α
  | none => .done
  | some a => .element a

/-- How many elements there has to be room for: those that there are with those that an iterator
announces, and those that are to be left. -/
def needed (items : List α) (announced : Nat) : Except Category (List α × Option α) → Nat
  | .ok (changed, _) => max (items.length + announced) changed.length
  | .error _ => items.length + announced

/-- Room for the elements that there are is always needed. -/
theorem length_le_needed (items : List α) (announced : Nat)
    (expected : Except Category (List α × Option α)) :
    items.length ≤ needed items announced expected := by
  rcases expected with category | ⟨changed, given⟩
  · exact Nat.le_add_right _ _
  · exact Nat.le_trans (Nat.le_add_right _ _) (Nat.le_max_left _ _)

variable [Element α]

/-- A course does to a list of the given elements what is expected of it, or there is no memory for
it. -/
inductive Refines (mem : Allocator) (items : List α) (announced : Nat)
    (course : Course α (UniformList α) (Answer α)) :
    Except Category (List α × Option α) → Prop where
  /-- The operation was to succeed, and it did. -/
  | accepted {changed : List α} {given : Option α} (hresult : course.result = .ok (answerOf given))
    (hstate : course.state.toList = changed) :
    Refines mem items announced course (.ok (changed, given))
  /-- The operation was to raise an exception, and it did. -/
  | rejected {e : ListError} {category : Category} (hresult : course.result = .error e)
    (hstate : course.state.toList = items) (hcategory : e.category = category)
    (hother : category.isAllocation = false) :
    Refines mem items announced course (.error category)
  /-- There was no memory. -/
  | lacking {e : ListError} {expected : Except Category (List α × Option α)}
    (hresult : course.result = .error e) (hlacking : e.category.isAllocation = true)
    (hshort : ¬ mem.Affords α (needed items announced expected)) :
    Refines mem items announced course expected

/-- A failure is none of allocation where there is memory. -/
theorem Refines.isAllocation_eq_false {items : List α} {announced : Nat}
    {course : Course α (UniformList α) (Answer α)} {expected : Except Category (List α × Option α)}
    (h : Refines mem items announced course expected)
    (hmem : mem.Affords α (needed items announced expected)) {e : ListError}
    (he : course.result = .error e) : e.category.isAllocation = false := by
  cases h with
  | accepted hresult hstate => cases hresult.symm.trans he
  | rejected hresult hstate hcategory hother =>
    cases hresult.symm.trans he
    rw [hcategory, hother]
  | lacking hresult hlacking hshort => exact absurd hmem hshort

section
variable {announced : Nat} {items changed : List α}

/-- An operation that only answers that it is done. -/
theorem Refines.silent {course : Course α (UniformList α) Unit} (hresult : course.result = .ok ())
    (hstate : course.state.toList = changed) :
    Refines mem items announced (course.map fun _ ↦ .done) (.ok (changed, none)) := by
  refine .accepted ?_ hstate
  rw [result_map, hresult]
  rfl

/-- A failure before anything was done. -/
theorem Refines.fail {β : Type} {answer : β → Answer α} (list : UniformList α) {e : ListError}
    {category : Category} (h : e.category = category) (hother : category.isAllocation = false) :
    Refines mem list.toList announced ((Course.fail list e).map answer) (.error category) :=
  .rejected rfl rfl h hother

/-- An operation that needs room fails without it, and is done with it. -/
theorem refines_afterRoom {room : Except ListError (UniformList α)}
    {course : UniformList α → Course α (UniformList α) Unit}
    (hlacking : ∀ e, room = .error e → e.category.isAllocation = true)
    (hroom : mem.Affords α changed.length → ∃ roomy, room = .ok roomy)
    (hcourse : ∀ roomy, room = .ok roomy →
      (course roomy).result = .ok () ∧ (course roomy).state.toList = changed) :
    Refines mem items announced ((afterRoom list room course).map fun _ ↦ .done)
      (.ok (changed, none)) := by
  cases room with
  | ok roomy =>
    obtain ⟨hresult, hstate⟩ := hcourse roomy rfl
    exact .silent hresult hstate
  | error e =>
    refine .lacking rfl (hlacking e rfl) fun hmem ↦ ?_
    obtain ⟨roomy, hroomy⟩ := hroom (hmem.mono (Nat.le_max_right _ _))
    cases hroomy

end

/-! ## One element -/

/-- The rule for indices is the language's. -/
theorem resolveIndex_eq_position? (h : list.Fits) (index : Int64) :
    resolveIndex index list.length = Sequence.position? index.toInt list.toList.length := by
  rw [resolveIndex_eq index h.length_le_max, length_toList]
  rfl

theorem clampPosition_eq_place (h : list.Fits) (index : Int64) :
    clampPosition index list.length = Sequence.place index.toInt list.toList.length := by
  rw [clampPosition_eq index h.length_le_max, length_toList]
  rfl

/-- An operation that stores elements needs room for them beside the others. -/
theorem refines_store (h : list.Fits) {items changed : List α} {put : UniformList α → List α}
    (hlength : changed.length = list.length + items.length)
    (hput : ∀ roomy, roomy.toList = list.toList → put roomy = changed) :
    Refines mem list.toList 0 ((storeCourse mem items put list).map fun _ ↦ .done)
      (.ok (changed, none)) := by
  refine refines_afterRoom (fun _ ↦ isAllocation_of_roomForMore) ?_ fun roomy hroom ↦ ?_
  · intro hmem
    exact h.roomForMore_of_affords (hlength ▸ hmem)
  · exact ⟨rfl, hput roomy (roomier_of_roomForMore hroom).toList_eq⟩

theorem refines_extend (h : list.Fits) (items : List α) :
    Refines mem list.toList 0 ((extendCourse mem items list).map fun _ ↦ .done)
      (.ok (list.toList ++ items, none)) := by
  refine refines_store h ?_ fun _ heq ↦ congrArg (· ++ items) heq
  rw [List.length_append, length_toList]

theorem refines_insert (h : list.Fits) (index : Int64) (a : α) :
    Refines mem list.toList 0 ((Edit.insert index a).operation.course mem list)
      ((Edit.insert index a).apply list.toList) := by
  have hplace : Sequence.place index.toInt list.toList.length ≤ list.toList.length := by
    rw [← clampPosition_eq_place h, length_toList]
    exact clampPosition_le index _
  refine refines_store h ?_ fun roomy heq ↦ ?_
  · rw [List.length_insertIdx_of_le_length hplace, length_toList]
    rfl
  · rw [length_eq_of_toList_eq heq, clampPosition_eq_place h, heq]

/-- Work at the position of an index, if there is one. -/
theorem refines_atIndex (h : list.Fits) (index : Int64)
    {course : Nat → UniformList α → Course α (UniformList α) Unit} {change : Nat → List α}
    (hcourse : ∀ position, (course position list).result = .ok () ∧
      (course position list).state.toList = change position) :
    Refines mem list.toList 0 ((atIndex index course list).map fun _ ↦ .done)
      (match Sequence.position? index.toInt list.toList.length with
        | some position => .ok (change position, none)
        | none => .error .index) := by
  rw [atIndex, resolveIndex_eq_position? h]
  cases Sequence.position? index.toInt list.toList.length with
  | some position =>
    obtain ⟨hresult, hstate⟩ := hcourse position
    exact .silent hresult hstate
  | none => exact .fail list rfl rfl

theorem refines_pop (h : list.Fits) (index : Option Int64) :
    Refines mem list.toList 0 ((Edit.pop index).operation.course mem list)
      ((Edit.pop index).apply list.toList) := by
  have hindex : (index.getD (-1)).toInt = (index.map Int64.toInt).getD (-1) := by
    cases index <;> rfl
  show Refines mem list.toList 0 ((popCourse index list).map .element) _
  rw [Edit.apply, ← hindex, ← resolveIndex_eq_position? h]
  cases hposition : resolveIndex (index.getD (-1)) list.length with
  | none =>
    obtain ⟨e, hpop, hcategory⟩ := popCourse_of_none hposition
    rw [hpop]
    exact .fail list hcategory rfl
  | some position =>
    obtain ⟨a, hget, hpop⟩ := popCourse_of_some hposition
    rw [hpop]
    dsimp only
    rw [hget]
    exact .accepted rfl rfl

theorem refines_remove (a : α) :
    Refines mem list.toList 0 ((Edit.remove a).operation.course mem list)
      ((Edit.remove a).apply list.toList) := by
  show Refines mem list.toList 0 ((removeCourse (Element.equal · a) list).map fun _ ↦ .done) _
  rw [removeCourse, Edit.apply]
  cases list.toList.findIdx? (Element.equal · a) with
  | some position => exact .silent rfl rfl
  | none => exact .fail list rfl rfl

/-! ## Iterators -/

/-- An iterator that does not fail leaves only memory to fail for. -/
theorem FirstFailure.isAllocation {hint : Nat} {items taken : List α} {e : ListError}
    (h : FirstFailure mem list hint (items.map .ok) taken e) : e.category.isAllocation = true := by
  cases h with
  | announced h => exact isAllocation_of_roomForMore (refuses_iff.1 h)
  | onTheWay hroom htaken hyielded hstops =>
    cases hstops with
    | growth h => exact isAllocation_of_roomForMore (refuses_iff.1 h)
    | item e rest =>
      have hmem : .error e ∈ items.map (.ok : α → Except ListError α) := by
        rw [hyielded]
        exact List.mem_append_right _ List.mem_cons_self
      obtain ⟨a, -, ha⟩ := List.mem_map.1 hmem
      cases ha

/-- Only an iterator announces room of its own. -/
theorem refines_tryExtend (h : list.Fits) (hint : Nat) (items : List α) :
    Refines mem list.toList hint
      ((tryExtendCourse mem hint (items.map .ok) list).map fun _ ↦ .done)
      (.ok (list.toList ++ items, none)) := by
  rcases completes_or_firstFailure mem list hint (items.map .ok) with
    ⟨taken, after, hcompletes⟩ | ⟨taken, e, hfailure⟩
  · obtain rfl := hcompletes.eq_of_map_ok
    obtain ⟨stages, -, hcourse⟩ := hcompletes.course_eq
    rw [hcourse]
    exact .silent rfl hcompletes.toList_eq
  · obtain ⟨stages, after, -, -, hcourse⟩ := hfailure.course_eq
    rw [hcourse]
    refine .lacking rfl hfailure.isAllocation fun hmem ↦ ?_
    rw [needed, List.length_append, length_toList] at hmem
    obtain ⟨after', hcompletes⟩ := completes_of_affords h (hmem.mono (Nat.le_max_left _ _))
      (hmem.mono (Nat.le_max_right _ _))
    exact hfailure.not_completes hcompletes

/-! ## Slices -/

theorem refines_splice (h : list.Fits) (first removed : Nat) (items : List α) :
    Refines mem list.toList 0 ((spliceCourse mem first removed items list).map fun _ ↦ .done)
      (.ok (list.spliced first removed items, none)) := by
  cases hroom : list.roomFor mem (list.spliced first removed items).length with
  | ok roomy =>
    rw [spliceCourse_of_room h hroom]
    exact .silent rfl rfl
  | error cause =>
    obtain ⟨e, hcategory, hcourse⟩ := spliceCourse_of_refused h hroom
    rw [hcourse]
    refine .lacking rfl (hcategory ▸ isAllocation_of_roomFor hroom) fun hmem ↦ ?_
    obtain ⟨roomy, hroomy⟩ := h.roomFor_of_affords (hmem.mono (Nat.le_max_right _ _))
    cases hroom.symm.trans hroomy

theorem refines_setSlice (h : list.Fits) (slice : Slice) (items : List α) :
    Refines mem list.toList 0 ((Edit.setSlice slice items).operation.course mem list)
      ((Edit.setSlice slice items).apply list.toList) := by
  show Refines mem list.toList 0 ((setSliceCourse mem slice items list).map fun _ ↦ .done) _
  rw [Edit.apply, Sequence.assignSlice, length_toList]
  by_cases hzero : slice.stride = 0
  · rw [setSliceCourse_of_zero hzero, if_pos hzero]
    exact .fail list rfl rfl
  · rw [if_neg hzero]
    -- with step one a replacement of any length is spliced in, with any other step it must fit
    by_cases hone : slice.stride = 1
    · rw [setSliceCourse_of_contiguous h hone, if_pos hone, Except.map, Sequence.replaceBetween,
        ← Slice.first_add_length_walked h.length_le_max hone]
      exact refines_splice h _ _ items
    · rw [setSliceCourse_of_stepped h hzero hone, if_neg hone]
      split
      · refine .silent (result_overwriteEach _ list) ?_
        exact congrArg (·.toList) (state_overwriteEach _ list)
      · exact .fail list rfl rfl

theorem refines_delSlice (h : list.Fits) (slice : Slice) :
    Refines mem list.toList 0 ((Edit.delSlice slice).operation.course mem list)
      ((Edit.delSlice slice).apply list.toList) := by
  show Refines mem list.toList 0 ((delSliceCourse mem slice list).map fun _ ↦ .done) _
  rw [Edit.apply, Sequence.deleteSlice, length_toList]
  by_cases hzero : slice.stride = 0
  · rw [delSliceCourse_of_zero hzero, if_pos hzero]
    exact .fail list rfl rfl
  · obtain ⟨released, -, hcourse⟩ := delSliceCourse_eq h hzero
    rw [hcourse, if_neg hzero]
    exact .silent rfl rfl

/-- **Every operation does what the language says**, or there is no memory for it. -/
theorem refines_operation (h : list.Fits) (edit : Edit α) :
    Refines mem list.toList edit.announced (edit.operation.course mem list)
      (edit.apply list.toList) := by
  cases edit with
  | append a => exact refines_extend h [a]
  | insert index a => exact refines_insert h index a
  | assign index a => exact refines_atIndex h index fun _ ↦ ⟨rfl, rfl⟩
  | delete index => exact refines_atIndex h index fun _ ↦ ⟨rfl, rfl⟩
  | pop index => exact refines_pop h index
  | remove a => exact refines_remove a
  | extend items hint => exact refines_tryExtend h (hint.getD items.length) items
  | extendFromList items => exact refines_extend h items
  | extendSelf => exact refines_extend h list.toList
  | reverse | clear | shrinkTo n => exact .silent rfl rfl
  | setSlice slice items => exact refines_setSlice h slice items
  | delSlice slice => exact refines_delSlice h slice

/-! ## Programs -/

/-- Whether an operation ended for lack of memory. -/
def lacksMemory : Ending α (Answer α) → Bool
  | .failed e => e.category.isAllocation
  | .returned _ | .unwound _ => false

/-- An ending is what the language says of an operation: it answers with the element that is handed
over, or fails with the kind of exception that is raised. -/
inductive Agrees : Ending α (Answer α) → Except Category (Option α) → Prop where
  | accepted (given : Option α) : Agrees (.returned (answerOf given)) (.ok given)
  | rejected (e : ListError) : Agrees (.failed e) (.error e.category)

/-- What a program sees of operations on a list, one after the other: how each of them ends, and the
elements after it. -/
def trace : List (Allocator × Edit α) → UniformList α → List (Ending α (Answer α) × List α)
  | [], _ => []
  | (mem, edit) :: steps, list =>
    let run := edit.operation.action.run mem none list
    (run.ending, run.state.toList) :: trace steps run.state

/-- There is memory for a program: at each step for the elements that the language's list has before
and after it, and for those that an iterator announces. -/
def Afforded : List (Allocator × Edit α) → List α → Prop
  | [], _ => True
  | (mem, edit) :: steps, items =>
    mem.Affords α (needed items edit.announced (edit.apply items)) ∧
      Afforded steps (edit.outcome items).2

/-- One step keeps a list and a sequence together, as long as there is memory; and there is, if it
suffices for the sequence. -/
theorem step_agrees (h : list.Fits) (mem : Allocator) (edit : Edit α) :
    let run := edit.operation.action.run mem none list
    run.state.Fits ∧
      (lacksMemory run.ending = false → Agrees run.ending (edit.outcome list.toList).1 ∧
        run.state.toList = (edit.outcome list.toList).2) ∧
      (mem.Affords α (needed list.toList edit.announced (edit.apply list.toList)) →
        lacksMemory run.ending = false) := by
  have hrefines : Refines mem list.toList edit.announced (edit.operation.course mem list)
    (edit.apply list.toList) := refines_operation h edit
  have hkeeps : (edit.operation.course mem list).Keeps Fits := edit.operation.keeps_fits h
  rw [edit.operation.action_follows list none, run_of_spares _ (Mishap.spares_none _)]
  refine ⟨hkeeps.state, ?_⟩
  -- the expectation is an index of `Refines`, and has to be a variable
  rw [Edit.outcome]
  generalize edit.apply list.toList = expected at hrefines
  cases hrefines with
  | accepted hresult hstate =>
    rw [Course.ending, hresult]
    exact ⟨fun _ ↦ ⟨.accepted _, hstate⟩, fun _ ↦ rfl⟩
  | rejected hresult hstate hcategory hother =>
    rw [Course.ending, hresult, ← hcategory]
    exact ⟨fun _ ↦ ⟨.rejected _, hstate⟩, fun _ ↦
      (congrArg Category.isAllocation hcategory).trans hother⟩
  | lacking hresult hlacking hshort =>
    have hlacks : lacksMemory (edit.operation.course mem list).ending = true := by
      rw [Course.ending, hresult]
      exact hlacking
    exact ⟨fun hmemory ↦ absurd (hlacks.symm.trans hmemory) (by decide), fun hmem ↦
      absurd hmem hshort⟩

/-- So does a whole program. -/
theorem forall₂_trace (h : list.Fits) (steps : List (Allocator × Edit α))
    (hmemory : ∀ seen ∈ trace steps list, lacksMemory seen.1 = false) :
    List.Forall₂ (fun seen expected ↦ Agrees seen.1 expected.1 ∧ seen.2 = expected.2)
      (trace steps list) (Edit.trace (steps.map Prod.snd) list.toList) := by
  induction steps generalizing list with
  | nil => exact .nil
  | cons step steps ih =>
    obtain ⟨mem, edit⟩ := step
    obtain ⟨hfits, hstep, -⟩ := step_agrees h mem edit
    rw [trace, List.forall_mem_cons] at hmemory
    obtain ⟨hagrees, hstate⟩ := hstep hmemory.1
    rw [trace, List.map_cons, Edit.trace, ← hstate]
    exact .cons ⟨hagrees, hstate⟩ (ih hfits hmemory.2)

/-- **Memory for the sequences is memory for the list**: no operation then fails for lack of it. -/
theorem lacksMemory_of_afforded (h : list.Fits) {steps : List (Allocator × Edit α)}
    (hafforded : Afforded steps list.toList) :
    ∀ seen ∈ trace steps list, lacksMemory seen.1 = false := by
  induction steps generalizing list with
  | nil => exact fun _ hmem ↦ (List.not_mem_nil hmem).elim
  | cons step steps ih =>
    obtain ⟨mem, edit⟩ := step
    obtain ⟨hfirst, hrest⟩ := hafforded
    obtain ⟨hfits, hstep, hmemory⟩ := step_agrees h mem edit
    obtain ⟨-, hstate⟩ := hstep (hmemory hfirst)
    rw [trace, List.forall_mem_cons]
    exact ⟨hmemory hfirst, ih hfits (hstate ▸ hrest)⟩

/-! ## Where programs start -/

/-- The elements that an origin names. -/
def Origin.items : Origin (List α) → List α
  | empty _ | withCapacity _ => []
  | ofList items | ofIterator items _ => items

variable {σ : Type} {s : σ}

/-- A new list that is filled with elements holds these. -/
theorem toList_of_build {growth : Growth} {room : Nat} {items : List α} {made : UniformList α}
    {fill : UniformList α → Course α (UniformList α) Unit}
    (hfill : ∀ start : UniformList α, start.Fits → ∃ announced, Refines mem start.toList announced
      ((fill start).map fun _ ↦ .done) (.ok (start.toList ++ items, none)))
    (h : (buildCourse mem growth room fill s).result = .ok made) : made.toList = items := by
  rw [buildCourse] at h
  split at h
  · next start hroom =>
    obtain ⟨rfl, hresult⟩ := of_construct_ok h
    obtain ⟨hfits, hnil, -, -⟩ := fits_of_newRoom hroom
    obtain ⟨announced, hrefines⟩ := hfill start hfits
    cases hrefines with
    | accepted _ hstate => rwa [hnil] at hstate
    | lacking herror _ _ =>
      rw [result_map, hresult] at herror
      cases herror
  · cases h

theorem Origin.toList_of_course {origin : Origin (List α)} {made : UniformList α}
    (h : (origin.course mem s).result = .ok made) : made.toList = origin.items := by
  cases origin with
  | empty growth =>
    cases h
    rfl
  | withCapacity room =>
    obtain ⟨-, hnil, -, -⟩ := fits_of_newRoom h
    exact hnil
  | ofList items => exact toList_of_build (fun _ hfits ↦ ⟨_, refines_extend hfits items⟩) h
  | ofIterator items hint =>
    exact toList_of_build (fun _ hfits ↦ ⟨_, refines_tryExtend hfits _ items⟩) h

/-- **Lists are sequences.**  A list that was made of some elements holds these; and whatever
operations follow, as long as there is memory each of them ends as the language says, with the
element or the kind of exception that it says, and leaves the elements that it says.  No operation
fails for lack of memory where there is memory for the sequences. -/
theorem trace_agrees (mem : Allocator) (origin : Origin (List α))
    (steps : List (Allocator × Edit α)) {list : UniformList α}
    (hmade : ((origin.action : Action α Unit (UniformList α)).run mem none ()).ending =
      .returned list) :
    list.toList = origin.items ∧
      ((∀ seen ∈ trace steps list, lacksMemory seen.1 = false) →
        List.Forall₂ (fun seen expected ↦ Agrees seen.1 expected.1 ∧ seen.2 = expected.2)
          (trace steps list) (Edit.trace (steps.map Prod.snd) origin.items)) ∧
      (Afforded steps origin.items → ∀ seen ∈ trace steps list, lacksMemory seen.1 = false) := by
  have hresult : (origin.course mem ()).result = .ok list := by
    rw [origin.action_follows () none] at hmade
    exact result_of_run_none hmade
  have hitems : list.toList = origin.items := Origin.toList_of_course hresult
  have hfits : list.Fits := by
    classical exact origin.making.fits list hresult
  rw [← hitems]
  exact ⟨rfl, forall₂_trace hfits steps, lacksMemory_of_afforded hfits⟩

/-- Operations at the ends of what a word can hold, on a list of five numbers. -/
theorem trace_agrees_extreme :
    let made : UniformList Int64 := ⟨⟨#[1, 2, 3, 4, 5], 5⟩, .standard⟩
    let steps : List (Allocator × Edit Int64) :=
      [.pop none, .delete Int64.maxValue, .insert Int64.minValue 0,
        .setSlice { start := some Int64.minValue, step := some 2 } [6, 7, 8],
        .delSlice { step := some Int64.minValue }, .extendSelf].map (Allocator.boundless, ·)
    (((Origin.ofList [1, 2, 3, 4, 5]).action : Action Int64 Unit (UniformList Int64)).run
        .boundless none ()).ending = .returned made ∧
      Afforded steps [1, 2, 3, 4, 5] ∧
      (∀ seen ∈ trace steps made, lacksMemory seen.1 = false) ∧
      made.toList = [1, 2, 3, 4, 5] ∧
      List.Forall₂ (fun seen expected ↦ Agrees seen.1 expected.1 ∧ seen.2 = expected.2)
        (trace steps made) (Edit.trace (steps.map Prod.snd) [1, 2, 3, 4, 5]) := by
  intro made steps
  have hmade : (((Origin.ofList [1, 2, 3, 4, 5]).action :
      Action Int64 Unit (UniformList Int64)).run .boundless none ()).ending = .returned made := rfl
  have hmem (count : Nat) (h : count ≤ 10) : Allocator.boundless.Affords Int64 count :=
    ⟨fun _ ↦ rfl, Nat.le_trans h (by decide)⟩
  have hafforded : Afforded steps [1, 2, 3, 4, 5] :=
    .intro (hmem _ (by decide +kernel)) <| .intro (hmem _ (by decide +kernel)) <|
      .intro (hmem _ (by decide +kernel)) <| .intro (hmem _ (by decide +kernel)) <|
        .intro (hmem _ (by decide +kernel)) <| .intro (hmem _ (by decide +kernel)) trivial
  obtain ⟨hitems, hagrees, hmemory⟩ :=
    trace_agrees .boundless (.ofList [1, 2, 3, 4, 5]) steps hmade
  exact ⟨hmade, hafforded, hmemory hafforded, hitems, hagrees (hmemory hafforded)⟩

end UniformList
end ListRuntime
