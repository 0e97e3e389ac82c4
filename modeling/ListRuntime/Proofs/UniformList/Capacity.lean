import ListRuntime.Proofs.UniformList.Lifetime

/-!
# The capacity of uniform lists

How much room a list has is no accident.  An operation that stores elements leaves exactly what the
policy says for the new length; one that does not leaves the buffer as it was; and a list made of
another one has not a slot to spare.

* `Operation.capacity_of_stores` is the exact law for operations that store elements.
* `UniformList.after` is what attempts at operations lead to; it gives no room up (`capacity_le_after`).
* `MadeTight` says that a list is made with one allocation and without a slot to spare.
-/

set_option autoImplicit false

namespace ListRuntime

open ListRuntime.Action Course

/-- What there is to know of the storage of a list. -/
structure Extent where
  /-- How many elements there are. -/
  length : Nat
  /-- How many slots there are. -/
  capacity : Nat
  /-- How many bytes a slot takes. -/
  slotBytes : Nat
  /-- How the buffer grows. -/
  growth : Growth

/-- A list that is made has not a slot to spare, and the policy `growth`.  Its making asks the
allocator one question at most, whether it may have just this buffer: any other allocator that
grants that lets the same happen, from the first hook call to the last. -/
def MadeTight {γ σ S : Type} (extent : S → Extent) (growth : Growth) (making : Action γ σ S) :
    Prop :=
  ∀ (mem : Allocator) (mishap : Mishap) (s : σ) (made : S),
    (making.run mem mishap s).ending = .returned made →
      (extent made).capacity = (extent made).length ∧ (extent made).growth = growth ∧
        ∀ other : Allocator, (extent made).length = 0 ∨
          other.grants ((extent made).length * (extent made).slotBytes) = true →
            making.run other mishap s = making.run mem mishap s

namespace UniformList

variable {α σ : Type}

/-- Whether an operation that succeeds has stored elements that were known beforehand. -/
def Operation.stores {v w : Type} : Operation v w → Bool
  | append _ | insert .. | extendSelf | extendFromList _ => true
  | setSlice slice _ => slice.stride = 1
  | _ => false

variable [Element α] {mem : Allocator} {list roomy : UniformList α}

/-- The storage of a list. -/
def extent (list : UniformList α) : Extent :=
  ⟨list.length, list.capacity, (Element.layout α).size, list.growth⟩

/-- The capacity that the policy of a list says for a number of elements. -/
def target (list : UniformList α) (required : Nat) : Nat :=
  list.growth.nextCapacity list.capacity required (Element.layout α).maxElements

/-! ## The exact law -/

/-- Making room follows the policy. -/
theorem capacity_of_roomFor {required : Nat} (h : list.roomFor mem required = .ok roomy) :
    roomy.capacity = list.target required := by
  rw [roomFor] at h
  split at h
  · next capacity hgrow =>
    cases h
    have hle := list.growth.capacity_le_nextCapacity list.capacity required
      (Element.layout α).maxElements
    rw [(Layout.of_grow Element.isSlot hgrow).1, target]
    exact Nat.max_eq_right hle
  · cases h

theorem capacity_of_roomForMore {additional : Nat}
    (h : list.roomForMore mem additional = .ok roomy) :
    roomy.capacity = list.target (list.length + additional) := by
  rw [roomForMore] at h
  split at h
  · cases h
  · exact capacity_of_roomFor h

/-- If the course comes to a result, the capacity is what the policy says for the new length. -/
def FollowsPolicy {β : Type} (list : UniformList α) (course : Course α (UniformList α) β) : Prop :=
  ∀ b, course.result = .ok b → course.state.capacity = list.target course.state.length

theorem FollowsPolicy.map {β β' : Type} {course : Course α (UniformList α) β}
    (h : FollowsPolicy list course) (f : β → β') : FollowsPolicy list (course.map f) := by
  intro b' hb'
  obtain ⟨stages, s, e | b⟩ := course
  · cases hb'
  · exact h b rfl

theorem followsPolicy_fail {β : Type} (e : ListError) :
    FollowsPolicy list (.fail list e : Course α (UniformList α) β) := by
  intro b hb
  cases hb

theorem followsPolicy_store (items : List α) {put : UniformList α → List α}
    (hput : ∀ roomy : UniformList α, roomy.toList = list.toList →
      (put roomy).length = list.length + items.length) :
    FollowsPolicy list (storeCourse mem items put list) := by
  rw [storeCourse]
  cases hroom : list.roomForMore mem items.length with
  | error e => exact followsPolicy_fail e
  | ok roomy =>
    intro b _
    have hlength := hput roomy (roomier_of_roomForMore hroom).toList_eq
    change roomy.capacity = list.target (put roomy).length
    rw [capacity_of_roomForMore hroom, hlength]

theorem followsPolicy_extend (items : List α) :
    FollowsPolicy list (extendCourse mem items list) :=
  followsPolicy_store items fun _ heq ↦ by rw [List.length_append, heq, length_toList]

theorem followsPolicy_splice (first removed : Nat) (items : List α) :
    FollowsPolicy list (spliceCourse mem first removed items list) := by
  dsimp only [spliceCourse]
  split
  · exact followsPolicy_fail _
  · generalize hroom : list.roomFor mem _ = room
    cases room with
    | error e => exact followsPolicy_fail e
    | ok roomy =>
      intro b _
      change roomy.capacity = list.target (_ ++ items ++ _).length
      rw [capacity_of_roomFor hroom, List.length_append, List.length_append, Nat.add_right_comm]

/-- **Storing elements follows the policy exactly.** -/
theorem Operation.followsPolicy (h : list.Fits) (operation : Operation α (List α))
    (hstores : operation.stores = true) : FollowsPolicy list (operation.course mem list) := by
  cases operation with
  | append a => exact (followsPolicy_extend [a]).map _
  | insert position a =>
    refine (followsPolicy_store [a] fun roomy heq ↦ ?_).map _
    have hlength := length_eq_of_toList_eq heq
    have hclamp : clampPosition position roomy.length ≤ roomy.toList.length := by
      rw [length_toList]
      exact clampPosition_le position _
    rw [List.length_insertIdx_of_le_length hclamp, length_toList, hlength, List.length_singleton]
  | extendSelf => exact (followsPolicy_extend list.toList).map _
  | extendFromList items => exact (followsPolicy_extend items).map _
  | setSlice s items =>
    have hstride : s.stride = 1 := by simpa [stores] using hstores
    refine FollowsPolicy.map ?_ _
    rw [setSliceCourse_of_contiguous h hstride]
    exact followsPolicy_splice _ _ items
  | _ => cases hstores

/-! ## Whole runs -/

/-- One attempt at an operation. -/
structure Attempt (α : Type) where
  /-- What it can allocate. -/
  mem : Allocator
  /-- Which of its hook calls unwinds. -/
  mishap : Mishap
  /-- What is to be done. -/
  operation : Operation α (List α)

/-- What attempts, one after the other, make of a list. -/
def after (list : UniformList α) (attempts : List (Attempt α)) : UniformList α :=
  attempts.foldl (fun list attempt ↦
    (attempt.operation.action.run attempt.mem attempt.mishap list).state) list

theorem grown_attempt (h : list.Fits) (attempt : Attempt α) :
    let reached := (attempt.operation.action.run attempt.mem attempt.mishap list).state
    reached.Fits ∧ Grown list reached := by
  intro reached
  have hrun : reached = ((attempt.operation.course attempt.mem list).run attempt.mishap).state :=
    congrArg Run.state (attempt.operation.action_follows list attempt.mishap)
  rw [hrun]
  exact ⟨(attempt.operation.keeps_fits h).run attempt.mishap,
    (attempt.operation.keeps_grown h).run attempt.mishap⟩

/-- **No run gives room up.** -/
theorem grown_after (h : list.Fits) (attempts : List (Attempt α)) :
    Grown list (list.after attempts) := by
  induction attempts generalizing list with
  | nil => exact .refl list
  | cons attempt attempts ih =>
    obtain ⟨hfits, hgrown⟩ := grown_attempt h attempt
    exact hgrown.trans (ih hfits)

/-! ## New lists -/

theorem madeTight_of_makesAtOnce {growth : Growth} {room : Nat} {items : List α}
    {making : Action α σ (UniformList α)} {course : Allocator → σ → Course α σ (UniformList α)}
    (hfollows : ∀ mem s, making.Follows mem s (course mem s))
    (hmakes : ∀ s, MakesAtOnce growth room items s (course · s)) (hlength : items.length = room) :
    MadeTight extent growth making := by
  intro mem mishap s made hmade
  rw [hfollows mem s mishap] at hmade ⊢
  obtain ⟨hresult, -⟩ := of_run_returned hmade
  obtain ⟨hitems, hgrowth, hcapacity, -⟩ := (hmakes s).of_ok hresult
  have hroom : made.length = room := by rw [← length_toList, hitems, hlength]
  refine ⟨hcapacity.trans hroom.symm, hgrowth, fun other hgrants ↦ ?_⟩
  rw [hfollows other s mishap]
  have hgranted : room = 0 ∨ other.grants (room * (Element.layout α).size) = true :=
    hroom ▸ hgrants
  exact congrArg (Course.run · mishap) ((hmakes s).course_eq hresult hgranted)

theorem Origin.madeTight_ofList (items : List α) :
    MadeTight extent .standard ((Origin.ofList items).action : Action α σ (UniformList α)) :=
  madeTight_of_makesAtOnce (fun _ s ↦ (Origin.ofList items).action_follows s)
    (fun _ ↦ makesAtOnce_ofList items) rfl

/-- **A list that is made of a list has not a slot to spare.** -/
theorem Derivation.madeTight (h : list.Fits) (derivation : Derivation (List α)) :
    MadeTight extent list.growth (derivation.action list : Action α σ (UniformList α)) := by
  cases hroom : derivation.room list with
  | ok room =>
    exact madeTight_of_makesAtOnce (fun _ s ↦ derivation.action_follows list s)
      (fun _ ↦ derivation.makesAtOnce list hroom) (derivation.length_items h hroom)
  | error e =>
    intro mem mishap s made hmade
    rw [derivation.action_follows list s, derivation.course_of_error list hroom] at hmade
    obtain ⟨hresult, -⟩ := of_run_returned hmade
    cases hresult

end UniformList
end ListRuntime
