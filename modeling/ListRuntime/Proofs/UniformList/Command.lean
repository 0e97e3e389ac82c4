import ListRuntime.Proofs.Session.Command
import ListRuntime.Proofs.UniformList.Making
import ListRuntime.UniformList.Command

/-!
# Courses of commands to uniform lists

The courses of all operations, origins and derivations, each as one function of the data that names
it.  What holds of every operation is proved by going through these functions case by case.

* `Operation.course`, `Origin.course` and `Derivation.course` are the courses.
* `Operation.role` singles out `pop` and the operations that draw on an iterator;
  `Operation.given` are the elements that an answer hands over.
* `Operation.role_of_mapM`: promoting values and looking names up changes no role.
-/

set_option autoImplicit false

namespace ListRuntime

/-! ## Ways to an answer -/

namespace Action

variable {α γ σ β : Type} {mem : Allocator} {s : σ}

theorem Follows.silently {action : Action γ σ Unit} {course : Course γ σ Unit}
    (h : action.Follows mem s course) :
    (silently action : Action γ σ (Answer α)).Follows mem s (course.map fun _ ↦ .done) :=
  h.map fun _ ↦ Answer.done

theorem Follows.ask (question : σ → Answer α) :
    (ask question : Action γ σ (Answer α)).Follows mem s (.done s (question s)) :=
  Follows.get_bind (.pure _)

theorem Follows.inquire (answer : β → Answer α) (question : σ → Except ListError β) :
    (inquire answer question : Action γ σ (Answer α)).Follows mem s
      ⟨[], s, (question s).map answer⟩ :=
  Follows.get_bind ((Follows.ofExcept (question s)).map answer)

end Action

namespace UniformList

open ListRuntime.Action

variable {α σ : Type}

/-- What an operation does with elements besides storing and releasing them. -/
inductive Role where
  /-- It hands an element over to the one who asked. -/
  | pops
  /-- It draws elements from an iterator. -/
  | drives
  /-- Neither. -/
  | plain
deriving DecidableEq

/-- The role of an operation. -/
def Operation.role {v w : Type} : Operation v w → Role
  | pop _ => .pops
  | extend .. | tryExtend .. => .drives
  | _ => .plain

/-- The elements that an answer hands over to the one who asked.  Only `pop` does so; what is read
stays in the list. -/
def Operation.given {v w : Type} (operation : Operation v w) (answer : Answer α) : List α :=
  match operation.role, answer with
  | .pops, .element a => [a]
  | _, _ => []

theorem Operation.given_done {v w : Type} (operation : Operation v w) :
    operation.given (.done : Answer α) = [] := by
  cases operation <;> rfl

variable {mem : Allocator} [Element α]

/-- What an operation does to a list. -/
def Operation.course (mem : Allocator) (operation : Operation α (List α)) (list : UniformList α) :
    Course α (UniformList α) (Answer α) :=
  let silent (course : Course α (UniformList α) Unit) : Course α (UniformList α) (Answer α) :=
    course.map fun _ ↦ .done
  match operation with
  | read i => ⟨[], list, (list.read i).map .element⟩
  | assign i a => silent (atIndex i (overwriteCourse · a) list)
  | delete i => silent (atIndex i withdrawCourse list)
  | append a => silent (extendCourse mem [a] list)
  | insert position a => silent (storeCourse mem [a] (fun roomy ↦
      roomy.toList.insertIdx (clampPosition position roomy.length) a) list)
  | pop i => (popCourse i list).map .element
  | remove a => silent (removeCourse (Element.equal · a) list)
  | clear => silent (shrinkCourse 0 list)
  | reverse => silent (.done (list.holding list.toList.reverse) ())
  | extendSelf => silent (extendCourse mem list.toList list)
  | extendFromList items => silent (extendCourse mem items list)
  | extend items hint => silent (tryExtendCourse mem (hint.getD items.length) (items.map .ok) list)
  | tryExtend yielded hint => silent (tryExtendCourse mem (hint.getD yielded.length) yielded list)
  | ensureCapacity required => silent (afterRoom list (list.roomFor mem required) (.done · ()))
  | shrinkTo n => silent (shrinkCourse n list)
  | setSlice s items => silent (setSliceCourse mem s items list)
  | delSlice s => silent (delSliceCourse mem s list)
  | contains a => .done list (.truth (list.contains a))
  | count a => .done list (.number (list.count a))
  | index a start stop => ⟨[], list, (list.index a start stop).map .number⟩
  | equal other => .done list (.truth (list.equal other))
  | elements => .done list (.elements list.toList)
  | text => .done list (.text list.text)
  | summary => .done list (.summary list.length list.kind list.growth)

theorem Operation.action_follows (operation : Operation α (List α)) (list : UniformList α) :
    operation.action.Follows mem list (operation.course mem list) := by
  cases operation with
  | read i => exact .inquire _ _
  | assign i a => exact (assign_follows list i a).silently
  | delete i => exact (delete_follows list i).silently
  | append a => exact (append_follows list a).silently
  | insert position a => exact (insert_follows list position a).silently
  | pop i => exact (pop_follows list i).map Answer.element
  | remove a => exact (removeWhere_follows list _).silently
  | clear => exact (shrinkTo_follows list 0).silently
  | reverse => exact (reverse_follows list).silently
  | extendSelf => exact (extendSelf_follows list).silently
  | extendFromList items => exact (extendFromList_follows list items).silently
  | extend items hint => exact (tryExtend_follows list _ _).silently
  | tryExtend yielded hint => exact (tryExtend_follows list _ yielded).silently
  | ensureCapacity required => exact (ensureCapacity_follows mem list required).silently
  | shrinkTo n => exact (shrinkTo_follows list n).silently
  | setSlice s items => exact (setSlice_follows list s items).silently
  | delSlice s => exact (delSlice_follows list s).silently
  | contains a | count a | equal other | elements | text | summary => exact .ask _
  | index a start stop => exact .inquire _ _

/-- Promoting values and looking names up changes no role. -/
theorem Operation.role_of_mapM {registry : Registry (UniformList α)}
    {operation : Operation Value Operand} {resolved : Operation α (List α)}
    (h : (operation.mapM promote Resolved.ofExcept (Operand.elements registry)).run =
      some (.ok resolved)) : resolved.role = operation.role := by
  cases operation with
  | assign _ _ | append _ | insert _ _ | remove _ | extendFromList _ | extend _ _ | setSlice _ _
  | contains _ | count _ | index _ _ _ | equal _ =>
    obtain ⟨_, -, hpure⟩ := Resolved.run_bind_eq_ok.1 h
    rw [← Resolved.run_pure_eq_ok.1 hpure]
    rfl
  | _ =>
    rw [← Resolved.run_pure_eq_ok.1 h]
    rfl

/-- What it takes to make a list of elements. -/
def Origin.course (mem : Allocator) (origin : Origin (List α)) (s : σ) :
    Course α σ (UniformList α) :=
  match origin with
  | empty growth => .done s (UniformList.empty growth)
  | withCapacity room => ⟨[], s, newRoom mem .standard room⟩
  | ofList items => buildCourse mem .standard items.length (extendCourse mem items) s
  | ofIterator items hint =>
    buildCourse mem .standard (hint.getD items.length)
      (tryExtendCourse mem (hint.getD items.length) (items.map .ok)) s

theorem Origin.action_follows (origin : Origin (List α)) (s : σ) :
    (origin.action : Action α σ (UniformList α)).Follows mem s (origin.course mem s) := by
  cases origin with
  | empty growth => exact .pure _
  | withCapacity room => exact fresh_follows .standard room s
  | ofList items => exact build_follows (fun list ↦ extendFromList_follows list items) s
  | ofIterator items hint => exact build_follows (fun list ↦ tryExtend_follows list _ _) s

/-- What it takes to make a list of a list. -/
def Derivation.course (mem : Allocator) (list : UniformList α) (derivation : Derivation (List α))
    (s : σ) : Course α σ (UniformList α) :=
  match derivation with
  | copy => buildCourse mem list.growth list.length (extendCourse mem list.toList) s
  | concat other => list.concatCourse mem other s
  | repetition times => list.repetitionCourse mem times s
  | slice written => list.sliceCourse mem written s

theorem Derivation.action_follows (list : UniformList α) (derivation : Derivation (List α))
    (s : σ) : (derivation.action list : Action α σ (UniformList α)).Follows mem s
      (derivation.course mem list s) := by
  cases derivation with
  | copy => exact build_follows (fun start ↦ extendFromList_follows start list.toList) s
  | concat other => exact concat_follows list s other
  | repetition times => exact repetition_follows list s times
  | slice written => exact slice_follows list s written

/-- Commands about uniform lists. -/
abbrev ListCommand := Command (Origin Operand) (Derivation Operand) (Operation Value Operand)

end UniformList
end ListRuntime
