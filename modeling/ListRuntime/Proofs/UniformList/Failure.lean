import ListRuntime.Proofs.UniformList.Conservation
import ListRuntime.Proofs.UniformList.Intake

/-!
# Failures of operations on uniform lists

An operation that fails leaves its list as it was.  All but one find out that they fail before they
have done anything.  Appending what an iterator yields is the exception: by the time of the failure
elements may have been appended, so it cuts them off again and releases them; what may stay behind
is a larger buffer.

* `Origin.drives` tells the origins that draw on an iterator, as `Operation.role` does operations.
* `Operation.failsEarly`, `Origin.failsEarly` and `Derivation.failsEarly` are about the others;
  `Operation.kept_of_error` is about all operations on a list.
* `undone_of_failed` is what a failed command leaves of all lists, by `Undone`.
-/

set_option autoImplicit false

namespace ListRuntime
namespace UniformList

open ListRuntime.Action Course HookCall

variable {α σ : Type} {s : σ}

/-- Whether the list is made of what an iterator yields. -/
def Origin.drives {w : Type} : Origin w → Bool
  | ofIterator .. => true
  | _ => false

/-- A failure releases all that was acquired on the way, as soon as the elements are the same. -/
theorem balance_of_kept [DecidableEq α] {β : Type} {list : UniformList α}
    {course : Course α (UniformList α) β} {given : β → α → Int}
    (hconserves : course.Conserves stock given list.stock)
    (hkept : Kept list course.state) {e : ListError} (h : course.result = .error e) (a : α) :
    balance course.calls a = 0 := by
  have hsettled := hconserves.settled a
  rw [h, handed, stock, stock, hkept.toList_eq] at hsettled
  omega

/-! ## What a failed command leaves -/

/-- Whether a command draws elements from an iterator. -/
def drivenBy : ListCommand → Bool
  | .operate _ operation => operation.role = .drives
  | .create _ origin => origin.drives
  | .derive .. | .drop _ => false

/-- What a failed command leaves of the list under a name.  Only a command that draws elements from
an iterator may leave more room, and only in the list that it works on. -/
def KeptBy (command : ListCommand) (name : String) (before after : UniformList α) : Prop :=
  Kept before after ∧ (after.capacity = before.capacity ∨
    drivenBy command = true ∧ command.subject? = some name)

/-- What a failed command leaves. -/
structure Undone [DecidableEq α] (registry : Registry (UniformList α)) (command : ListCommand)
    (run : Run α (Registry (UniformList α)) (Answer α)) : Prop where
  /-- All lists are there, and they are what they were. -/
  lists : Registry.Related (KeptBy command) registry run.state
  /-- What was acquired is released. -/
  balance : ∀ a, balance run.calls a = 0
  /-- Without an iterator no hook was called. -/
  quiet : drivenBy command = false → run.calls = []

theorem undone_of_still [DecidableEq α] (registry : Registry (UniformList α))
    (command : ListCommand) (ending : Ending α (Answer α)) :
    Undone registry command ⟨[], registry, ending⟩ where
  lists := .refl (fun _ list ↦ ⟨.refl list, Or.inl rfl⟩) registry
  balance _ := rfl
  quiet _ := rfl

variable {mem : Allocator} {list : UniformList α}

/-! ## Failing early -/

theorem failsEarly_afterRoom {β : Type} {room : Except ListError (UniformList α)}
    {course : UniformList α → Course α (UniformList α) β}
    (hcourse : ∀ roomy, ∃ b, (course roomy).result = .ok b) :
    (afterRoom list room course).FailsEarly list := by
  cases room with
  | ok roomy =>
    obtain ⟨b, hb⟩ := hcourse roomy
    exact .of_ok hb
  | error e => exact .fail e

/-- What cannot fail once there is room fails for want of room. -/
theorem of_afterRoom_error {β : Type} {room : Except ListError (UniformList α)}
    {course : UniformList α → Course α (UniformList α) β}
    (hcourse : ∀ roomy, ∃ b, (course roomy).result = .ok b) {e : ListError}
    (h : (afterRoom list room course).result = .error e) : room = .error e := by
  cases room with
  | ok roomy =>
    obtain ⟨b, hb⟩ := hcourse roomy
    cases hb.symm.trans h
  | error e' =>
    cases h
    rfl

theorem failsEarly_atIndex {course : Nat → UniformList α → Course α (UniformList α) Unit}
    (hcourse : ∀ position, (course position list).result = .ok ()) (index : Int64) :
    (atIndex index course list).FailsEarly list := by
  rw [atIndex]
  split
  · exact .of_ok (hcourse _)
  · exact .fail _

theorem failsEarly_pop (index : Option Int64) : (popCourse index list).FailsEarly list := by
  rw [popCourse]
  split
  · exact .fail _
  · split
    · exact .of_ok rfl
    · exact .fail _

theorem failsEarly_remove (test : α → Bool) : (removeCourse test list).FailsEarly list := by
  rw [removeCourse]
  split
  · exact .of_ok rfl
  · exact .fail _

variable [Element α]

theorem failsEarly_store (items : List α) (put : UniformList α → List α) :
    (storeCourse mem items put list).FailsEarly list :=
  failsEarly_afterRoom fun _ ↦ ⟨(), rfl⟩

theorem failsEarly_splice (first removed : Nat) (items : List α) :
    (spliceCourse mem first removed items list).FailsEarly list := by
  dsimp only [spliceCourse]
  split
  · exact .fail _
  · exact failsEarly_afterRoom fun _ ↦ ⟨(), rfl⟩

/-- Once the lengths agree, overwriting element by element comes to its end. -/
theorem failsEarly_setSlice (slice : Slice) (items : List α) :
    (setSliceCourse mem slice items list).FailsEarly list := by
  rw [setSliceCourse]
  split
  · exact .fail _
  · split
    · exact failsEarly_splice _ _ items
    · split
      · exact .of_ok (forEach_ok (P := fun _ _ ↦ True) (fun _ _ _ _ ↦ ⟨rfl, trivial⟩) trivial)
      · exact .fail _

theorem failsEarly_delSlice (slice : Slice) :
    (delSliceCourse mem slice list).FailsEarly list := by
  rw [delSliceCourse]
  split
  · exact .fail _
  · split
    · exact .of_ok rfl
    · split
      · exact failsEarly_splice _ _ []
      · exact .of_ok rfl

/-- **Operations that drive no iterator fail before they do anything.** -/
theorem Operation.failsEarly (operation : Operation α (List α)) (h : operation.role ≠ .drives) :
    (operation.course mem list).FailsEarly list := by
  cases operation with
  | extend items hint | tryExtend yielded hint => exact absurd rfl h
  | read i | contains a | count a | index a start stop | equal other | elements | text
  | summary => exact .still _
  | assign i a => exact (failsEarly_atIndex (fun _ ↦ rfl) i).map
  | delete i => exact (failsEarly_atIndex (fun _ ↦ rfl) i).map
  | append a => exact (failsEarly_store [a] _).map
  | insert position a => exact (failsEarly_store [a] _).map
  | pop i => exact (failsEarly_pop i).map
  | remove a => exact (failsEarly_remove _).map
  | clear | reverse | shrinkTo n => exact .of_ok rfl
  | extendSelf => exact (failsEarly_store list.toList _).map
  | extendFromList items => exact (failsEarly_store items _).map
  | ensureCapacity required => exact (failsEarly_afterRoom fun _ ↦ ⟨(), rfl⟩).map
  | setSlice s items => exact (failsEarly_setSlice s items).map
  | delSlice s => exact (failsEarly_delSlice s).map

/-! ## What is left after a failure -/

/-- **Whatever operation fails, the list is as it was**, but for its room. -/
theorem Operation.kept_of_error (operation : Operation α (List α)) {e : ListError}
    (h : (operation.course mem list).result = .error e) :
    Kept list (operation.course mem list).state := by
  by_cases hdrives : operation.role = .drives
  · cases operation with
    | extend items hint => exact kept_of_tryExtend (of_map_error h)
    | tryExtend yielded hint => exact kept_of_tryExtend (of_map_error h)
    | _ => cases hdrives
  · rw [operation.failsEarly hdrives e h]
    exact .refl list

/-! ## Books of a failure -/

section
variable [DecidableEq α]

theorem balance_of_tryExtend {hint : Nat} {yielded : List (Except ListError α)} {e : ListError}
    (h : (tryExtendCourse mem hint yielded list).result = .error e) (a : α) :
    balance (tryExtendCourse mem hint yielded list).calls a = 0 :=
  balance_of_kept (conserves_tryExtend hint yielded) (kept_of_tryExtend h) h a

/-- **An operation that fails has released all that it acquired.** -/
theorem Operation.balance_of_error (operation : Operation α (List α)) {e : ListError}
    (h : (operation.course mem list).result = .error e) (a : α) :
    balance (operation.course mem list).calls a = 0 := by
  by_cases hdrives : operation.role = .drives
  · cases operation with
    | extend items hint => exact balance_of_tryExtend (of_map_error h) a
    | tryExtend yielded hint => exact balance_of_tryExtend (of_map_error h) a
    | _ => cases hdrives
  · rw [operation.failsEarly hdrives e h]
    rfl

/-- A making that fails has released all that it acquired. -/
theorem Making.balance_of_error {course : Course α σ (UniformList α)} (hmaking : Making s course)
    {e : ListError} (h : course.result = .error e) (a : α) : balance course.calls a = 0 := by
  have hsettled := (hmaking.conserves fun _ _ ↦ 0).settled a
  rw [h, handed] at hsettled
  omega

end

/-! ## Makings -/

/-- **Making a list of elements fails before anything is done**, unless it drives an iterator. -/
theorem Origin.failsEarly (origin : Origin (List α)) (h : origin.drives = false) :
    (origin.course mem s).FailsEarly s := by
  cases origin with
  | empty growth => exact .of_ok rfl
  | withCapacity room => exact .still _
  | ofList items => exact (makesAtOnce_ofList items).failsEarly mem
  | ofIterator items hint => cases h

/-- **Making a list of a list fails before anything is done.** -/
theorem Derivation.failsEarly (derivation : Derivation (List α)) :
    (derivation.course mem list s).FailsEarly s := by
  cases hroom : derivation.room list with
  | ok room => exact (derivation.makesAtOnce list hroom).failsEarly mem
  | error e =>
    rw [derivation.course_of_error list hroom mem s]
    exact .fail e

/-! ## Commands -/

/-- Looking names up does not turn an iterator into a list. -/
theorem Origin.drives_of_mapM {registry : Registry (UniformList α)} {origin : Origin Operand}
    {resolved : Origin (List α)}
    (h : (origin.mapM (Operand.elements registry)).run = some (.ok resolved)) :
    resolved.drives = origin.drives := by
  cases origin with
  | ofList _ | ofIterator _ _ =>
    obtain ⟨_, -, hpure⟩ := Resolved.run_bind_eq_ok.1 h
    rw [← Resolved.run_pure_eq_ok.1 hpure]
    rfl
  | _ =>
    rw [← Resolved.run_pure_eq_ok.1 h]
    rfl

variable [DecidableEq α] {registry : Registry (UniformList α)} {command : ListCommand}

/-- Making a list touches no list that is there. -/
theorem undone_of_making {course : Course α (Registry (UniformList α)) (UniformList α)}
    (hmaking : Making registry course)
    (hquiet : drivenBy command = false → course.FailsEarly registry) {name : String} {e : ListError}
    (h : (Registry.keepCourse (·.toList) name course).result = .error e) :
    Undone registry command ⟨(Registry.keepCourse (·.toList) name course).calls,
      (Registry.keepCourse (·.toList) name course).state, .failed e⟩ := by
  obtain ⟨hresult, hkeep⟩ := Registry.of_keepCourse_error h
  have hstate : course.state = registry := hmaking.keeps.state
  rw [hkeep]
  refine ⟨?_, hmaking.balance_of_error hresult, fun hdriven ↦ ?_⟩
  · rw [hstate]
    exact (undone_of_still registry command (.failed e)).lists
  · rw [hquiet hdriven e hresult]
    rfl

/-- Work on one list touches no other, and leaves that one as it was. -/
theorem undone_of_visit {name : String} (hfind : registry.find? name = some list)
    {operation : Operation Value Operand} {resolved : Operation α (List α)}
    (hrole : resolved.role = operation.role) {e : ListError}
    (h : (Registry.visitCourse name registry (resolved.course mem list)).result = .error e) :
    Undone registry (.operate (some name) operation)
      ⟨(Registry.visitCourse name registry (resolved.course mem list)).calls,
        (Registry.visitCourse name registry (resolved.course mem list)).state, .failed e⟩ := by
  have hresult : (resolved.course mem list).result = .error e := h
  rw [Registry.calls_visitCourse]
  refine ⟨?_, resolved.balance_of_error hresult, fun hdriven ↦ ?_⟩
  · refine .insert (fun _ list ↦ ⟨.refl list, Or.inl rfl⟩) hfind
      ⟨resolved.kept_of_error hresult, ?_⟩
    by_cases hdrives : operation.role = .drives
    · exact Or.inr ⟨by simp [drivenBy, hdrives], rfl⟩
    · rw [resolved.failsEarly (hrole ▸ hdrives) e hresult]
      exact Or.inl rfl
  · have hdrives : operation.role ≠ .drives := by simpa [drivenBy] using hdriven
    rw [resolved.failsEarly (hrole ▸ hdrives) e hresult]
    rfl

/-- **A failed command leaves all lists as they were.** -/
theorem undone_of_failed {mem : Allocator} {mishap : Mishap}
    {run : Run α (Registry (UniformList α)) (Answer α)} {e : ListError}
    (hrun : command.run? vocabulary mem mishap registry = some run)
    (hfailed : run.ending = .failed e) : Undone registry command run := by
  refine Command.of_run?_failed hrun hfailed (undone_of_still _ _ _) fun action hresolve ↦ ?_
  cases command with
  | create target origin =>
    obtain ⟨making, hmaking, rfl⟩ := Command.resolve_create hresolve
    obtain ⟨resolved, hmap, hpure⟩ := Resolved.run_bind_eq_ok.1 hmaking
    obtain rfl := Resolved.run_pure_eq_ok.1 hpure
    refine ⟨_, Registry.keep_follows _ target (resolved.action_follows registry), fun h ↦ ?_⟩
    refine undone_of_making resolved.making (fun hdriven ↦ resolved.failsEarly ?_) h
    rw [Origin.drives_of_mapM hmap]
    exact hdriven
  | derive target source derivation =>
    obtain ⟨making, list, hmaking, -, rfl⟩ := Command.resolve_derive hresolve
    obtain ⟨resolved, -, hpure⟩ := Resolved.run_bind_eq_ok.1 hmaking
    obtain rfl := Resolved.run_pure_eq_ok.1 hpure
    refine ⟨_, Registry.keep_follows _ target (resolved.action_follows list registry), fun h ↦ ?_⟩
    exact undone_of_making resolved.making (fun _ ↦ resolved.failsEarly) h
  | operate name operation =>
    obtain ⟨known, list, work, rfl, hfind, hwork, rfl⟩ := Command.resolve_operate hresolve
    obtain ⟨resolved, hmap, hpure⟩ := Resolved.run_bind_eq_ok.1 hwork
    obtain rfl := Resolved.run_pure_eq_ok.1 hpure
    exact ⟨_, Registry.visit_follows known (resolved.action_follows list),
      undone_of_visit hfind (Operation.role_of_mapM hmap)⟩
  | drop name =>
    rw [Command.resolve_drop hresolve]
    refine ⟨_, Registry.drop_follows _ name registry, fun h ↦ ?_⟩
    rw [Registry.result_dropCourse] at h
    cases h

end UniformList
end ListRuntime
