import ListRuntime.Proofs.Session.Alike
import ListRuntime.Proofs.UniformList.Allocation

/-!
# Where memory suffices

Room is refused only where the allocator refuses, or where there are to be more elements than a
buffer can have.  So a command that is given memory for all that it takes in is not refused any: if
it fails, it fails for a reason of its own, like an index out of range.  An iterator may say of
itself that room was refused, and then it is taken at its word.

* `Course.Unrefused` says of a course that it does not fail for want of room.
* `Operation.demand`, `Origin.demand` and `Derivation.demand` are the numbers of elements that there
  has to be memory for; `Operation.unrefused`, `Origin.unrefused` and `Derivation.unrefused` say that
  this is enough.
* `ListCommand.needs` is what a command needs, and `ListCommand.isRefusal_of_run?` says that it is
  not refused room if it gets that.
-/

set_option autoImplicit false

namespace ListRuntime

open ListRuntime.Action

namespace Course

variable {α σ β β' : Type} {s : σ} {course : Course α σ β}

/-- If the course fails, then not because room was refused. -/
def Unrefused (course : Course α σ β) : Prop := ∀ e, course.result = .error e → e.isRefusal = false

theorem Unrefused.of_ok {b : β} (h : course.result = .ok b) : course.Unrefused := by
  intro e he
  cases h.symm.trans he

theorem Unrefused.of_error {e : ListError} (h : course.result = .error e)
    (hrefusal : e.isRefusal = false) : course.Unrefused := by
  intro e' he
  cases h.symm.trans he
  exact hrefusal

theorem Unrefused.map {f : β → β'} (h : course.Unrefused) : (course.map f).Unrefused :=
  fun e he ↦ h e (of_map_error he)

/-- A course whose run does not fail does not fail either. -/
theorem Unrefused.of_run (h : ∀ e, (course.run none).ending ≠ .failed e) : course.Unrefused := by
  intro e he
  refine absurd ?_ (h e)
  rw [run_of_spares _ (Mishap.spares_none _), ending, he]

/-- Nor does any run of it end because room was refused. -/
theorem Unrefused.run (h : course.Unrefused) (mishap : Mishap) :
    (course.run mishap).ending.isRefusal = false := by
  cases hending : (course.run mishap).ending with
  | failed e => exact h e (of_run_failed hending).1
  | returned b => rfl
  | unwound call => rfl

end Course

open Course

namespace UniformList

variable {α σ : Type} {mem : Allocator} {list : UniformList α} {s : σ}

/-! ## What operations take in -/

/-- What an operation draws from an iterator. -/
def Operation.yielded : Operation α (List α) → List (Except ListError α)
  | extend items _ => items.map .ok
  | tryExtend yielded _ => yielded
  | _ => []

/-- The failures that an iterator reports. -/
def Operation.reports (operation : Operation α (List α)) : List ListError :=
  operation.yielded.filterMap fun
    | .ok _ => none
    | .error e => some e

/-- How many elements there has to be memory for: those that the operation makes room for at first,
and all that there are in the end, whatever the iterator announces. -/
def Operation.demand (list : UniformList α) (operation : Operation α (List α)) : Nat :=
  max ((operation.needed? list).getD 0) (list.length + operation.yielded.length)

theorem Operation.mem_reports {operation : Operation α (List α)} {e : ListError}
    (h : .error e ∈ operation.yielded) : e ∈ operation.reports :=
  List.mem_filterMap.2 ⟨.error e, h, rfl⟩

/-! ## What fails for a reason of its own -/

theorem unrefused_atIndex {course : Nat → UniformList α → Course α (UniformList α) Unit}
    (hcourse : ∀ position, (course position list).result = .ok ()) (index : Int64) :
    (atIndex index course list).Unrefused := by
  rw [atIndex]
  split
  · exact .of_ok (hcourse _)
  · exact .of_error rfl rfl

theorem unrefused_pop (index : Option Int64) : (popCourse index list).Unrefused := by
  rw [popCourse]
  split
  · exact .of_error rfl rfl
  · split
    · exact .of_ok rfl
    · exact .of_error rfl rfl

theorem unrefused_remove (test : α → Bool) : (removeCourse test list).Unrefused := by
  rw [removeCourse]
  split
  · exact .of_ok rfl
  · exact .of_error rfl rfl

theorem unrefused_read (index : Int64) :
    (⟨[], list, list.read index⟩ : Course α (UniformList α) α).Unrefused := by
  unfold read
  split
  · exact .of_ok rfl
  · exact .of_error rfl rfl

theorem unrefused_index [Element α] (a : α) (start stop : Option Int64) :
    (⟨[], list, list.index a start stop⟩ : Course α (UniformList α) Nat).Unrefused := by
  rw [index, indexWhere]
  split
  · exact .of_ok rfl
  · exact .of_error rfl rfl

variable [Element α]

theorem unrefused_setSlice (h : list.Fits) {slice : Slice} (hone : slice.stride ≠ 1)
    (items : List α) : (setSliceCourse mem slice items list).Unrefused := by
  by_cases hzero : slice.stride = 0
  · rw [setSliceCourse_of_zero hzero]
    exact .of_error rfl rfl
  · rw [setSliceCourse_of_stepped h hzero hone]
    split
    · exact .of_ok (result_overwriteEach _ list)
    · exact .of_error rfl rfl

theorem unrefused_delSlice (h : list.Fits) (slice : Slice) :
    (delSliceCourse mem slice list).Unrefused := by
  by_cases hzero : slice.stride = 0
  · rw [delSliceCourse_of_zero hzero]
    exact .of_error rfl rfl
  · obtain ⟨released, -, hcourse⟩ := delSliceCourse_eq h hzero
    rw [hcourse]
    exact .of_ok rfl

/-- **An operation that needs no room is not refused any.** -/
theorem Operation.unrefused_of_none (h : list.Fits) {operation : Operation α (List α)}
    (hneeded : operation.needed? list = none) : (operation.course mem list).Unrefused := by
  cases operation with
  | append _ | insert _ _ | extendSelf | extendFromList _ | extend _ _ | tryExtend _ _
  | ensureCapacity _ => cases hneeded
  | clear | reverse | shrinkTo _ | contains _ | count _ | equal _ | elements | text | summary =>
    exact .of_ok rfl
  | read i => exact (unrefused_read i).map
  | index a start stop => exact (unrefused_index a start stop).map
  | assign i a => exact (unrefused_atIndex (fun _ ↦ rfl) i).map
  | delete i => exact (unrefused_atIndex (fun _ ↦ rfl) i).map
  | pop i => exact (unrefused_pop i).map
  | remove a => exact (unrefused_remove _).map
  | delSlice slice => exact (unrefused_delSlice h slice).map
  | setSlice slice items =>
    rw [needed?] at hneeded
    split at hneeded
    · cases hneeded
    · next hone => exact (unrefused_setSlice h hone items).map

/-! ## Operations -/

/-- With memory for all that an iterator may yield, what is left to fail is the iterator. -/
theorem unrefused_tryExtend (h : list.Fits) {hint : Nat} {yielded : List (Except ListError α)}
    (hhint : mem.Affords α (list.length + hint))
    (hmem : mem.Affords α (list.length + yielded.length))
    (hreports : ∀ e, .error e ∈ yielded → e.isRefusal = false) :
    (tryExtendCourse mem hint yielded list).Unrefused := by
  rcases completes_or_firstFailure mem list hint yielded with
    ⟨items, after, hcompletes⟩ | ⟨taken, e, hfailure⟩
  · obtain ⟨stages, -, hcourse⟩ := hcompletes.course_eq
    rw [hcourse]
    exact .of_ok rfl
  · obtain ⟨stages, after, -, -, hcourse⟩ := hfailure.course_eq
    rw [hcourse]
    exact .of_error rfl (hreports e (hfailure.mem_yielded h hhint hmem))

/-- **Where there is memory for what it takes in, an operation is not refused room.** -/
theorem Operation.unrefused (h : list.Fits) {operation : Operation α (List α)}
    (hmem : mem.Affords α (operation.demand list))
    (hreports : ∀ e ∈ operation.reports, e.isRefusal = false) :
    (operation.course mem list).Unrefused := by
  have hyielded := hmem.mono (Nat.le_max_right _ _)
  cases hneeded : operation.needed? list with
  | none => exact unrefused_of_none h hneeded
  | some needed =>
    have hfirst : mem.Affords α needed := by
      rw [demand, hneeded] at hmem
      exact hmem.mono (Nat.le_max_left _ _)
    by_cases hrole : operation.role = .drives
    · cases operation with
      | extend _ _ | tryExtend _ _ =>
        cases hneeded
        exact (unrefused_tryExtend h hfirst hyielded fun e he ↦ hreports e (mem_reports he)).map
      | _ => cases hrole
    · have hdecided : DecidedBy (list.verdict mem needed) list (Succeeds needed)
          ((operation.course mem list).run none) := operation.decided h hrole hneeded
      exact .of_run (hdecided.of_none (Layout.verdict_of_affords hfirst _ _)).2

/-! ## New lists -/

/-- How many elements there has to be memory for to make a list of elements. -/
def Origin.demand : Origin (List α) → Nat
  | empty _ => 0
  | withCapacity room => room
  | ofList items => items.length
  | ofIterator items hint => max (hint.getD items.length) items.length

/-- How many there has to be memory for to make a list of a list. -/
def Derivation.demand (list : UniformList α) (derivation : Derivation (List α)) : Nat :=
  (derivation.needed? list).getD 0

/-- A new list that is filled from an iterator is filled to the end. -/
theorem unrefused_ofIterator (growth : Growth) {hint : Nat} {items : List α}
    (hhint : mem.Affords α hint) (hmem : mem.Affords α items.length) :
    (buildCourse mem growth hint (tryExtendCourse mem hint (items.map .ok)) s).Unrefused := by
  obtain ⟨start, hroom⟩ := newRoom_of_affords growth hhint
  obtain ⟨hfits, hnil, -, -⟩ := fits_of_newRoom hroom
  have hlength : start.length = 0 := by rw [← length_toList, hnil, List.length_nil]
  obtain ⟨after, hcompletes⟩ : ∃ after, Completes mem start hint (items.map .ok) items after :=
    completes_of_affords hfits (by rwa [hlength, Nat.zero_add]) (by rwa [hlength, Nat.zero_add])
  obtain ⟨stages, -, hcourse⟩ := hcompletes.course_eq
  have hfilled : (tryExtendCourse mem hint (items.map .ok) start).result = .ok () := by
    rw [hcourse]
    rfl
  rw [buildCourse, hroom]
  exact .of_ok (result_construct hfilled)

/-- **Where there is memory for its elements, a new list is not refused room.** -/
theorem Origin.unrefused {origin : Origin (List α)} (hmem : mem.Affords α origin.demand) :
    (origin.course mem s).Unrefused := by
  have hverdict := Layout.verdict_of_affords hmem 0 origin.demand
  cases origin with
  | empty growth => exact .of_ok rfl
  | withCapacity room => exact .of_run ((decided _ rfl rfl).of_none hverdict).2
  | ofList items => exact .of_run ((decided _ rfl rfl).of_none hverdict).2
  | ofIterator items hint =>
    exact unrefused_ofIterator .standard (hmem.mono (Nat.le_max_left _ _))
      (hmem.mono (Nat.le_max_right _ _))

/-- **So it is with a list that is made of a list.** -/
theorem Derivation.unrefused (h : list.Fits) {derivation : Derivation (List α)}
    (hmem : mem.Affords α (derivation.demand list)) :
    (derivation.course mem list s).Unrefused := by
  cases hneeded : derivation.needed? list with
  | some needed =>
    rw [demand, hneeded] at hmem
    exact .of_run ((derivation.decided h hneeded).of_none
      (Layout.verdict_of_affords hmem _ _)).2
  | none =>
    cases derivation with
    | copy | concat _ | repetition _ => cases hneeded
    | slice written =>
      rw [needed?] at hneeded
      split at hneeded
      · next hzero =>
        have hroom : room list (.slice written) = .error .zeroStep := by
          rw [room, Slice.resolve_eq_error_iff.2 ⟨hzero, rfl⟩]
          rfl
        rw [course_of_error _ _ hroom]
        exact .of_error rfl rfl
      · cases hneeded

/-! ## Commands -/

/-- What a command needs so that it is not refused room. -/
structure Needs where
  /-- How many elements there has to be memory for. -/
  room : Nat
  /-- The failures that it brings with it: that of a value that does not promote, or those that an
  iterator reports. -/
  reports : List ListError

/-- There is memory for what is needed, and no failure that a command brings with it says that room
was refused. -/
structure Needs.Met (α : Type) [Element α] (mem : Allocator) (needs : Needs) : Prop where
  /-- There is memory. -/
  affords : mem.Affords α needs.room
  /-- The failures are of other kinds. -/
  reports : ∀ e ∈ needs.reports, e.isRefusal = false

variable {registry : Registry (UniformList α)}

/-- What a command needs, if it resolves. -/
def ListCommand.resolvedNeeds (registry : Registry (UniformList α)) :
    ListCommand → Resolved Needs
  | .create _ origin => do
    let origin ← origin.mapM (Operand.elements registry)
    return ⟨origin.demand, []⟩
  | .derive _ source derivation => do
    let derivation ← derivation.mapM (Operand.elements registry)
    let list ← Resolved.named registry source
    return ⟨derivation.demand list, []⟩
  | .operate name operation => do
    let operation ← operation.mapM (promote : Value → Except ListError α) Resolved.ofExcept
      (Operand.elements registry)
    let name ← Resolved.ofOption name
    let list ← Resolved.named registry name
    return ⟨operation.demand list, operation.reports⟩
  | .drop _ => return ⟨0, []⟩

/-- What a command needs.  One that does not resolve needs no memory, but brings its failure. -/
def ListCommand.needs (registry : Registry (UniformList α)) (command : ListCommand) : Needs :=
  match (command.resolvedNeeds registry).run with
  | some (.ok needs) => needs
  | some (.error e) => ⟨0, [e]⟩
  | none => ⟨0, []⟩

/-- Where its needs are met, an action is not refused room. -/
def Needs.Covers (mem : Allocator) (registry : Registry (UniformList α)) (needs : Needs)
    (action : Action α (Registry (UniformList α)) (Answer α)) : Prop :=
  ∃ course, action.Follows mem registry course ∧ (needs.Met α mem → course.Unrefused)

/-- Putting a list under a name is not refused room if making it is not. -/
theorem covers_keep (name : String) {needs : Needs}
    {making : Action α (Registry (UniformList α)) (UniformList α)}
    {course : Course α (Registry (UniformList α)) (UniformList α)}
    (hfollows : making.Follows mem registry course)
    (h : mem.Affords α needs.room → course.Unrefused) :
    needs.Covers mem registry (Command.keep vocabulary name making) :=
  ⟨_, Registry.keep_follows vocabulary name hfollows, fun hmet e he ↦
    h hmet.affords e (Registry.of_keepCourse_error he).1⟩

/-- **Its needs cover what a command comes to.** -/
theorem ListCommand.covers_resolve (mem : Allocator) (h : registry.All Fits)
    (command : ListCommand) :
    (command.resolvedNeeds registry).Alike (Needs.Covers mem registry)
      (command.resolve vocabulary registry) := by
  have hnamed (name : String) : (Resolved.named registry name).Alike
      (fun list list' ↦ list = list' ∧ list.Fits) (Resolved.named registry name) := by
    rw [Resolved.named]
    cases hfind : registry.find? name with
    | none => exact .meaningless
    | some list => exact .resolved ⟨rfl, h.of_find? hfind⟩
  cases command with
  | create target origin =>
    simp only [resolvedNeeds, Command.resolve, vocabulary, bind_assoc, pure_bind]
    refine (Resolved.Alike.refl (fun _ ↦ rfl) _).bind fun origin _ heq ↦ ?_
    subst heq
    exact .pure (covers_keep target (origin.action_follows registry) Origin.unrefused)
  | derive target source derivation =>
    simp only [resolvedNeeds, Command.resolve, vocabulary, bind_assoc, pure_bind]
    refine (Resolved.Alike.refl (fun _ ↦ rfl) _).bind fun derivation _ heq ↦
      (hnamed source).bind fun list _ hlist ↦ ?_
    obtain ⟨rfl, hfits⟩ := hlist
    subst heq
    exact .pure (covers_keep target (derivation.action_follows list registry)
      (Derivation.unrefused hfits))
  | operate name operation =>
    simp only [resolvedNeeds, Command.resolve, vocabulary, bind_assoc, pure_bind]
    refine (Resolved.Alike.refl (fun _ ↦ rfl) _).bind fun operation _ heq ↦
      (Resolved.Alike.refl (fun _ ↦ rfl) (Resolved.ofOption name)).bind fun known _ hknown ↦ ?_
    subst heq hknown
    refine (hnamed known).bind fun list _ hlist ↦ ?_
    obtain ⟨rfl, hfits⟩ := hlist
    exact .pure ⟨_, Registry.visit_follows known (operation.action_follows list),
      fun hmet ↦ Operation.unrefused hfits hmet.affords hmet.reports⟩
  | drop name =>
    exact .pure ⟨_, Registry.drop_follows _ name registry,
      fun _ ↦ .of_ok (Registry.result_dropCourse _ name registry)⟩

/-- **A command whose needs are met is not refused room**, whichever hook unwinds. -/
theorem ListCommand.isRefusal_of_run? {mishap : Mishap} (h : registry.All Fits)
    {command : ListCommand} (hmet : (command.needs registry).Met α mem)
    {run : Run α (Registry (UniformList α)) (Answer α)}
    (hrun : command.run? vocabulary mem mishap registry = some run) :
    run.ending.isRefusal = false := by
  have hcovers := command.covers_resolve mem h
  rw [Command.run?] at hrun
  rw [needs] at hmet
  generalize command.resolvedNeeds registry = needs at hcovers hmet
  generalize command.resolve vocabulary registry = resolved at hcovers hrun
  cases hcovers with
  | meaningless => cases hrun
  | failed e =>
    cases hrun
    exact hmet.reports e (List.mem_singleton_self e)
  | resolved hcourse =>
    obtain ⟨course, hfollows, hunrefused⟩ := hcourse
    cases hrun
    dsimp only
    rw [Command.run_carryOut_ok, hfollows mishap]
    exact (hunrefused hmet).run mishap

end UniformList
end ListRuntime
