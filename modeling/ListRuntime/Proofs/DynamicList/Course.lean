import ListRuntime.DynamicList.Command
import ListRuntime.Proofs.UniformList.Command

/-!
# Courses of operations on dynamic lists

A dynamic list does what the uniform list inside does, in dynamic values.  Its courses are those of
`ListRuntime.Proofs.UniformList`, seen from outside, with the promotion of values before them.

* `insideCourse` works on the list inside, `wrapCourse` makes a dynamic list of a uniform one.
* `Operation.course`, `Origin.course` and `Derivation.course` are the courses of all commands.
-/

set_option autoImplicit false

namespace ListRuntime
namespace DynamicList

open ListRuntime.Action UniformList

variable {σ β : Type} {mem : Allocator}

/-! ## Inside -/

/-- Work on the list inside. -/
def insideCourse
    (course : (kind : Kind) → UniformList kind.Carrier →
      Course kind.Carrier (UniformList kind.Carrier) β)
    (dynamic : DynamicList) : Course Value DynamicList β :=
  (course dynamic.kind dynamic.list).within toValue (⟨dynamic.kind, ·⟩)

/-- Make a dynamic list of a new uniform one. -/
def wrapCourse (kind : Kind) (making : Course kind.Carrier σ (UniformList kind.Carrier)) :
    Course Value σ DynamicList :=
  (making.within toValue id).map (⟨kind, ·⟩)

theorem inside_follows
    {action : (kind : Kind) → Action kind.Carrier (UniformList kind.Carrier) β}
    {course : (kind : Kind) → UniformList kind.Carrier →
      Course kind.Carrier (UniformList kind.Carrier) β}
    (h : ∀ kind list, (action kind).Follows mem list (course kind list)) (dynamic : DynamicList) :
    (inside action).Follows mem dynamic (insideCourse course dynamic) :=
  Follows.get_bind (.within (h dynamic.kind dynamic.list))

theorem wrap_follows {kind : Kind} {making : Action kind.Carrier σ (UniformList kind.Carrier)}
    {s : σ} {course : Course kind.Carrier σ (UniformList kind.Carrier)}
    (h : making.Follows mem s course) :
    (wrap kind making).Follows mem s (wrapCourse kind course) :=
  (Follows.within h).map _

/-! ## Operations that take values in -/

section
variable {α : Type}

/-- Promote first, and go on with what comes of it. -/
def promotedCourse {ι : Type} (promoted : Except ListError ι)
    (course : ι → UniformList α → Course α (UniformList α) β) (list : UniformList α) :
    Course α (UniformList α) β :=
  (⟨[], list, promoted⟩ : Course α (UniformList α) ι).bind course

theorem promoted_follows {ι : Type} (promoted : Except ListError ι)
    {action : ι → Action α (UniformList α) β}
    {course : ι → UniformList α → Course α (UniformList α) β} {list : UniformList α}
    (h : ∀ i, (action i).Follows mem list (course i list)) :
    (liftM promoted >>= action).Follows mem list (promotedCourse promoted course list) :=
  Follows.bind (Follows.ofExcept promoted) fun i _ ↦ h i

end

/-- Append the elements of another list, promoted if need be. -/
def extendFromCourse (mem : Allocator) (other : DynamicList) :
    DynamicList → Course Value DynamicList Unit :=
  insideCourse fun kind list ↦
    match other.itemsAs? kind with
    | some items => extendCourse mem items list
    | none => tryExtendCourse mem other.length (other.values.map promote) list

theorem extendFrom_follows (other dynamic : DynamicList) :
    (extendFrom other).Follows mem dynamic (extendFromCourse mem other dynamic) := by
  refine inside_follows (fun kind list ↦ ?_) dynamic
  cases other.itemsAs? kind with
  | some items => exact extendFromList_follows list items
  | none => exact tryExtend_follows list _ _

/-- Assign the elements of another list to a slice, all of them promoted beforehand. -/
def setSliceCourse (mem : Allocator) (slice : Slice) (other : DynamicList) :
    DynamicList → Course Value DynamicList Unit :=
  insideCourse fun kind list ↦
    match other.itemsAs? kind with
    | some items => UniformList.setSliceCourse mem slice items list
    | none => promotedCourse (promoteAll other.values) (UniformList.setSliceCourse mem slice) list

theorem setSlice_follows (slice : Slice) (other dynamic : DynamicList) :
    (setSlice slice other).Follows mem dynamic (setSliceCourse mem slice other dynamic) := by
  refine inside_follows (fun kind list ↦ ?_) dynamic
  cases other.itemsAs? kind with
  | some items => exact UniformList.setSlice_follows list slice items
  | none => exact promoted_follows _ fun items ↦ UniformList.setSlice_follows list slice items

/-! ## Commands -/

/-- What an operation does to a dynamic list. -/
def Operation.course (mem : Allocator) (operation : Operation DynamicList)
    (dynamic : DynamicList) : Course Value DynamicList (Answer Value) :=
  let silent (course : Course Value DynamicList Unit) : Course Value DynamicList (Answer Value) :=
    course.map fun _ ↦ .done
  match operation with
  | read i => ⟨[], dynamic, (dynamic.read i).map .element⟩
  | assign i value => silent (insideCourse (fun _ ↦ promotedCourse (promote value) fun a ↦
      atIndex i (overwriteCourse · a)) dynamic)
  | delete i => silent (insideCourse (fun _ ↦ atIndex i withdrawCourse) dynamic)
  | append value => silent (insideCourse (fun _ ↦ promotedCourse (promote value) fun a ↦
      extendCourse mem [a]) dynamic)
  | insert position value => silent (insideCourse (fun _ ↦ promotedCourse (promote value) fun a ↦
      storeCourse mem [a] fun roomy ↦
        roomy.toList.insertIdx (clampPosition position roomy.length) a) dynamic)
  | pop i => (insideCourse (fun _ list ↦ (popCourse i list).map toValue) dynamic).map .element
  | remove value => silent (insideCourse (fun _ ↦
      removeCourse fun a ↦ (toValue a).equal value) dynamic)
  | clear => silent (insideCourse (fun _ ↦ shrinkCourse 0) dynamic)
  | reverse => silent (insideCourse (fun _ list ↦
      .done (list.holding list.toList.reverse) ()) dynamic)
  | extendSelf => silent (insideCourse (fun _ list ↦ extendCourse mem list.toList list) dynamic)
  | extendValues values => silent (insideCourse (fun _ ↦
      tryExtendCourse mem values.length (values.map promote)) dynamic)
  | extendFrom other => silent (extendFromCourse mem other dynamic)
  | setSlice s other => silent (setSliceCourse mem s other dynamic)
  | delSlice s => silent (insideCourse (fun _ ↦ delSliceCourse mem s) dynamic)
  | contains value => .done dynamic (.truth (dynamic.contains value))
  | count value => .done dynamic (.number (dynamic.count value))
  | index value start stop => ⟨[], dynamic, (dynamic.index value start stop).map .number⟩
  | equal other => .done dynamic (.truth (dynamic.equal other))
  | text => .done dynamic (.text dynamic.text)
  | summary => .done dynamic (.summary dynamic.length dynamic.kind dynamic.growth)

theorem Operation.action_follows (operation : Operation DynamicList) (dynamic : DynamicList) :
    operation.action.Follows mem dynamic (operation.course mem dynamic) := by
  cases operation with
  | read i => exact .inquire _ _
  | assign i value =>
    exact (inside_follows (fun _ list ↦ promoted_follows _ fun a ↦
      assign_follows list i a) dynamic).silently
  | delete i => exact (inside_follows (fun _ list ↦ delete_follows list i) dynamic).silently
  | append value =>
    exact (inside_follows (fun _ list ↦ promoted_follows _ fun a ↦
      append_follows list a) dynamic).silently
  | insert position value =>
    exact (inside_follows (fun _ list ↦ promoted_follows _ fun a ↦
      insert_follows list position a) dynamic).silently
  | pop i =>
    exact (inside_follows (fun _ list ↦ (pop_follows list i).map toValue) dynamic).map
      Answer.element
  | remove value =>
    exact (inside_follows (fun _ list ↦ removeWhere_follows list _) dynamic).silently
  | clear => exact (inside_follows (fun _ list ↦ shrinkTo_follows list 0) dynamic).silently
  | reverse => exact (inside_follows (fun _ list ↦ reverse_follows list) dynamic).silently
  | extendSelf => exact (inside_follows (fun _ list ↦ extendSelf_follows list) dynamic).silently
  | extendValues values =>
    exact (inside_follows (fun _ list ↦ tryExtend_follows list _ _) dynamic).silently
  | extendFrom other => exact (extendFrom_follows other dynamic).silently
  | setSlice s other => exact (setSlice_follows s other dynamic).silently
  | delSlice s => exact (inside_follows (fun _ list ↦ delSlice_follows list s) dynamic).silently
  | contains value | count value | equal other | text | summary => exact .ask _
  | index value start stop => exact .inquire _ _

/-- What it takes to make a dynamic list of values. -/
def Origin.course (mem : Allocator) (origin : Origin) (s : σ) : Course Value σ DynamicList :=
  match origin with
  | empty kind growth => .done s (DynamicList.empty kind growth)
  | ofValues declared values =>
    (⟨[], s, unifyKinds declared values⟩ : Course Value σ Kind).bind fun kind s ↦
      wrapCourse kind (buildCourse mem .standard values.length
        (tryExtendCourse mem values.length (values.map promote)) s)
  | ofPromoted kind values =>
    wrapCourse kind ((⟨[], s, promoteAll values⟩ : Course kind.Carrier σ _).bind fun items ↦
      buildCourse mem .standard items.length (extendCourse mem items))

theorem Origin.action_follows (origin : Origin) (s : σ) :
    (origin.action : Action Value σ DynamicList).Follows mem s (origin.course mem s) := by
  cases origin with
  | empty kind growth => exact .pure _
  | ofValues declared values =>
    exact Follows.bind (Follows.ofExcept _) fun kind _ ↦
      wrap_follows (build_follows (fun list ↦ tryExtend_follows list _ _) s)
  | ofPromoted kind values =>
    exact wrap_follows (Follows.bind (Follows.ofExcept _) fun items _ ↦
      build_follows (fun list ↦ extendFromList_follows list items) s)

/-- Fill a list of a wider kind with the elements of two others. -/
def blendCourse (mem : Allocator) (kind : Kind) (dynamic other : DynamicList) (s : σ) :
    Course Value σ DynamicList :=
  ((extendFromCourse mem dynamic (DynamicList.empty kind dynamic.growth)).bind fun _ ↦
    extendFromCourse mem other).construct values s

/-- Make a dynamic list of two others. -/
def concatCourse (mem : Allocator) (dynamic other : DynamicList) (s : σ) :
    Course Value σ DynamicList :=
  match other.itemsAs? dynamic.kind with
  | some items => wrapCourse dynamic.kind (dynamic.list.concatCourse mem items s)
  | none =>
    match dynamic.kind.unify? other.kind with
    | none => .fail s (.noCommonKind dynamic.kind other.kind)
    | some kind => blendCourse mem kind dynamic other s

theorem concat_follows (dynamic other : DynamicList) (s : σ) :
    (dynamic.concat other).Follows mem s (concatCourse mem dynamic other s) := by
  rw [concat, concatCourse]
  cases other.itemsAs? dynamic.kind with
  | some items => exact wrap_follows (UniformList.concat_follows dynamic.list s items)
  | none =>
    dsimp only
    cases dynamic.kind.unify? other.kind with
    | none => exact .throw _
    | some kind =>
      exact Follows.construct ((extendFrom_follows dynamic _).bind fun _ _ ↦
        extendFrom_follows other _)

/-- What it takes to make a dynamic list of a dynamic list. -/
def Derivation.course (mem : Allocator) (dynamic : DynamicList)
    (derivation : Derivation DynamicList)
    (s : σ) : Course Value σ DynamicList :=
  match derivation with
  | copy => wrapCourse dynamic.kind
      (buildCourse mem dynamic.growth dynamic.length (extendCourse mem dynamic.list.toList) s)
  | concat other => concatCourse mem dynamic other s
  | repetition times => wrapCourse dynamic.kind (dynamic.list.repetitionCourse mem times s)
  | slice written => wrapCourse dynamic.kind (dynamic.list.sliceCourse mem written s)

theorem Derivation.action_follows (dynamic : DynamicList) (derivation : Derivation DynamicList)
    (s : σ) : (derivation.action dynamic : Action Value σ DynamicList).Follows mem s
      (derivation.course mem dynamic s) := by
  cases derivation with
  | copy =>
    exact wrap_follows
      (build_follows (fun list ↦ extendFromList_follows list dynamic.list.toList) s)
  | concat other => exact concat_follows dynamic other s
  | repetition times => exact wrap_follows (repetition_follows dynamic.list s times)
  | slice written => exact wrap_follows (slice_follows dynamic.list s written)

end DynamicList
end ListRuntime
