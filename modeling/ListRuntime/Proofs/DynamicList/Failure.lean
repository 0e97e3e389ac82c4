import ListRuntime.Proofs.DynamicList.Course
import ListRuntime.Proofs.Inference
import ListRuntime.Proofs.UniformList.Failure

/-!
# Failures of operations on dynamic lists

What a failure leaves of a dynamic list is what it leaves of the uniform list inside.  Promotion is
one more way to fail, and it comes first; only where values are appended one by one may a value fail
to promote after others have been appended.

* `DynamicList.Kept` is what a failure leaves of a list.
* `Operation.failsEarly` is about the operations that draw on no iterator, `Operation.kept_of_error`
  about all of them.
* `Origin.failsEarly`: once the kind of values is inferred, all of them promote to it
  (`promoted_of_unifyKinds`).
* `concat` of two kinds may fail when it has appended the first list; it has released it then, and
  the elements are numbers (`concat_of_error`).
-/

set_option autoImplicit false

namespace ListRuntime

open ListRuntime.Action Course HookCall

namespace DynamicList

variable {σ β : Type} {mem : Allocator} {dynamic : DynamicList} {s : σ}

/-! ## What a failure leaves -/

/-- Whether the operation draws its elements from an iterator, on a list of the given kind.  The
elements of another list are promoted one by one if they are of another kind. -/
def Operation.drives (kind : Kind) : Operation DynamicList → Bool
  | extendValues _ => true
  | extendFrom other => other.kind ≠ kind
  | _ => false

/-- What an operation that fails leaves of a list. -/
structure Kept (before after : DynamicList) : Prop where
  /-- The same kind. -/
  kind_eq : after.kind = before.kind
  /-- The same elements in the same order. -/
  values_eq : after.values = before.values
  /-- The same policy. -/
  growth_eq : after.growth = before.growth
  /-- No room is given up. -/
  capacity_le : before.list.capacity ≤ after.list.capacity

theorem Kept.refl (dynamic : DynamicList) : Kept dynamic dynamic :=
  ⟨rfl, rfl, rfl, Nat.le_refl _⟩

theorem Kept.of_inside {list : UniformList dynamic.kind.Carrier}
    (h : UniformList.Kept dynamic.list list) : Kept dynamic ⟨dynamic.kind, list⟩ :=
  ⟨rfl, congrArg (List.map toValue) h.toList_eq, h.growth_eq, h.capacity_le⟩

variable {course : (kind : Kind) → UniformList kind.Carrier →
  Course kind.Carrier (UniformList kind.Carrier) β}

theorem failsEarly_inside (h : (course dynamic.kind dynamic.list).FailsEarly dynamic.list) :
    (insideCourse course dynamic).FailsEarly dynamic :=
  h.within

theorem failsEarly_promoted {α ι : Type} {promoted : Except ListError ι} {list : UniformList α}
    {next : ι → UniformList α → Course α (UniformList α) β}
    (h : ∀ i, (next i list).FailsEarly list) :
    (promotedCourse promoted next list).FailsEarly list :=
  .bind_still fun i _ ↦ h i

theorem failsEarly_wrap {kind : Kind} {making : Course kind.Carrier σ (UniformList kind.Carrier)}
    (h : making.FailsEarly s) : (wrapCourse kind making).FailsEarly s :=
  h.within.map

/-- **Operations that draw on no iterator fail before they do anything.** -/
theorem Operation.failsEarly (operation : Operation DynamicList)
    (h : operation.drives dynamic.kind = false) :
    (operation.course mem dynamic).FailsEarly dynamic := by
  cases operation with
  | extendValues values => cases h
  | read i | contains value | count value | index value start stop | equal other | text
  | summary => exact .still _
  | assign i value =>
    exact (failsEarly_inside (failsEarly_promoted fun a ↦
      UniformList.failsEarly_atIndex (fun _ ↦ rfl) i)).map
  | delete i => exact (failsEarly_inside (UniformList.failsEarly_atIndex (fun _ ↦ rfl) i)).map
  | append value =>
    exact (failsEarly_inside (failsEarly_promoted fun a ↦
      UniformList.failsEarly_store [a] _)).map
  | insert position value =>
    exact (failsEarly_inside (failsEarly_promoted fun a ↦
      UniformList.failsEarly_store [a] _)).map
  | pop i => exact (failsEarly_inside (UniformList.failsEarly_pop i).map).map
  | remove value => exact (failsEarly_inside (UniformList.failsEarly_remove _)).map
  | clear | reverse => exact .of_ok rfl
  | extendSelf => exact (failsEarly_inside (UniformList.failsEarly_store _ _)).map
  | extendFrom other =>
    have hkind : other.kind = dynamic.kind := by simpa [drives] using h
    refine (failsEarly_inside ?_).map
    rw [itemsAs?, dif_pos hkind]
    exact UniformList.failsEarly_store _ _
  | setSlice s other =>
    refine (failsEarly_inside ?_).map
    cases other.itemsAs? dynamic.kind with
    | some items => exact UniformList.failsEarly_setSlice s items
    | none => exact failsEarly_promoted fun items ↦ UniformList.failsEarly_setSlice s items
  | delSlice s => exact (failsEarly_inside (UniformList.failsEarly_delSlice s)).map

/-- Of the operations that draw on an iterator, the list inside is extended. -/
theorem Operation.course_of_drives (mem : Allocator) (operation : Operation DynamicList)
    (h : operation.drives dynamic.kind = true) :
    ∃ (hint : Nat) (values : List Value), operation.course mem dynamic =
      (insideCourse (fun _ ↦ UniformList.tryExtendCourse mem hint (values.map promote))
        dynamic).map fun _ ↦ .done := by
  cases operation with
  | extendValues values => exact ⟨_, _, rfl⟩
  | extendFrom other =>
    have hkind : other.kind ≠ dynamic.kind := by simpa [drives] using h
    have hother : other.itemsAs? dynamic.kind = none := dif_neg hkind
    refine ⟨other.length, other.values, ?_⟩
    simp only [course, extendFromCourse, insideCourse, hother]
  | _ => cases h

/-- **Whatever operation fails, the list is as it was**, but for its room. -/
theorem Operation.kept_of_error (operation : Operation DynamicList) {e : ListError}
    (h : (operation.course mem dynamic).result = .error e) :
    Kept dynamic (operation.course mem dynamic).state := by
  by_cases hdrives : operation.drives dynamic.kind = true
  · obtain ⟨hint, values, hcourse⟩ := operation.course_of_drives mem hdrives
    rw [hcourse] at h ⊢
    exact .of_inside (UniformList.kept_of_tryExtend (of_map_error h))
  · rw [operation.failsEarly (Bool.eq_false_iff.2 hdrives) e h]
    exact .refl dynamic

/-- **An operation that fails has released all that it acquired.** -/
theorem Operation.balance_of_error (operation : Operation DynamicList) {e : ListError}
    (h : (operation.course mem dynamic).result = .error e) (value : Value) :
    balance (operation.course mem dynamic).calls value = 0 := by
  by_cases hdrives : operation.drives dynamic.kind = true
  · obtain ⟨hint, values, hcourse⟩ := operation.course_of_drives mem hdrives
    rw [hcourse] at h ⊢
    rw [calls_map, insideCourse, calls_within]
    exact balance_map_eq_zero (toValue_injective dynamic.kind)
      (UniformList.balance_of_tryExtend (of_map_error h)) value
  · rw [operation.failsEarly (Bool.eq_false_iff.2 hdrives) e h]
    rfl

/-! ## New lists -/

/-- Values that promote are appended to a new list at once. -/
theorem makesAtOnce_values {kind : Kind} {values : List Value} {items : List kind.Carrier}
    (h : values.map promote = items.map .ok) (s : σ) :
    UniformList.MakesAtOnce .standard values.length items s fun mem ↦
      UniformList.buildCourse mem .standard values.length
        (UniformList.tryExtendCourse mem values.length (values.map promote)) s := by
  have hlength := length_of_promoted h
  rw [h]
  exact UniformList.makesAtOnce_build (UniformList.appends_tryExtend values.length items) .standard
    (Nat.max_le.2 ⟨Nat.le_refl _, Nat.le_of_eq hlength⟩) s

/-- **Making a list of values fails before anything is done.**  Values of which the kind was
inferred promote to it, and there is room for all of them. -/
theorem Origin.failsEarly (origin : Origin) : (origin.course mem s).FailsEarly s := by
  cases origin with
  | empty kind growth => exact .of_ok rfl
  | ofValues declared values =>
    refine .bind_still fun kind hkind ↦ failsEarly_wrap ?_
    obtain ⟨items, hitems⟩ := promoted_of_unifyKinds hkind
    exact (makesAtOnce_values hitems s).failsEarly mem
  | ofPromoted kind values =>
    exact failsEarly_wrap (.bind_still fun items _ ↦
      (UniformList.makesAtOnce_ofList items).failsEarly mem)

/-- Nothing is left of making a list, and nobody sees that it was tried. -/
structure Gone (s : σ) (course : Course Value σ DynamicList) : Prop where
  /-- The state outside is as before. -/
  state_eq : course.state = s
  /-- All that was acquired is released. -/
  balance_eq : ∀ value, balance course.calls value = 0
  /-- No hook does anything. -/
  observed_eq : observed course.calls = []

theorem Gone.of_failsEarly {course : Course Value σ DynamicList} (hcourse : course.FailsEarly s)
    {e : ListError} (h : course.result = .error e) : Gone s course := by
  rw [hcourse e h]
  exact ⟨rfl, fun _ ↦ rfl, rfl⟩

/-- How often a value is in a list. -/
def stock (dynamic : DynamicList) (value : Value) : Int := dynamic.values.count value

theorem conserves_inside {course : (kind : Kind) → UniformList kind.Carrier →
      Course kind.Carrier (UniformList kind.Carrier) Unit}
    (h : (course dynamic.kind dynamic.list).Conserves UniformList.stock nothing
      dynamic.list.stock) :
    (insideCourse course dynamic).Conserves stock nothing dynamic.stock := by
  have hinjective := toValue_injective dynamic.kind
  exact h.within hinjective (fun list ↦ spread_count hinjective list.toList)
    (spread_count hinjective dynamic.list.toList) fun _ ↦ ⟨fun _ ↦ rfl, fun _ _ ↦ rfl⟩

theorem conserves_extendFrom (other : DynamicList) :
    (extendFromCourse mem other dynamic).Conserves stock nothing dynamic.stock := by
  refine conserves_inside ?_
  cases other.itemsAs? dynamic.kind with
  | some items => exact UniformList.conserves_extend items
  | none => exact UniformList.conserves_tryExtend _ _

/-- Lists of numbers make no hook call that anyone could see. -/
theorem observed_eq_nil {calls : List (HookCall Value)}
    (h : ∀ call ∈ calls, ∀ r, call.element ≠ .ref r) : observed calls = [] := by
  refine List.filterMap_eq_nil_iff.2 fun call hmem ↦ ?_
  have hcall := h call hmem
  cases helement : call.element with
  | ref r => exact absurd helement (hcall r)
  | bool b | int i | float x => rfl

theorem not_ref_of_mem_calls_inside (hkind : dynamic.kind ≠ .ref) {call : HookCall Value}
    (h : call ∈ (insideCourse course dynamic).calls) (r : Reference) : call.element ≠ .ref r := by
  rw [insideCourse, calls_within] at h
  obtain ⟨inside, -, rfl⟩ := List.mem_map.1 h
  exact toValue_ne_ref hkind inside.element r

/-- Extending a list does not change its kind, wherever it ends. -/
theorem keeps_kind_extendFrom (mem : Allocator) (other dynamic : DynamicList) :
    (extendFromCourse mem other dynamic).Keeps fun after ↦ after.kind = dynamic.kind :=
  Keeps.within (Q := fun _ ↦ True) ⟨fun _ _ ↦ trivial, trivial⟩ fun _ _ ↦ rfl

/-- Appending two lists to a new one. -/
def blendFill (mem : Allocator) (kind : Kind) (dynamic other : DynamicList) :
    Course Value DynamicList Unit :=
  (extendFromCourse mem dynamic (empty kind dynamic.growth)).bind fun _ ↦ extendFromCourse mem other

theorem conserves_blendFill (kind : Kind) (other : DynamicList) :
    (blendFill mem kind dynamic other).Conserves stock nothing fun _ ↦ 0 := by
  have hstart : (empty kind dynamic.growth).stock = fun _ ↦ 0 := rfl
  rw [← hstart]
  refine (conserves_extendFrom dynamic).bind fun _ _ ↦ ?_
  simpa [nothing] using conserves_extendFrom other

/-- Its calls are about elements of its kind, up to where it ends. -/
theorem not_ref_of_blendFill (mem : Allocator) (dynamic other : DynamicList) {kind : Kind}
    (hkind : kind ≠ .ref) :
    (∀ call ∈ (blendFill mem kind dynamic other).calls, ∀ r, call.element ≠ .ref r) ∧
      (blendFill mem kind dynamic other).state.kind = kind := by
  have hfirst : (extendFromCourse mem dynamic (empty kind dynamic.growth)).state.kind = kind :=
    (keeps_kind_extendFrom mem dynamic _).state
  refine ⟨fun call hmem r ↦ ?_, ?_⟩
  · rcases mem_calls_bind hmem with hmem | ⟨-, -, hmem⟩
    · exact not_ref_of_mem_calls_inside hkind hmem r
    · exact not_ref_of_mem_calls_inside (hfirst.symm ▸ hkind) hmem r
  · have hkeeps : (blendFill mem kind dynamic other).Keeps fun after ↦ after.kind = kind :=
      (keeps_kind_extendFrom mem dynamic _).bind fun _ _ ↦
        (keeps_kind_extendFrom mem other _).imp fun _ heq ↦ heq.trans hfirst
    exact hkeeps.state

/-- Of two lists that are appended to one of numbers, all is released if that fails, and nobody
sees any of it. -/
theorem blend_of_error {kind : Kind} {other : DynamicList} {e : ListError}
    (hkind : kind ≠ .ref) (h : (blendCourse mem kind dynamic other s).result = .error e) :
    Gone s (blendCourse mem kind dynamic other s) := by
  let fill := blendFill mem kind dynamic other
  have hblend : blendCourse mem kind dynamic other s = fill.construct values s := rfl
  have hconserves : (fill.construct values s).Conserves (fun _ _ ↦ 0) stock fun _ ↦ 0 :=
    .construct (conserves_blendFill kind other)
  have hstate : (fill.construct values s).Keeps (· = s) := .construct rfl
  rw [hblend] at h ⊢
  refine ⟨hstate.state, fun value ↦ ?_, observed_eq_nil fun call hmem r ↦ ?_⟩
  · have hsettled := hconserves.settled value
    rw [h, handed] at hsettled
    omega
  · obtain ⟨hcalls, hlast⟩ := not_ref_of_blendFill mem dynamic other hkind
    cases hresult : fill.result with
    | ok b => simp [result_construct hresult] at h
    | error e' =>
      rw [calls_construct_of_error hresult] at hmem
      rcases List.mem_append.1 hmem with hmem | hmem
      · exact hcalls call hmem r
      · obtain ⟨value, hvalue, rfl⟩ := List.mem_map.1 hmem
        obtain ⟨a, -, rfl⟩ := List.mem_map.1 hvalue
        exact toValue_ne_ref (hlast.symm ▸ hkind) a r

/-- **Concatenation that fails leaves nothing behind**, and nobody sees that it was tried. -/
theorem concat_of_error {other : DynamicList} {e : ListError}
    (h : (concatCourse mem dynamic other s).result = .error e) :
    Gone s (concatCourse mem dynamic other s) := by
  rw [concatCourse] at h ⊢
  cases hitems : other.itemsAs? dynamic.kind with
  | some items =>
    rw [hitems] at h
    dsimp only at h ⊢
    exact .of_failsEarly (failsEarly_wrap (UniformList.Derivation.concat items).failsEarly) h
  | none =>
    have hkind : dynamic.kind ≠ other.kind := fun heq ↦ by simp [itemsAs?, heq] at hitems
    rw [hitems] at h
    dsimp only at h ⊢
    cases hunify : dynamic.kind.unify? other.kind with
    | none => exact ⟨rfl, fun _ ↦ rfl, rfl⟩
    | some kind =>
      rw [hunify] at h
      exact blend_of_error (Kind.ne_ref_of_unify? hunify hkind) h

/-- **Making a list of a list that fails leaves nothing behind.** -/
theorem Derivation.of_error (derivation : Derivation DynamicList) {e : ListError}
    (h : (derivation.course mem dynamic s).result = .error e) :
    Gone s (derivation.course mem dynamic s) := by
  cases derivation with
  | copy =>
    exact .of_failsEarly (failsEarly_wrap UniformList.Derivation.copy.failsEarly) h
  | concat other => exact concat_of_error h
  | repetition times =>
    exact .of_failsEarly (failsEarly_wrap (UniformList.Derivation.repetition times).failsEarly) h
  | slice written =>
    exact .of_failsEarly (failsEarly_wrap (UniformList.Derivation.slice written).failsEarly) h

/-! ## Commands -/

/-- Commands about dynamic lists. -/
abbrev ListCommand := Command Origin (Derivation String) (Operation String)

/-- Whether a command draws elements from an iterator: it appends values, or a list of another kind
than the one it works on. -/
def drivenBy (registry : Registry DynamicList) : ListCommand → Bool
  | .operate _ (.extendValues _) => true
  | .operate (some name) (.extendFrom other) =>
    (registry.find? other).map kind ≠ (registry.find? name).map kind
  | _ => false

/-- What a failed command leaves of the list under a name.  Only a command that draws elements from
an iterator may leave more room, and only in the list that it works on. -/
def KeptBy (registry : Registry DynamicList) (command : ListCommand) (name : String)
    (before after : DynamicList) : Prop :=
  Kept before after ∧ (after.list.capacity = before.list.capacity ∨
    drivenBy registry command = true ∧ command.subject? = some name)

/-- What a failed command leaves. -/
structure Undone (registry : Registry DynamicList) (command : ListCommand)
    (run : Run Value (Registry DynamicList) (Answer Value)) : Prop where
  /-- All lists are there, and they are what they were. -/
  lists : Registry.Related (KeptBy registry command) registry run.state
  /-- What was acquired is released. -/
  balance : ∀ value, balance run.calls value = 0
  /-- Without an iterator no hook did anything. -/
  quiet : drivenBy registry command = false → observed run.calls = []

variable {registry : Registry DynamicList} {command : ListCommand}

theorem undone_of_still (registry : Registry DynamicList) (command : ListCommand)
    (ending : Ending Value (Answer Value)) : Undone registry command ⟨[], registry, ending⟩ where
  lists := .refl (fun _ dynamic ↦ ⟨.refl dynamic, Or.inl rfl⟩) registry
  balance _ := rfl
  quiet _ := rfl

/-- Making a list touches no list that is there. -/
theorem undone_of_making {course : Course Value (Registry DynamicList) DynamicList}
    (hgone : ∀ e, course.result = .error e → Gone registry course) {name : String} {e : ListError}
    (h : (Registry.keepCourse values name course).result = .error e) :
    Undone registry command ⟨(Registry.keepCourse values name course).calls,
      (Registry.keepCourse values name course).state, .failed e⟩ := by
  obtain ⟨hresult, hkeep⟩ := Registry.of_keepCourse_error h
  obtain ⟨hstate, hbalance, hobserved⟩ := hgone e hresult
  rw [hkeep]
  refine ⟨?_, hbalance, fun _ ↦ hobserved⟩
  rw [hstate]
  exact (undone_of_still registry command (.failed e)).lists

/-- Whether an operation draws on an iterator can be told from the names in it. -/
theorem drives_of_mapM {operation : Operation String} {resolved : Operation DynamicList}
    {known : String} {dynamic : DynamicList} (hfind : registry.find? known = some dynamic)
    (h : (operation.mapM (Resolved.named registry)).run = some (.ok resolved)) :
    resolved.drives dynamic.kind = drivenBy registry (.operate (some known) operation) := by
  cases operation with
  | extendFrom other =>
    obtain ⟨source, hsource, hpure⟩ := Resolved.run_bind_eq_ok.1 h
    rw [← Resolved.run_pure_eq_ok.1 hpure]
    have hother : registry.find? other = some source := Resolved.run_ofOption_eq_ok.1 hsource
    simp [Operation.drives, drivenBy, hfind, hother]
  | setSlice _ _ | equal _ =>
    obtain ⟨_, -, hpure⟩ := Resolved.run_bind_eq_ok.1 h
    rw [← Resolved.run_pure_eq_ok.1 hpure]
    rfl
  | _ =>
    rw [← Resolved.run_pure_eq_ok.1 h]
    rfl

/-- Work on one list touches no other, and leaves that one as it was. -/
theorem undone_of_visit {name : String} (hfind : registry.find? name = some dynamic)
    {operation : Operation String} {resolved : Operation DynamicList}
    (hdrives : resolved.drives dynamic.kind = drivenBy registry (.operate (some name) operation))
    {e : ListError}
    (h : (Registry.visitCourse name registry (resolved.course mem dynamic)).result = .error e) :
    Undone registry (.operate (some name) operation)
      ⟨(Registry.visitCourse name registry (resolved.course mem dynamic)).calls,
        (Registry.visitCourse name registry (resolved.course mem dynamic)).state, .failed e⟩ := by
  have hresult : (resolved.course mem dynamic).result = .error e := h
  rw [Registry.calls_visitCourse]
  refine ⟨?_, resolved.balance_of_error hresult, fun hdriven ↦ ?_⟩
  · refine .insert (fun _ dynamic ↦ ⟨.refl dynamic, Or.inl rfl⟩) hfind
      ⟨resolved.kept_of_error hresult, ?_⟩
    by_cases hdriven : drivenBy registry (.operate (some name) operation) = true
    · exact Or.inr ⟨hdriven, rfl⟩
    · rw [resolved.failsEarly (hdrives.trans (Bool.eq_false_iff.2 hdriven)) e hresult]
      exact Or.inl rfl
  · rw [resolved.failsEarly (hdrives.trans hdriven) e hresult]
    rfl

/-- **A failed command leaves all lists as they were.** -/
theorem undone_of_failed {mishap : Mishap} {run : Run Value (Registry DynamicList) (Answer Value)}
    {e : ListError} (hrun : command.run? vocabulary mem mishap registry = some run)
    (hfailed : run.ending = .failed e) : Undone registry command run := by
  refine Command.of_run?_failed hrun hfailed (undone_of_still _ _ _) fun action hresolve ↦ ?_
  cases command with
  | create target origin =>
    obtain ⟨making, hmaking, rfl⟩ := Command.resolve_create hresolve
    obtain rfl := Resolved.run_pure_eq_ok.1 hmaking
    refine ⟨_, Registry.keep_follows _ target (origin.action_follows registry), fun h ↦ ?_⟩
    exact undone_of_making (fun e hresult ↦ .of_failsEarly origin.failsEarly hresult) h
  | derive target source derivation =>
    obtain ⟨making, dynamic, hmaking, -, rfl⟩ := Command.resolve_derive hresolve
    obtain ⟨resolved, -, hpure⟩ := Resolved.run_bind_eq_ok.1 hmaking
    obtain rfl := Resolved.run_pure_eq_ok.1 hpure
    refine ⟨_, Registry.keep_follows _ target (resolved.action_follows dynamic registry),
      fun h ↦ ?_⟩
    exact undone_of_making (fun e hresult ↦ resolved.of_error hresult) h
  | operate name operation =>
    obtain ⟨known, dynamic, work, rfl, hfind, hwork, rfl⟩ := Command.resolve_operate hresolve
    obtain ⟨resolved, hmap, hpure⟩ := Resolved.run_bind_eq_ok.1 hwork
    obtain rfl := Resolved.run_pure_eq_ok.1 hpure
    exact ⟨_, Registry.visit_follows known (resolved.action_follows dynamic),
      undone_of_visit hfind (drives_of_mapM hfind hmap)⟩
  | drop name =>
    rw [Command.resolve_drop hresolve]
    refine ⟨_, Registry.drop_follows _ name registry, fun h ↦ ?_⟩
    rw [Registry.result_dropCourse] at h
    cases h

end DynamicList

/-- **Failure atomicity.**  A command that fails, on uniform or on dynamic lists, from whatever
registry and with whatever allocator, leaves all lists with the elements, kinds and policies they
had, has released all that it acquired, and has called no hook at all unless it draws elements from
an iterator; only such a command may leave more room, and only in the list that it extends. -/
theorem failed_command_undone (α : Type) [Element α] [DecidableEq α] (mem : Allocator)
    (mishap : Mishap) :
    (∀ (registry : Registry (UniformList α)) (command : UniformList.ListCommand)
        (run : Run α (Registry (UniformList α)) (Answer α)) (e : ListError),
      command.run? UniformList.vocabulary mem mishap registry = some run →
      run.ending = .failed e → UniformList.Undone registry command run) ∧
    ∀ (registry : Registry DynamicList) (command : DynamicList.ListCommand)
        (run : Run Value (Registry DynamicList) (Answer Value)) (e : ListError),
      command.run? DynamicList.vocabulary mem mishap registry = some run →
      run.ending = .failed e → DynamicList.Undone registry command run :=
  ⟨fun _ _ _ _ hrun hfailed ↦ UniformList.undone_of_failed hrun hfailed,
    fun _ _ _ _ hrun hfailed ↦ DynamicList.undone_of_failed hrun hfailed⟩

/-- An iterator that fails after one element, and values of which the second is no number. -/
theorem failed_extension_undone :
    (let registry : Registry (UniformList Reference) := ⟨[("a", ⟨⟨#[⟨1, 0⟩], 1⟩, .standard⟩)]⟩
      let command : UniformList.ListCommand := .operate (some "a")
        (.tryExtend [.ok (.ref ⟨2, 0⟩), .error .indexOutOfRange] none)
      ∃ run e, command.run? UniformList.vocabulary .boundless none registry = some run ∧
        run.ending = .failed e ∧ UniformList.Undone registry command run) ∧
    (let registry : Registry DynamicList := ⟨[("a", ⟨.int, ⟨⟨#[(1 : Int64)], 1⟩, .standard⟩⟩)]⟩
      let command : DynamicList.ListCommand := .operate (some "a")
        (.extendValues [.int 2, .ref ⟨1, 0⟩])
      ∃ run e, command.run? DynamicList.vocabulary .boundless none registry = some run ∧
        run.ending = .failed e ∧ DynamicList.Undone registry command run) := by
  obtain ⟨huniform, hdynamic⟩ := failed_command_undone Reference .boundless none
  exact ⟨⟨_, _, rfl, rfl, huniform _ _ _ _ rfl rfl⟩, ⟨_, _, rfl, rfl, hdynamic _ _ _ _ rfl rfl⟩⟩

end ListRuntime
