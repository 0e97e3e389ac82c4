import ListRuntime.Action.Lemmas

/-!
# Courses of actions

An action does not know which of its hook calls is going to unwind: up to that call it does what it
would have done anyway.  So all its runs from one state can be read off a single `Course`, which
lists the hook calls on the way and says of each what is left if it unwinds.

* `Stage` is one hook call of a course, and `Course.run` reads off the run with a given mishap.
* `Action.Follows` says that an action has a course.
* `Follows.bind`, `Follows.map`, `Follows.tryCatch`, `Follows.forEach`, `Follows.within` and
  `Follows.construct` put the course of an action together from those of its parts.
-/

set_option autoImplicit false

namespace ListRuntime

/-- A hook call on the way of an action. -/
structure Stage (α σ : Type) where
  /-- The call. -/
  call : HookCall α
  /-- The state that is left if the call unwinds. -/
  state : σ
  /-- The calls that the unwinding makes as it passes. -/
  cleanup : List (HookCall α)

/-- All that an action can do from a state, whichever of its hook calls unwinds. -/
structure Course (α σ β : Type) where
  /-- The hook calls on the way, in order. -/
  stages : List (Stage α σ)
  /-- The state at the end, if no call unwinds. -/
  state : σ
  /-- What comes of it then. -/
  result : Except ListError β

/-- The stages of calling a hook on elements in order, all in the same state. -/
def Stage.row {α σ : Type} (hook : Hook) (items : List α) (s : σ) : List (Stage α σ) :=
  items.map fun a ↦ ⟨⟨hook, a⟩, s, []⟩

/-- A stage of filling something in a place of its own, seen from the state outside.  An unwinding
gives up what is filled so far. -/
def Stage.outside {α σ τ : Type} (contents : τ → List α) (s : σ) (stage : Stage α τ) : Stage α σ :=
  ⟨stage.call, s, stage.cleanup ++ (contents stage.state).map (⟨.release, ·⟩)⟩

/-- A stage of work on a part of a state, seen from the whole of it, with its elements mapped by
`f`. -/
def Stage.within {α γ σ τ : Type} (f : α → γ) (write : τ → σ) (stage : Stage α τ) : Stage γ σ :=
  ⟨stage.call.map f, write stage.state, stage.cleanup.map (HookCall.map f)⟩

namespace Course

variable {α γ σ τ ι β β' : Type}

/-- The hook calls of the course, if none unwinds. -/
def calls (course : Course α σ β) : List (HookCall α) := course.stages.map Stage.call

/-- How the course ends, if no call unwinds. -/
def ending (course : Course α σ β) : Ending α β :=
  match course.result with
  | .ok b => .returned b
  | .error e => .failed e

/-- The run with a mishap.  A mishap that strikes ends the run at its stage. -/
def run (course : Course α σ β) : Mishap → Run α σ β
  | none => ⟨course.calls, course.state, course.ending⟩
  | some k =>
    match course.stages[k]? with
    | none => ⟨course.calls, course.state, course.ending⟩
    | some stage =>
      ⟨course.calls.take (k + 1) ++ stage.cleanup, stage.state, .unwound stage.call⟩

/-! ## Putting courses together -/

/-- The course that is at its end, with a result. -/
def done (s : σ) (b : β) : Course α σ β := ⟨[], s, .ok b⟩

/-- The course that is at its end, with a failure. -/
def fail (s : σ) (e : ListError) : Course α σ β := ⟨[], s, .error e⟩

/-- The course, with stages before it. -/
def after (stages : List (Stage α σ)) (course : Course α σ β) : Course α σ β :=
  ⟨stages ++ course.stages, course.state, course.result⟩

/-- One course, and then another one that depends on its result and state. -/
def bind (course : Course α σ β) (next : β → σ → Course α σ β') : Course α σ β' :=
  match course.result with
  | .ok b => (next b course.state).after course.stages
  | .error e => ⟨course.stages, course.state, .error e⟩

/-- The course with its result mapped. -/
def map (f : β → β') (course : Course α σ β) : Course α σ β' :=
  ⟨course.stages, course.state, course.result.map f⟩

/-- One course, and then another one if it fails. -/
def handle (course : Course α σ β) (handler : ListError → σ → Course α σ β) : Course α σ β :=
  match course.result with
  | .ok _ => course
  | .error e => (handler e course.state).after course.stages

/-- The courses of `body` for each item, one after the other. -/
def forEach (body : ι → σ → Course α σ Unit) : List ι → σ → Course α σ Unit
  | [], s => done s ()
  | i :: items, s => (body i s).bind fun _ s' ↦ forEach body items s'

/-- The course on a part of a state, with its elements mapped by `f`. -/
def within (f : α → γ) (write : τ → σ) (course : Course α τ β) : Course γ σ β :=
  ⟨course.stages.map (Stage.within f write), write course.state, course.result⟩

/-- The course of filling something in a place of its own, seen from the state outside.  What is
filled is given up by a failure, as it is by an unwinding. -/
def construct (contents : τ → List α) (s : σ) (fill : Course α τ Unit) : Course α σ τ :=
  let stages := fill.stages.map (Stage.outside contents s)
  match fill.result with
  | .ok () => (done s fill.state).after stages
  | .error e => ((fail s e).after (Stage.row .release (contents fill.state) s)).after stages

end Course

/-- The course of an action from a state: all its runs are read off it. -/
def Action.Follows {α σ β : Type} (action : Action α σ β) (mem : Allocator) (s : σ)
    (course : Course α σ β) : Prop :=
  ∀ mishap, action.run mem mishap s = course.run mishap

/-! ## Where a mishap strikes -/

/-- The mishap comes after so many calls, if at all. -/
def Mishap.Spares (mishap : Mishap) (n : Nat) : Prop := ∀ k, mishap = some k → n ≤ k

theorem Mishap.spares_none (n : Nat) : Mishap.Spares none n := by
  intro k hk
  cases hk

theorem Mishap.spares_or_strikes (mishap : Mishap) (n : Nat) :
    mishap.Spares n ∨ ∃ k, k < n ∧ mishap = some k := by
  rcases mishap with _ | k
  · exact Or.inl (spares_none n)
  · rcases Nat.lt_or_ge k n with hk | hk
    · exact Or.inr ⟨k, hk, rfl⟩
    · refine Or.inl fun j hj ↦ ?_
      cases hj
      exact hk

namespace Course

variable {α γ σ τ ι β β' : Type} (course : Course α σ β)

@[simp] theorem length_calls : course.calls.length = course.stages.length := List.length_map _

@[simp] theorem stages_after (stages : List (Stage α σ)) :
    (course.after stages).stages = stages ++ course.stages := rfl

@[simp] theorem state_after (stages : List (Stage α σ)) :
    (course.after stages).state = course.state := rfl

@[simp] theorem result_after (stages : List (Stage α σ)) :
    (course.after stages).result = course.result := rfl

@[simp] theorem ending_after (stages : List (Stage α σ)) :
    (course.after stages).ending = course.ending := rfl

@[simp] theorem calls_after (stages : List (Stage α σ)) :
    (course.after stages).calls = stages.map Stage.call ++ course.calls := List.map_append

@[simp] theorem state_map (f : β → β') : (course.map f).state = course.state := rfl

@[simp] theorem result_map (f : β → β') : (course.map f).result = course.result.map f := rfl

@[simp] theorem calls_map (f : β → β') : (course.map f).calls = course.calls := rfl

@[simp] theorem calls_within (f : α → γ) (write : σ → τ) :
    (course.within f write).calls = course.calls.map (HookCall.map f) := by
  simp [within, calls, Stage.within, Function.comp_def]

@[simp] theorem map_call_row (hook : Hook) (items : List α) (s : σ) :
    (Stage.row hook items s).map Stage.call = items.map (⟨hook, ·⟩) := by
  simp [Stage.row]

@[simp] theorem length_row (hook : Hook) (items : List α) (s : σ) :
    (Stage.row hook items s).length = items.length := List.length_map _

/-- A mishap that comes too late changes nothing. -/
theorem run_of_spares {mishap : Mishap} (h : mishap.Spares course.stages.length) :
    course.run mishap = ⟨course.calls, course.state, course.ending⟩ := by
  rcases mishap with _ | k
  · rfl
  · rw [run, List.getElem?_eq_none (h k rfl)]

/-- A run without a mishap comes to the result of the course. -/
theorem result_of_run_none {course : Course α σ β} {b : β}
    (h : (course.run none).ending = .returned b) : course.result = .ok b := by
  obtain ⟨stages, s, e | b'⟩ := course
  · cases h
  · cases h
    rfl

/-- A mishap that strikes ends the run at its stage. -/
theorem run_of_lt {k : Nat} (h : k < course.stages.length) :
    course.run (some k) = ⟨course.calls.take (k + 1) ++ course.stages[k].cleanup,
      course.stages[k].state, .unwound course.stages[k].call⟩ := by
  rw [run, List.getElem?_eq_getElem h]

theorem run_after_of_spares {stages : List (Stage α σ)} {mishap : Mishap}
    (h : mishap.Spares stages.length) :
    (course.after stages).run mishap =
      (course.run (mishap.after stages.length)).following (stages.map Stage.call) := by
  rcases mishap with _ | k
  · simp [run, Mishap.after, Run.following]
  · have hk : stages.length ≤ k := h k rfl
    have hget : (course.after stages).stages[k]? = course.stages[k - stages.length]? :=
      List.getElem?_append_right hk
    simp only [run, Mishap.after, Option.map_some, hget]
    rcases course.stages[k - stages.length]? with _ | stage
    · simp [Run.following]
    · have htake : (stages.map Stage.call ++ course.calls).take (k + 1) =
          stages.map Stage.call ++ course.calls.take (k - stages.length + 1) := by
        rw [List.take_append, List.take_of_length_le (by simp; omega), List.length_map,
          Nat.sub_add_comm hk]
      simp [Run.following, htake]

/-- Without a mishap the stages before it are all gone through. -/
theorem run_none_after (stages : List (Stage α σ)) :
    (course.after stages).run none = (course.run none).following (stages.map Stage.call) :=
  course.run_after_of_spares (Mishap.spares_none _)

theorem run_none_within (f : α → γ) (write : σ → τ) :
    (course.within f write).run none =
      ⟨(course.run none).calls.map (HookCall.map f), write (course.run none).state,
        (course.run none).ending.map f⟩ := by
  obtain ⟨stages, s, e | b⟩ := course <;>
    simp [run, within, calls, ending, Ending.map, Stage.within, Function.comp_def]

theorem run_after_of_lt {stages : List (Stage α σ)} {k : Nat} (h : k < stages.length) :
    (course.after stages).run (some k) = ⟨(stages.map Stage.call).take (k + 1) ++ stages[k].cleanup,
      stages[k].state, .unwound stages[k].call⟩ := by
  have hk : k < (course.after stages).stages.length := by simp; omega
  have hget : (course.after stages).stages[k] = stages[k] := List.getElem_append_left h
  have htake : (course.after stages).calls.take (k + 1) = (stages.map Stage.call).take (k + 1) := by
    rw [calls_after, List.take_append_of_le_length (by simp; omega)]
  rw [run_of_lt _ hk, hget, htake]

end Course

namespace Action

variable {α γ σ τ ι β β' : Type} {mem : Allocator} {s : σ}

/-! ## Courses of composed actions -/

/-- An action that calls no hooks has a course without stages. -/
theorem Follows.of_done {action : Action α σ β} {s' : σ} {b : β}
    (h : ∀ mishap, action.run mem mishap s = ⟨[], s', .returned b⟩) :
    action.Follows mem s (.done s' b) := by
  intro mishap
  rw [h, Course.run_of_spares (.done s' b) fun k _ ↦ Nat.zero_le k]
  rfl

/-- An action that fails without a hook call has a course without stages. -/
theorem Follows.of_fail {action : Action α σ β} {s' : σ} {e : ListError}
    (h : ∀ mishap, action.run mem mishap s = ⟨[], s', .failed e⟩) :
    action.Follows mem s (.fail s' e) := by
  intro mishap
  rw [h, Course.run_of_spares (.fail s' e) fun k _ ↦ Nat.zero_le k]
  rfl

theorem Follows.of_eq {action : Action α σ β} {course course' : Course α σ β}
    (h : action.Follows mem s course) (heq : course = course') : action.Follows mem s course' :=
  heq ▸ h

theorem Follows.pure (b : β) : (pure b : Action α σ β).Follows mem s (.done s b) :=
  .of_done fun _ ↦ rfl

theorem Follows.throw (e : ListError) : (throw e : Action α σ β).Follows mem s (.fail s e) :=
  .of_fail fun _ ↦ rfl

theorem Follows.ofExcept (result : Except ListError β) :
    (ofExcept result : Action α σ β).Follows mem s ⟨[], s, result⟩ := by
  cases result with
  | ok b => exact .pure b
  | error e => exact .throw e

theorem Follows.set (s' : σ) : (set s' : Action α σ PUnit).Follows mem s (.done s' ()) :=
  .of_done fun _ ↦ rfl

theorem Follows.modify (f : σ → σ) :
    (modify f : Action α σ PUnit).Follows mem s (.done (f s) ()) :=
  .of_done fun _ ↦ rfl

theorem Follows.modifyGet (f : σ → β × σ) :
    (modifyGet f : Action α σ β).Follows mem s (.done (f s).2 (f s).1) :=
  .of_done fun _ ↦ rfl

/-- A row of hook calls, each in the state it starts from. -/
theorem Follows.callAll (hook : Hook) (items : List α) :
    (callAll hook items : Action α σ Unit).Follows mem s ⟨Stage.row hook items s, s, .ok ()⟩ := by
  intro mishap
  rcases mishap with _ | k
  · simp [Course.run, Course.calls, Course.ending]
  · rcases Nat.lt_or_ge k items.length with hk | hk
    · rw [run_callAll_of_lt mem s hook hk, Course.run_of_lt _ (by simpa using hk)]
      simp [Course.calls, Stage.row, Function.comp_def]
    · rw [run_callAll_of_le mem s hook hk, Course.run_of_spares]
      · simp [Course.calls, Course.ending]
      · intro j hj
        cases hj
        simpa using hk

/-- A first action that comes to a result is followed by the second. -/
theorem Follows.bind_ok {first : Action α σ β} {next : β → Action α σ β'}
    {stages : List (Stage α σ)} {s' : σ} {b : β} {course : Course α σ β'}
    (hfirst : first.Follows mem s ⟨stages, s', .ok b⟩) (hnext : (next b).Follows mem s' course) :
    (first >>= next).Follows mem s (course.after stages) := by
  intro mishap
  have hrun := hfirst mishap
  rcases mishap.spares_or_strikes stages.length with hspared | ⟨k, hk, rfl⟩
  · rw [Course.run_of_spares _ hspared] at hrun
    rw [run_bind_returned hrun, hnext, Course.run_after_of_spares _ hspared, Course.length_calls]
    rfl
  · rw [Course.run_of_lt ⟨stages, s', .ok b⟩ hk] at hrun
    rw [run_bind_unwound hrun]
    exact (Course.run_after_of_lt _ hk).symm

/-- A first action that calls no hooks leaves the course to the second. -/
theorem Follows.bind_done {first : Action α σ β} {next : β → Action α σ β'} {s' : σ} {b : β}
    {course : Course α σ β'} (hfirst : first.Follows mem s (.done s' b))
    (hnext : (next b).Follows mem s' course) : (first >>= next).Follows mem s course :=
  hfirst.bind_ok hnext

/-- A first action that fails is all there is. -/
theorem Follows.bind_error {first : Action α σ β} {next : β → Action α σ β'}
    {stages : List (Stage α σ)} {s' : σ} {e : ListError}
    (hfirst : first.Follows mem s ⟨stages, s', .error e⟩) :
    (first >>= next).Follows mem s ⟨stages, s', .error e⟩ := by
  intro mishap
  have hrun := hfirst mishap
  rcases mishap.spares_or_strikes stages.length with hspared | ⟨k, hk, rfl⟩
  · rw [Course.run_of_spares _ hspared] at hrun
    rw [run_bind_failed hrun, Course.run_of_spares _ hspared]
    rfl
  · rw [Course.run_of_lt ⟨stages, s', .error e⟩ hk] at hrun
    rw [run_bind_unwound hrun]
    exact (Course.run_of_lt ⟨stages, s', .error e⟩ hk).symm

/-- Of an action and what follows it, the course is the one course and then the other. -/
theorem Follows.bind {first : Action α σ β} {next : β → Action α σ β'} {course : Course α σ β}
    {nextCourse : β → σ → Course α σ β'} (hfirst : first.Follows mem s course)
    (hnext : ∀ b, course.result = .ok b →
      (next b).Follows mem course.state (nextCourse b course.state)) :
    (first >>= next).Follows mem s (course.bind nextCourse) := by
  obtain ⟨stages, s', e | b⟩ := course
  · exact hfirst.bind_error
  · exact hfirst.bind_ok (hnext b rfl)

/-- A result that is only mapped adds nothing to the course. -/
theorem Follows.map {action : Action α σ β} {course : Course α σ β} (f : β → β')
    (h : action.Follows mem s course) :
    (action >>= fun b ↦ Pure.pure (f b)).Follows mem s (course.map f) := by
  obtain ⟨stages, s', e | b⟩ := course
  · exact h.bind_error
  · refine (h.bind_ok (.pure (f b))).of_eq ?_
    simp [Course.after, Course.done, Course.map, Except.map]

/-- The state is there to be looked at. -/
theorem Follows.get_bind {next : σ → Action α σ β} {course : Course α σ β}
    (h : (next s).Follows mem s course) : (get >>= next).Follows mem s course := by
  intro mishap
  rw [← h mishap, run_bind_returned (run_get mem mishap s)]
  simp

/-- A handler goes on where the body failed. -/
theorem Follows.tryCatch {body : Action α σ β} {handler : ListError → Action α σ β}
    {course : Course α σ β} {handlerCourse : ListError → σ → Course α σ β}
    (hbody : body.Follows mem s course)
    (hhandler : ∀ e, course.result = .error e →
      (handler e).Follows mem course.state (handlerCourse e course.state)) :
    (tryCatch body handler).Follows mem s (course.handle handlerCourse) := by
  intro mishap
  obtain ⟨stages, s', result⟩ := course
  rcases mishap.spares_or_strikes stages.length with hspared | ⟨k, hk, rfl⟩
  · have hrun := hbody mishap
    rw [Course.run_of_spares _ hspared] at hrun
    rcases result with e | b
    · rw [run_tryCatch_failed handler hrun, hhandler e rfl, Course.handle,
        Course.run_after_of_spares _ hspared, Course.length_calls]
      rfl
    · rw [run_tryCatch_returned handler hrun, Course.handle, Course.run_of_spares _ hspared]
      rfl
  · have hrun := hbody (some k)
    rw [Course.run_of_lt ⟨stages, s', result⟩ hk] at hrun
    rw [run_tryCatch_unwound handler hrun]
    rcases result with e | b
    · exact (Course.run_after_of_lt _ hk).symm
    · exact (Course.run_of_lt _ hk).symm

/-- A loop has the courses of its rounds, one after the other. -/
theorem Follows.forEach {body : ι → Action α σ Unit} {bodyCourse : ι → σ → Course α σ Unit}
    (hbody : ∀ i s, (body i).Follows mem s (bodyCourse i s)) (items : List ι) (s : σ) :
    (forEach items body).Follows mem s (Course.forEach bodyCourse items s) := by
  induction items generalizing s with
  | nil => exact .pure ()
  | cons i items ih =>
    rw [forEach_cons, Course.forEach]
    exact (hbody i s).bind fun _ _ ↦ ih _

/-- The course on a part of the state is one on the whole of it. -/
theorem Follows.within {f : α → γ} {read : σ → τ} {write : σ → τ → σ} {action : Action α τ β}
    {course : Course α τ β} (h : action.Follows mem (read s) course) :
    (within f read write action).Follows mem s (course.within f (write s)) := by
  intro mishap
  obtain ⟨stages, t, result⟩ := course
  have hrun := h mishap
  rcases mishap.spares_or_strikes stages.length with hspared | ⟨k, hk, rfl⟩
  · rw [Course.run_of_spares _ hspared] at hrun
    rw [run_within hrun, Course.run_of_spares _ (by simpa [Course.within])]
    cases result <;> simp [Course.within, Stage.within, Course.calls, Course.ending, Ending.map,
      Function.comp_def]
  · rw [Course.run_of_lt _ hk] at hrun
    rw [run_within hrun, Course.run_of_lt _ (by simpa [Course.within])]
    simp [Course.within, Stage.within, Course.calls, Ending.map, Function.comp_def]

/-- The course of filling something in a place of its own. -/
theorem Follows.construct {contents : τ → List α} {start : τ} {fill : Action α τ Unit}
    {course : Course α τ Unit} (h : fill.Follows mem start course) :
    (construct contents start fill).Follows mem s (course.construct contents s) := by
  intro mishap
  obtain ⟨stages, t, result⟩ := course
  let passing := stages.map (Stage.outside contents s)
  have hlength : passing.length = stages.length := List.length_map _
  have hcalls : passing.map Stage.call = stages.map Stage.call := by
    simp [passing, Stage.outside, Function.comp_def]
  have hrun := h mishap
  rcases mishap.spares_or_strikes stages.length with hspared | ⟨k, hk, rfl⟩
  · have hspared' : mishap.Spares passing.length := hlength ▸ hspared
    rw [Course.run_of_spares ⟨stages, t, result⟩ hspared] at hrun
    rcases result with e | b
    · -- what the failure gives up is a row of releases, and then the failure goes on
      let giveUp : Course α σ τ := (Course.fail s e).after (Stage.row .release (contents t) s)
      have hgiveUp : (releaseAll (contents t) >>= fun _ ↦ MonadExcept.throw e :
          Action α σ τ).Follows mem s giveUp :=
        (Follows.callAll .release (contents t)).bind_ok (.throw e)
      have hconstruct : Course.construct contents s ⟨stages, t, .error e⟩ =
          giveUp.after passing := rfl
      rw [run_construct_failed hrun, hconstruct, Course.run_after_of_spares giveUp hspared',
        ← hgiveUp, hlength, hcalls]
      simp [Course.calls]
    · have hconstruct : Course.construct contents s ⟨stages, t, .ok b⟩ =
          (Course.done s t).after passing := rfl
      rw [run_construct_returned hrun, hconstruct, Course.run_after_of_spares _ hspared',
        Course.run_of_spares (.done s t) fun k _ ↦ Nat.zero_le k, hcalls]
      simp [Course.calls, Course.ending, Course.done, Run.following]
  · have hk' : k < passing.length := hlength ▸ hk
    have hstage : passing[k] = (stages[k]).outside contents s := List.getElem_map _
    rw [Course.run_of_lt ⟨stages, t, result⟩ hk] at hrun
    rw [run_construct_unwound hrun]
    rcases result with e | b
    all_goals
      simp only [Course.construct]
      rw [Course.run_after_of_lt _ hk', hcalls, hstage]
      simp [Course.calls, Stage.outside]

end Action
end ListRuntime
