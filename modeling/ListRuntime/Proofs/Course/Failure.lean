import ListRuntime.Proofs.Course.Basic

/-!
# Failures along a course

Most actions fail, if they do, before they have done anything at all.  `Course.FailsEarly` says so
of a course, with one rule for each combinator; the other actions have to take back what they did.

* `Course.of_run_failed` and `Course.of_run_returned` read the end of a run off its course: a mishap
  that comes too late has no part in it.
* `result_construct` and `forEach_ok` are for filling: where filling cannot fail, making room is all
  that can.
-/

set_option autoImplicit false

namespace ListRuntime
namespace Course

variable {α γ σ τ ι β β' : Type} {s : σ} {course : Course α σ β}

/-- A failed run went all the way to the failure at the end of its course. -/
theorem of_run_failed {mishap : Mishap} {e : ListError}
    (h : (course.run mishap).ending = .failed e) :
    course.result = .error e ∧ course.run mishap = ⟨course.calls, course.state, .failed e⟩ := by
  rcases mishap.spares_or_strikes course.stages.length with hspared | ⟨k, hk, rfl⟩
  · rw [run_of_spares _ hspared] at h ⊢
    obtain ⟨stages, s', e' | b⟩ := course
    · obtain rfl : e' = e := by simpa [ending] using h
      exact ⟨rfl, rfl⟩
    · simp [ending] at h
  · rw [run_of_lt _ hk] at h
    simp at h

/-- So did a run that returned. -/
theorem of_run_returned {mishap : Mishap} {b : β} (h : (course.run mishap).ending = .returned b) :
    course.result = .ok b ∧ course.run mishap = ⟨course.calls, course.state, .returned b⟩ := by
  rcases mishap.spares_or_strikes course.stages.length with hspared | ⟨k, hk, rfl⟩
  · rw [run_of_spares _ hspared] at h ⊢
    obtain ⟨stages, s', e | b'⟩ := course
    · simp [ending] at h
    · obtain rfl : b' = b := by simpa [ending] using h
      exact ⟨rfl, rfl⟩
  · rw [run_of_lt _ hk] at h
    simp at h

/-- Without a mishap there is a result or a failure at the end. -/
theorem ending_ne_unwound (course : Course α σ β) (call : HookCall α) :
    course.ending ≠ .unwound call := by
  obtain ⟨stages, s, e | b⟩ := course <;> rintro ⟨⟩

/-- A mapped course fails as the course does. -/
theorem of_map_error {f : β → β'} {e : ListError} (h : (course.map f).result = .error e) :
    course.result = .error e := by
  obtain ⟨stages, s', e' | b⟩ := course
  · simpa [Course.map, Except.map] using h
  · simp [Course.map, Except.map] at h

/-- If the course fails, it does so before it has done anything. -/
def FailsEarly (s : σ) (course : Course α σ β) : Prop :=
  ∀ e, course.result = .error e → course = .fail s e

theorem FailsEarly.fail (e : ListError) : (fail s e : Course α σ β).FailsEarly s := by
  intro e' h
  obtain rfl : e = e' := by simpa [Course.fail] using h
  rfl

/-- What fails early is not reached by any mishap. -/
theorem FailsEarly.run_of_error (h : course.FailsEarly s) {e : ListError}
    (he : course.result = .error e) (mishap : Mishap) : course.run mishap = ⟨[], s, .failed e⟩ := by
  rw [h e he, run_of_spares _ fun _ _ ↦ Nat.zero_le _]
  rfl

/-- A course that comes to a result does not fail. -/
theorem FailsEarly.of_ok {b : β} (h : course.result = .ok b) : course.FailsEarly s := by
  intro e he
  rw [h] at he
  cases he

/-- Without a hook call or a change of state there is nothing to take back. -/
theorem FailsEarly.still (result : Except ListError β) :
    (⟨[], s, result⟩ : Course α σ β).FailsEarly s := by
  cases result with
  | ok b => exact .of_ok rfl
  | error e => exact .fail e

theorem FailsEarly.map {f : β → β'} (h : course.FailsEarly s) : (course.map f).FailsEarly s := by
  obtain ⟨stages, s', e | b⟩ := course
  · intro e' he
    obtain rfl : e = e' := by simpa [Course.map, Except.map] using he
    rw [h e rfl]
    rfl
  · exact .of_ok rfl

/-- What is found out beforehand may fail; so may what comes after it. -/
theorem FailsEarly.bind_still {result : Except ListError β} {next : β → σ → Course α σ β'}
    (h : ∀ b, result = .ok b → (next b s).FailsEarly s) :
    ((⟨[], s, result⟩ : Course α σ β).bind next).FailsEarly s := by
  cases result with
  | ok b => exact h b rfl
  | error e => exact .fail e

theorem FailsEarly.within {f : α → γ} {write : σ → τ} (h : course.FailsEarly s) :
    (course.within f write).FailsEarly (write s) := by
  intro e he
  rw [h e he]
  rfl

/-- Filling that comes to its end brings to light what was filled. -/
theorem result_construct {contents : τ → List α} {fill : Course α τ Unit}
    (h : fill.result = .ok ()) : (fill.construct contents s).result = .ok fill.state := by
  obtain ⟨stages, t, result⟩ := fill
  obtain rfl : result = .ok () := h
  rfl

/-- Filling that fails releases what was filled. -/
theorem calls_construct_of_error {contents : τ → List α} {fill : Course α τ Unit} {e : ListError}
    (h : fill.result = .error e) : (fill.construct contents s).calls =
      fill.calls ++ (contents fill.state).map (⟨.release, ·⟩) := by
  obtain ⟨stages, t, result⟩ := fill
  obtain rfl : result = .error e := h
  simp [construct, calls, Stage.outside, Function.comp_def, Stage.row, Course.after, Course.fail]

/-- The calls of two courses in a row are those of the one and those of the other. -/
theorem mem_calls_bind {next : β → σ → Course α σ β'} {call : HookCall α}
    (h : call ∈ (course.bind next).calls) :
    call ∈ course.calls ∨ ∃ b, course.result = .ok b ∧ call ∈ (next b course.state).calls := by
  obtain ⟨stages, s', e | b⟩ := course
  · exact Or.inl h
  · rw [Course.bind, calls_after] at h
    rcases List.mem_append.1 h with h | h
    · exact Or.inl h
    · exact Or.inr ⟨b, rfl, h⟩

/-- A loop comes to its end if every round does, from states that the rounds keep. -/
theorem forEach_ok {P : List ι → σ → Prop} {body : ι → σ → Course α σ Unit}
    (hbody : ∀ i items s, P (i :: items) s →
      (body i s).result = .ok () ∧ P items (body i s).state) {items : List ι} (h : P items s) :
    (forEach body items s).result = .ok () := by
  induction items generalizing s with
  | nil => rfl
  | cons i items ih =>
    obtain ⟨hresult, hnext⟩ := hbody i items s h
    rw [forEach, Course.bind, hresult]
    exact ih hnext

end Course
end ListRuntime
