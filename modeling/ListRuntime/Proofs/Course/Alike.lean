import ListRuntime.Proofs.Course.Failure

/-!
# Courses that look alike

Two runs that start from different states may still look the same from outside: the same hook calls,
the same failure or related results, related states.  What can part them is a request for room that
is refused in one of them, so courses are compared only as far as no request is refused.

* `ListError.isRefusal` tells the failures of a request for room.
* `Course.Alike` says that two courses look the same unless one of them is refused, up to relations
  of states and of results, and `Action.Alike` says so of two actions.
* `Course.Alike.run_none`: the runs of such courses look the same.

Courses that are alike are put together like the courses themselves, by one rule for each
combinator.
-/

set_option autoImplicit false

namespace ListRuntime

/-- Whether a failure is that of a request for room.  What a source of elements reports in its own
words is none, whatever its category. -/
def ListError.isRefusal : ListError → Bool
  | countOverflow | allocation _ => true
  | _ => false

/-- Whether a run ended because room was refused. -/
def Ending.isRefusal {α β : Type} : Ending α β → Bool
  | .failed e => e.isRefusal
  | .returned _ | .unwound _ => false

namespace Course

variable {α γ σ σ' τ τ' ι β β' δ δ' : Type}

/-- Two courses look the same from outside, up to a relation of states and one of results, unless one
of them ends because room was refused. -/
inductive Alike (R : σ → σ' → Prop) (P : β → β' → Prop) : Course α σ β → Course α σ' β' → Prop where
  /-- Room was refused in the one. -/
  | refused {stages : List (Stage α σ)} {s : σ} {e : ListError} {course' : Course α σ' β'}
      (h : e.isRefusal = true) : Alike R P ⟨stages, s, .error e⟩ course'
  /-- Room was refused in the other. -/
  | refused' {course : Course α σ β} {stages' : List (Stage α σ')} {s' : σ'} {e : ListError}
      (h : e.isRefusal = true) : Alike R P course ⟨stages', s', .error e⟩
  /-- Both come to related results. -/
  | returned {stages : List (Stage α σ)} {stages' : List (Stage α σ')} {s : σ} {s' : σ'} {b : β}
      {b' : β'} (hcalls : stages.map Stage.call = stages'.map Stage.call) (hs : R s s')
      (hb : P b b') : Alike R P ⟨stages, s, .ok b⟩ ⟨stages', s', .ok b'⟩
  /-- Both fail in the same way. -/
  | failed {stages : List (Stage α σ)} {stages' : List (Stage α σ')} {s : σ} {s' : σ'}
      (hcalls : stages.map Stage.call = stages'.map Stage.call) (hs : R s s') (e : ListError) :
      Alike R P ⟨stages, s, .error e⟩ ⟨stages', s', .error e⟩

variable {R : σ → σ' → Prop} {P : β → β' → Prop} {Q : δ → δ' → Prop}
variable {s : σ} {s' : σ'} {course : Course α σ β} {course' : Course α σ' β'}

theorem Alike.done {b : β} {b' : β'} (hs : R s s') (hb : P b b') :
    (done s b : Course α σ β).Alike R P (done s' b') := .returned rfl hs hb

theorem Alike.fail (hs : R s s') (e : ListError) :
    (fail s e : Course α σ β).Alike R P (fail s' e : Course α σ' β') := by
  have hcalls : ([] : List (Stage α σ)).map Stage.call = ([] : List (Stage α σ')).map Stage.call :=
    rfl
  exact .failed hcalls hs e

/-- Stages with the same calls go before courses that are alike. -/
theorem Alike.after {stages : List (Stage α σ)} {stages' : List (Stage α σ')}
    (hstages : stages.map Stage.call = stages'.map Stage.call) (h : course.Alike R P course') :
    (course.after stages).Alike R P (course'.after stages') := by
  have hboth {more : List (Stage α σ)} {more' : List (Stage α σ')}
      (hmore : more.map Stage.call = more'.map Stage.call) :
      (stages ++ more).map Stage.call = (stages' ++ more').map Stage.call := by
    rw [List.map_append, List.map_append, hstages, hmore]
  cases h with
  | refused h => exact .refused h
  | refused' h => exact .refused' h
  | returned hcalls hs hb => exact .returned (hboth hcalls) hs hb
  | failed hcalls hs e => exact .failed (hboth hcalls) hs e

theorem Alike.bind {next : β → σ → Course α σ δ} {next' : β' → σ' → Course α σ' δ'}
    (h : course.Alike R P course')
    (hnext : ∀ b b' s s', P b b' → R s s' → (next b s).Alike R Q (next' b' s')) :
    (course.bind next).Alike R Q (course'.bind next') := by
  cases h with
  | refused h => exact .refused h
  | refused' h => exact .refused' h
  | returned hcalls hs hb => exact .after hcalls (hnext _ _ _ _ hb hs)
  | failed hcalls hs e => exact .failed hcalls hs e

theorem Alike.map {f : β → δ} {f' : β' → δ'} (h : course.Alike R P course')
    (hf : ∀ b b', P b b' → Q (f b) (f' b')) : (course.map f).Alike R Q (course'.map f') := by
  cases h with
  | refused h => exact .refused h
  | refused' h => exact .refused' h
  | returned hcalls hs hb => exact .returned hcalls hs (hf _ _ hb)
  | failed hcalls hs e => exact .failed hcalls hs e

/-- A handler that passes every refusal on. -/
theorem Alike.handle {handler : ListError → σ → Course α σ β}
    {handler' : ListError → σ' → Course α σ' β'} (h : course.Alike R P course')
    (hhandler : ∀ e s s', R s s' → (handler e s).Alike R P (handler' e s'))
    (hpasses : ∀ e s, (handler e s).result = .error e)
    (hpasses' : ∀ e s, (handler' e s).result = .error e) :
    (course.handle handler).Alike R P (course'.handle handler') := by
  cases h with
  -- a handler may do what it likes with a refusal, but what it passes on is still one
  | @refused stages s e _ h =>
    have hresult : (Course.handle ⟨stages, s, .error e⟩ handler).result = .error e := hpasses e s
    generalize Course.handle ⟨stages, s, .error e⟩ handler = handled at hresult ⊢
    obtain ⟨stages, s, _⟩ := handled
    obtain rfl := hresult
    exact .refused h
  | @refused' _ stages s e h =>
    have hresult : (Course.handle ⟨stages, s, .error e⟩ handler').result = .error e := hpasses' e s
    generalize Course.handle ⟨stages, s, .error e⟩ handler' = handled at hresult ⊢
    obtain ⟨stages, s, _⟩ := handled
    obtain rfl := hresult
    exact .refused' h
  | returned hcalls hs hb => exact .returned hcalls hs hb
  | failed hcalls hs e => exact .after hcalls (hhandler e _ _ hs)

/-- Loops are alike if their rounds are. -/
theorem Alike.forEach {P : Unit → Unit → Prop} {body : ι → σ → Course α σ Unit}
    {body' : ι → σ' → Course α σ' Unit}
    (hbody : ∀ i s s', R s s' → (body i s).Alike R P (body' i s')) (hunit : P () ())
    (items : List ι) (hs : R s s') :
    (forEach body items s).Alike R P (forEach body' items s') := by
  induction items generalizing s s' with
  | nil => exact .done hs hunit
  | cons i items ih => exact (hbody i s s' hs).bind fun _ _ _ _ _ hs' ↦ ih hs'

/-- Courses on parts of states are alike as those on the whole of them. -/
theorem Alike.within {f : α → γ} {write : σ → τ} {write' : σ' → τ'} {R' : τ → τ' → Prop}
    (h : course.Alike R P course') (hwrite : ∀ s s', R s s' → R' (write s) (write' s')) :
    (course.within f write).Alike R' P (course'.within f write') := by
  have hmap {stages : List (Stage α σ)} {stages' : List (Stage α σ')}
      (hcalls : stages.map Stage.call = stages'.map Stage.call) :
      (stages.map (Stage.within f write)).map Stage.call =
        (stages'.map (Stage.within f write')).map Stage.call := by
    simpa [Stage.within, Function.comp_def] using congrArg (List.map (HookCall.map f)) hcalls
  cases h with
  | refused h => exact .refused h
  | refused' h => exact .refused' h
  | returned hcalls hs hb => exact .returned (hmap hcalls) (hwrite _ _ hs) hb
  | failed hcalls hs e => exact .failed (hmap hcalls) (hwrite _ _ hs) e

/-- What is filled alike comes to light, or is given up, alike. -/
theorem Alike.construct {contents : τ → List α} {contents' : τ' → List α} {S : τ → τ' → Prop}
    {fill : Course α τ Unit} {fill' : Course α τ' Unit} {P : Unit → Unit → Prop}
    (h : fill.Alike S P fill') (hcontents : ∀ t t', S t t' → contents t = contents' t')
    (hs : R s s') :
    (fill.construct contents s).Alike R S (fill'.construct contents' s') := by
  have houtside {stages : List (Stage α τ)} {stages' : List (Stage α τ')}
      (hcalls : stages.map Stage.call = stages'.map Stage.call) :
      (stages.map (Stage.outside contents s)).map Stage.call =
        (stages'.map (Stage.outside contents' s')).map Stage.call := by
    simpa [Stage.outside, Function.comp_def] using hcalls
  cases h with
  | refused h => exact .refused h
  | refused' h => exact .refused' h
  | returned hcalls ht _ => exact .after (houtside hcalls) (.done hs ht)
  | failed hcalls ht e =>
    refine .after (houtside hcalls) (.after ?_ (.fail hs e))
    rw [map_call_row, map_call_row, hcontents _ _ ht]

/-- Related results, or the same failure. -/
inductive SameEnding (P : β → β' → Prop) : Ending α β → Ending α β' → Prop where
  | returned {b : β} {b' : β'} (h : P b b') : SameEnding P (.returned b) (.returned b')
  | failed (e : ListError) : SameEnding P (.failed e) (.failed e)

/-- Unless room was refused in one of them, the runs of courses that are alike look the same. -/
theorem Alike.run_none (h : course.Alike R P course')
    (hroom : (course.run none).ending.isRefusal = false)
    (hroom' : (course'.run none).ending.isRefusal = false) :
    (course.run none).calls = (course'.run none).calls ∧
      R (course.run none).state (course'.run none).state ∧
      SameEnding P (course.run none).ending (course'.run none).ending := by
  cases h with
  | refused h => exact absurd (hroom.symm.trans h) (by decide)
  | refused' h => exact absurd (hroom'.symm.trans h) (by decide)
  | returned hcalls hs hb => exact ⟨hcalls, hs, .returned hb⟩
  | failed hcalls hs e => exact ⟨hcalls, hs, .failed e⟩

end Course

/-- Two actions whose courses, from two states, look alike. -/
def Action.Alike {α σ σ' β β' : Type} (mem mem' : Allocator) (s : σ) (s' : σ') (R : σ → σ' → Prop)
    (P : β → β' → Prop) (action : Action α σ β) (action' : Action α σ' β') : Prop :=
  ∃ course course', action.Follows mem s course ∧ action'.Follows mem' s' course' ∧
    course.Alike R P course'

end ListRuntime
