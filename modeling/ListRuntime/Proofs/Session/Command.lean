import ListRuntime.Proofs.Course.Failure
import ListRuntime.Proofs.Session.Registry
import ListRuntime.Session.Command

/-!
# Runs of commands

A command is resolved against the registry and then carried out, with whatever mishap.  This file
takes a resolved command apart and gives the courses of what it does to the registry.

* `Command.run?` is the run of a command; `Session.step` is one of these runs
  (`run?_of_step`).
* `resolve_create`, `resolve_derive`, `resolve_operate` and `resolve_drop` say what a command that
  resolves was made of.
* `keepCourse`, `visitCourse` and `dropCourse` are the courses on registries.
-/

set_option autoImplicit false

namespace ListRuntime

open ListRuntime.Action

/-! ## Resolving -/

namespace Resolved

variable {β β' : Type}

/-- A composed part resolves if its parts do. -/
theorem run_bind_eq_ok {first : Resolved β} {next : β → Resolved β'} {result : β'} :
    (first >>= next).run = some (.ok result) ↔
      ∃ b, first.run = some (.ok b) ∧ (next b).run = some (.ok result) := by
  rw [ExceptT.run_bind]
  rcases first.run with _ | (e | b) <;> simp

theorem run_ofOption_eq_ok {found : Option β} {b : β} :
    (ofOption found).run = some (.ok b) ↔ found = some b := by
  cases found <;> simp [ofOption]

theorem run_pure_eq_ok {b b' : β} : (pure b : Resolved β).run = some (.ok b') ↔ b = b' := by
  simp

end Resolved

namespace Command

variable {γ S O D P : Type} {vocabulary : Vocabulary γ S O D P} {registry : Registry S}
variable {action : Action γ (Registry S) (Answer γ)}

open Resolved

theorem resolve_create {target : String} {origin : O}
    (h : ((create target origin : Command O D P).resolve vocabulary registry).run =
      some (.ok action)) :
    ∃ making, (vocabulary.create registry origin).run = some (.ok making) ∧
      action = keep vocabulary target making := by
  obtain ⟨making, hmaking, hkeep⟩ := run_bind_eq_ok.1 h
  exact ⟨making, hmaking, (run_pure_eq_ok.1 hkeep).symm⟩

theorem resolve_derive {target source : String} {derivation : D}
    (h : ((derive target source derivation : Command O D P).resolve vocabulary registry).run =
      some (.ok action)) :
    ∃ making list, (vocabulary.derive registry derivation).run = some (.ok making) ∧
      registry.find? source = some list ∧ action = keep vocabulary target (making list) := by
  obtain ⟨making, hmaking, hrest⟩ := run_bind_eq_ok.1 h
  obtain ⟨list, hlist, hkeep⟩ := run_bind_eq_ok.1 hrest
  exact ⟨making, list, hmaking, run_ofOption_eq_ok.1 hlist, (run_pure_eq_ok.1 hkeep).symm⟩

theorem resolve_operate {name : Option String} {operation : P}
    (h : ((operate name operation : Command O D P).resolve vocabulary registry).run =
      some (.ok action)) :
    ∃ known list work, name = some known ∧ registry.find? known = some list ∧
      (vocabulary.operate registry operation).run = some (.ok work) ∧
      action = Registry.visit known list work := by
  obtain ⟨work, hwork, hrest⟩ := run_bind_eq_ok.1 h
  obtain ⟨known, hknown, hrest⟩ := run_bind_eq_ok.1 hrest
  obtain ⟨list, hlist, hvisit⟩ := run_bind_eq_ok.1 hrest
  exact ⟨known, list, work, run_ofOption_eq_ok.1 hknown, run_ofOption_eq_ok.1 hlist, hwork,
    (run_pure_eq_ok.1 hvisit).symm⟩

theorem resolve_drop {name : Option String}
    (h : ((drop name : Command O D P).resolve vocabulary registry).run = some (.ok action)) :
    action = (do
      name.forM (Registry.discard vocabulary.contents)
      return .done) :=
  (run_pure_eq_ok.1 h).symm

/-! ## Runs -/

/-- The name of the list that a command works on. -/
def subject? : Command O D P → Option String
  | operate name _ => name
  | create .. | derive .. | drop _ => none

/-- Carry out a command that is resolved to an action, or to a failure. -/
def carryOut (resolved : Except ListError (Action γ (Registry S) (Answer γ))) :
    Action γ (Registry S) (Answer γ) := do
  let action ← Action.ofExcept resolved
  action

/-- The run of a command on a registry, unless the command means nothing there. -/
def run? (vocabulary : Vocabulary γ S O D P) (mem : Allocator) (mishap : Mishap)
    (registry : Registry S) (command : Command O D P) : Option (Run γ (Registry S) (Answer γ)) :=
  (command.resolve vocabulary registry).run.map fun resolved ↦
    (carryOut resolved).run mem mishap registry

variable {mem : Allocator} {mishap : Mishap} {command : Command O D P}

theorem run_carryOut_ok : (carryOut (.ok action)).run mem mishap registry =
    action.run mem mishap registry := by
  rw [carryOut, ofExcept_ok, pure_bind]

/-- A command fails at once if it does not resolve; otherwise it is carried out. -/
theorem of_run? {run : Run γ (Registry S) (Answer γ)}
    (h : command.run? vocabulary mem mishap registry = some run) :
    (∃ e, run = ⟨[], registry, .failed e⟩) ∨
      ∃ action, (command.resolve vocabulary registry).run = some (.ok action) ∧
        run = action.run mem mishap registry := by
  obtain ⟨resolved, hresolve, rfl⟩ := Option.map_eq_some_iff.1 h
  rcases resolved with e | action
  · exact Or.inl ⟨e, rfl⟩
  · exact Or.inr ⟨action, hresolve, run_carryOut_ok⟩

/-- If a command fails, it did so when it was resolved, or all along its course. -/
theorem of_run?_failed {run : Run γ (Registry S) (Answer γ)} {e : ListError}
    (h : command.run? vocabulary mem mishap registry = some run) (hfailed : run.ending = .failed e)
    {Q : Run γ (Registry S) (Answer γ) → Prop} (hunresolved : Q ⟨[], registry, .failed e⟩)
    (hcourse : ∀ action, (command.resolve vocabulary registry).run = some (.ok action) →
      ∃ course, action.Follows mem registry course ∧
        (course.result = .error e → Q ⟨course.calls, course.state, .failed e⟩)) : Q run := by
  rcases of_run? h with ⟨e', rfl⟩ | ⟨action, hresolve, rfl⟩
  · cases hfailed
    exact hunresolved
  · obtain ⟨course, hfollows, hQ⟩ := hcourse action hresolve
    rw [hfollows mishap] at hfailed ⊢
    obtain ⟨hresult, hrun⟩ := Course.of_run_failed hfailed
    rw [hrun]
    exact hQ hresult

end Command

/-- A step of a session is the run of its command, with the mishap that the fuse brings; without a
fuse there is none. -/
theorem Session.run?_of_step {γ S O D P : Type} [DecidableEq γ] {mem : Allocator}
    {vocabulary : Vocabulary γ S O D P} {session after : Session γ (Registry S)}
    {command : Command O D P} {run : Run γ (Registry S) (Answer γ)}
    (h : session.step mem vocabulary command = some (after, run)) :
    ∃ mishap, command.run? vocabulary mem mishap session.state = some run ∧
      after.state = run.state ∧ after.log = session.log ++ run.calls ∧
      (session.fuse = none → mishap = none) := by
  have hstep : session.step mem vocabulary command =
      (command.resolve vocabulary session.state).run.map fun resolved ↦
        session.perform mem (Command.carryOut resolved) := by
    rw [step]
    cases (command.resolve vocabulary session.state).run <;> rfl
  rw [hstep] at h
  obtain ⟨resolved, hresolve, hperform⟩ := Option.map_eq_some_iff.1 h
  obtain ⟨rfl, rfl⟩ := Prod.mk.inj hperform
  refine ⟨session.mishap mem (Command.carryOut resolved), ?_, rfl, rfl, fun hfuse ↦ ?_⟩
  · rw [Command.run?, hresolve]
    rfl
  · rw [mishap, hfuse]
    rfl

/-- Lists that are let go without a fuse release all their elements. -/
theorem Session.log_dismiss {γ σ : Type} [DecidableEq γ] (mem : Allocator) {session : Session γ σ}
    (h : session.fuse = none) (lists : List (List γ)) :
    (session.dismiss mem lists).log = session.log ++ lists.flatten.map (⟨.release, ·⟩) := by
  dsimp only [dismiss]
  -- what has unwound so far is carried along, and does not matter
  generalize (none : Option (HookCall γ)) = unwound
  induction lists generalizing session unwound with
  | nil => simp
  | cons items lists ih =>
    have hmishap : session.mishap mem (releaseAll items) = none := by rw [mishap, h]; rfl
    have hperform : (session.perform mem (releaseAll items)).1 =
        ⟨session.state, none, session.log ++ items.map (⟨.release, ·⟩)⟩ := by
      simp only [perform, hmishap]
      simp [releaseAll, h]
    rw [List.foldl_cons, hperform, ih rfl]
    simp

/-! ## Courses on registries -/

namespace Registry

variable {γ S β : Type} {mem : Allocator}

/-- Put a list under a name, and let the list go that was there. -/
def storeCourse (contents : S → List γ) (name : String) (list : S) (registry : Registry S) :
    Course γ (Registry S) Unit :=
  let changed := registry.insert name list
  ⟨Stage.row .release (registry.elementsUnder contents name) changed, changed, .ok ()⟩

/-- Give a name up, and let the list go that was there. -/
def discardCourse (contents : S → List γ) (name : String) (registry : Registry S) :
    Course γ (Registry S) Unit :=
  let changed := registry.erase name
  ⟨Stage.row .release (registry.elementsUnder contents name) changed, changed, .ok ()⟩

/-- Make a list, and put it under a name. -/
def keepCourse (contents : S → List γ) (name : String) (making : Course γ (Registry S) S) :
    Course γ (Registry S) (Answer γ) :=
  (making.bind (storeCourse contents name)).map fun _ ↦ .done

/-- Work on the list under a name. -/
def visitCourse (name : String) (registry : Registry S) (work : Course γ S β) :
    Course γ (Registry S) β :=
  work.within id (registry.insert name)

/-- Give a name up, if there is one. -/
def dropCourse (contents : S → List γ) (name : Option String) (registry : Registry S) :
    Course γ (Registry S) (Answer γ) :=
  match name with
  | none => .done registry .done
  | some name => (discardCourse contents name registry).map fun _ ↦ .done

theorem store_follows (contents : S → List γ) (name : String) (list : S) (registry : Registry S) :
    (store contents name list).Follows mem registry (storeCourse contents name list registry) :=
  Follows.get_bind (((Follows.set _).bind_done (.callAll .release _)).of_eq rfl)

theorem discard_follows (contents : S → List γ) (name : String) (registry : Registry S) :
    (discard contents name).Follows mem registry (discardCourse contents name registry) :=
  Follows.get_bind (((Follows.set _).bind_done (.callAll .release _)).of_eq rfl)

theorem keep_follows {O D P : Type} (vocabulary : Vocabulary γ S O D P) (name : String)
    {making : Action γ (Registry S) S} {course : Course γ (Registry S) S} {registry : Registry S}
    (h : making.Follows mem registry course) :
    (Command.keep vocabulary name making).Follows mem registry
      (keepCourse vocabulary.contents name course) := by
  have hstore := (h.bind fun list _ ↦ store_follows vocabulary.contents name list _).map
    fun _ ↦ (.done : Answer γ)
  rw [bind_assoc] at hstore
  exact hstore

theorem visit_follows (name : String) {list : S} {action : Action γ S β} {course : Course γ S β}
    {registry : Registry S} (h : action.Follows mem list course) :
    (visit name list action).Follows mem registry (visitCourse name registry course) :=
  Follows.within h

theorem drop_follows (contents : S → List γ) (name : Option String) (registry : Registry S) :
    (do
      name.forM (discard contents)
      return .done : Action γ (Registry S) (Answer γ)).Follows mem registry
      (dropCourse contents name registry) := by
  cases name with
  | none => exact (Follows.pure ()).bind_done (.pure _)
  | some name => exact (discard_follows contents name registry).map fun _ ↦ Answer.done

/-! ## Failures on registries -/

/-- Giving a name up does not fail. -/
theorem result_dropCourse (contents : S → List γ) (name : Option String) (registry : Registry S) :
    (dropCourse contents name registry).result = .ok .done := by
  cases name <;> rfl

/-- Storing does not fail, so that a list that is not stored was not made. -/
theorem of_keepCourse_error {contents : S → List γ} {name : String}
    {making : Course γ (Registry S) S} {e : ListError}
    (h : (keepCourse contents name making).result = .error e) :
    making.result = .error e ∧
      keepCourse contents name making = ⟨making.stages, making.state, .error e⟩ := by
  obtain ⟨stages, registry, e' | list⟩ := making
  · cases h
    exact ⟨rfl, rfl⟩
  · cases h

theorem calls_visitCourse (name : String) (registry : Registry S) (work : Course γ S β) :
    (visitCourse name registry work).calls = work.calls := by
  rw [visitCourse, Course.calls_within]
  exact List.map_id _

/-- Under each name, what is there afterwards stands in a relation to what was there before. -/
def Related (relation : String → S → S → Prop) (before after : Registry S) : Prop :=
  ∀ name, Option.Rel (relation name) (before.find? name) (after.find? name)

variable {relation : String → S → S → Prop}

theorem Related.refl (h : ∀ name list, relation name list list) (registry : Registry S) :
    Related relation registry registry := by
  intro name
  cases registry.find? name with
  | none => exact .none
  | some list => exact .some (h name list)

/-- Work on one list relates that list alone. -/
theorem Related.insert (h : ∀ name list, relation name list list) {registry : Registry S}
    {known : String} {list changed : S} (hfind : registry.find? known = some list)
    (hchanged : relation known list changed) :
    Related relation registry (registry.insert known changed) := by
  intro name
  by_cases hname : name = known
  · rw [hname, find?_insert_self, hfind]
    exact .some hchanged
  · rw [find?_insert_of_ne registry known hname]
    exact Related.refl h registry name

end Registry
end ListRuntime
