import ListRuntime.Proofs.UniformList.Conservation

/-!
# Histories of uniform lists

A history is what any number of commands leave: the lists under their names, the hook calls so far,
and the elements that were popped.  Each step has an allocator and a mishap of its own, so that a
history may go through failures of allocation and through unwinding hooks.

* `History.next_sound` is what one step does to the books, `History.ofSteps_sound` what many do.
* `balance_eq_held_add_popped`: as long as no hook unwinds, acquires less releases are the elements
  in the lists and those that were popped.
* `held_add_popped_le_balance`: whichever hooks unwind, nothing is released that is still held.
-/

set_option autoImplicit false

namespace ListRuntime
namespace UniformList

open ListRuntime.Action Course HookCall

variable {α : Type}

/-! ## Commands -/

/-- The elements that the answer to a command hands over. -/
def givenBy : ListCommand → Answer α → List α
  | .operate _ operation, answer => operation.given answer
  | .create .. , _ | .derive .. , _ | .drop _, _ => []

/-- The elements that a run of a command has handed over.  Only one that comes to an answer does. -/
def poppedBy (command : ListCommand) (run : Run α (Registry (UniformList α)) (Answer α)) : List α :=
  match run.ending with
  | .returned answer => givenBy command answer
  | .failed _ | .unwound _ => []

theorem handed_eq_count_poppedBy [DecidableEq α] (command : ListCommand)
    (run : Run α (Registry (UniformList α)) (Answer α)) (a : α) :
    run.handed (fun answer a ↦ ((givenBy command answer).count a : Int)) a =
      (poppedBy command run).count a := by
  rw [Run.handed, poppedBy]
  cases run.ending <;> rfl

variable [Element α]

/-- What holds of all registries: no name is there twice, and all elements fit into their
buffers. -/
structure Sound (registry : Registry (UniformList α)) : Prop where
  /-- No name is there twice. -/
  distinct : registry.Distinct
  /-- The elements of each list fit into its buffer. -/
  fits : registry.All Fits

theorem sound_empty : Sound (Registry.empty : Registry (UniformList α)) :=
  ⟨Registry.distinct_empty, Registry.all_empty⟩

variable [DecidableEq α]

/-- How many slots of all lists hold an element. -/
def held (registry : Registry (UniformList α)) (a : α) : Int :=
  (registry.elements (·.toList)).count a

/-- What a command does to a registry, all in one: its books balance, and all that holds of
registries holds wherever it may end. -/
structure Accounted (registry : Registry (UniformList α)) (command : ListCommand)
    (course : Course α (Registry (UniformList α)) (Answer α)) : Prop where
  /-- What the lists hold and what is handed over is paid for. -/
  conserves : course.Conserves held (fun answer a ↦ ((givenBy command answer).count a : Int))
    (held registry)
  /-- Wherever it ends, the registry is sound. -/
  keeps : course.Keeps Sound

variable {mem : Allocator} {registry : Registry (UniformList α)}

/-- Giving a name up releases what goes with it. -/
theorem accounted_discard (h : Sound registry) (name : String) :
    (Registry.discardCourse (·.toList) name registry).Conserves held nothing (held registry) ∧
      (Registry.discardCourse (·.toList) name registry).Keeps Sound := by
  have hcount (a : α) := Registry.count_erase name h.distinct (·.toList) a
  have hsound : Sound (registry.erase name) := ⟨h.distinct.erase, h.fits.erase⟩
  refine ⟨.giveUp _ (fun a ↦ ?_) fun a ↦ ?_, .giveUp _ hsound hsound⟩
  all_goals
    have := hcount a
    simp only [held, nothing]
    omega

/-- Putting a list under a name adds what it holds, and releases what goes. -/
theorem accounted_store (h : Sound registry) (name : String) {list : UniformList α}
    (hlist : list.Fits) :
    (Registry.storeCourse (·.toList) name list registry).Conserves held nothing
        (fun a ↦ held registry a + list.stock a) ∧
      (Registry.storeCourse (·.toList) name list registry).Keeps Sound := by
  have herase (a : α) := Registry.count_erase name h.distinct (·.toList) a
  have hinsert (a : α) := Registry.count_insert registry name list (·.toList) a
  have hsound : Sound (registry.insert name list) := ⟨h.distinct.insert list, h.fits.insert hlist⟩
  refine ⟨.giveUp _ (fun a ↦ ?_) fun a ↦ ?_, .giveUp _ hsound hsound⟩
  all_goals
    have := herase a
    have := hinsert a
    simp only [held, nothing, stock]
    omega

/-- A new list that is put under a name is accounted for. -/
theorem accounted_keep (h : Sound registry) (name : String) {command : ListCommand}
    (hgiven : givenBy command (.done : Answer α) = [])
    {course : Course α (Registry (UniformList α)) (UniformList α)}
    (hmaking : Making registry course) :
    Accounted registry command (Registry.keepCourse (·.toList) name course) := by
  have hstate : course.state = registry := hmaking.keeps.state
  have hstore (list : UniformList α) (hlist : course.result = .ok list) :=
    accounted_store (hstate ▸ h : Sound course.state) name (hmaking.fits list hlist)
  refine ⟨?_, ?_⟩
  · refine ((hmaking.conserves held).bind fun list hlist ↦ (hstore list hlist).1).map fun _ a ↦ ?_
    rw [hgiven]
    rfl
  · exact ((hmaking.keeps.imp fun _ heq ↦ heq ▸ h).bind fun list hlist ↦ (hstore list hlist).2).map

/-- Work on the list under a name is accounted for if the list's own books balance. -/
theorem accounted_visit (h : Sound registry) {name : String} {list : UniformList α}
    (hfind : registry.find? name = some list) {command : ListCommand}
    {course : Course α (UniformList α) (Answer α)}
    (hconserves : course.Conserves stock
      (fun answer a ↦ ((givenBy command answer).count a : Int)) list.stock)
    (hkeeps : course.Keeps Fits) :
    Accounted registry command (Registry.visitCourse name registry course) := by
  have hwrite (t : UniformList α) :
      Spread id (held (registry.erase name)) t.stock (held (registry.insert name t)) := by
    refine spread_id fun a ↦ ?_
    have := Registry.count_insert registry name t (·.toList) a
    simp only [held, stock]
    omega
  have howned : Spread id (held (registry.erase name)) list.stock (held registry) := by
    refine spread_id fun a ↦ ?_
    have := Registry.count_erase name h.distinct (·.toList) a
    rw [Registry.elementsUnder, hfind] at this
    simp only [held, stock, Option.map_some, Option.getD_some] at this ⊢
    omega
  exact ⟨hconserves.within Function.injective_id hwrite howned fun _ ↦ spread_id fun a ↦
      (Int.add_zero _).symm, hkeeps.within fun t ht ↦ ⟨h.distinct.insert t, h.fits.insert ht⟩⟩

theorem accounted_drop (h : Sound registry) (name : Option String) :
    Accounted registry (.drop name) (Registry.dropCourse (·.toList) name registry) := by
  cases name with
  | none => exact ⟨.done fun _ ↦ by simp [givenBy], .done h⟩
  | some name =>
    obtain ⟨hconserves, hkeeps⟩ := accounted_discard h name
    exact ⟨hconserves.map fun _ _ ↦ rfl, hkeeps.map⟩

/-- **Every command is accounted for.** -/
theorem accounted_of_resolve (mem : Allocator) (h : Sound registry) {command : ListCommand}
    {action : Action α (Registry (UniformList α)) (Answer α)}
    (hresolve : (command.resolve vocabulary registry).run = some (.ok action)) :
    ∃ course, action.Follows mem registry course ∧ Accounted registry command course := by
  cases command with
  | create target origin =>
    obtain ⟨making, hmaking, rfl⟩ := Command.resolve_create hresolve
    obtain ⟨resolved, -, hpure⟩ := Resolved.run_bind_eq_ok.1 hmaking
    obtain rfl := Resolved.run_pure_eq_ok.1 hpure
    exact ⟨_, Registry.keep_follows _ target (resolved.action_follows registry),
      accounted_keep h target rfl resolved.making⟩
  | derive target source derivation =>
    obtain ⟨making, list, hmaking, -, rfl⟩ := Command.resolve_derive hresolve
    obtain ⟨resolved, -, hpure⟩ := Resolved.run_bind_eq_ok.1 hmaking
    obtain rfl := Resolved.run_pure_eq_ok.1 hpure
    exact ⟨_, Registry.keep_follows _ target (resolved.action_follows list registry),
      accounted_keep h target rfl resolved.making⟩
  | operate name operation =>
    obtain ⟨known, list, work, -, hfind, hwork, rfl⟩ := Command.resolve_operate hresolve
    obtain ⟨resolved, hmap, hpure⟩ := Resolved.run_bind_eq_ok.1 hwork
    obtain rfl := Resolved.run_pure_eq_ok.1 hpure
    have hgiven (answer : Answer α) : givenBy (.operate name operation) answer =
        resolved.given answer := by
      simp only [givenBy, Operation.given, Operation.role_of_mapM hmap]
    refine ⟨_, Registry.visit_follows known (resolved.action_follows list),
      accounted_visit h hfind ?_ (resolved.keeps_fits (h.fits.of_find? hfind))⟩
    simp only [hgiven]
    exact resolved.conserves (h.fits.of_find? hfind)
  | drop name =>
    rw [Command.resolve_drop hresolve]
    exact ⟨_, Registry.drop_follows _ name registry, accounted_drop h name⟩

/-! ## Histories -/

/-- One step of a history. -/
structure Step where
  /-- What it can allocate. -/
  mem : Allocator
  /-- Which of its hook calls unwinds. -/
  mishap : Mishap
  /-- What it is to do. -/
  command : ListCommand

/-- A step whose hook calls all return. -/
def Step.calm (mem : Allocator) (command : ListCommand) : Step := ⟨mem, none, command⟩

/-- What commands have led to. -/
structure History (α : Type) where
  /-- The lists that are there. -/
  registry : Registry (UniformList α)
  /-- The hook calls so far. -/
  log : List (HookCall α)
  /-- The elements that were handed over by `pop`. -/
  popped : List α

/-- The history before the first step. -/
def History.start : History α := ⟨.empty, [], []⟩

/-- The history after one more step.  A command that means nothing changes nothing. -/
def History.next (history : History α) (step : Step) : History α :=
  match step.command.run? vocabulary step.mem step.mishap history.registry with
  | none => history
  | some outcome => ⟨outcome.state, history.log ++ outcome.calls,
      history.popped ++ poppedBy step.command outcome⟩

/-- The history that steps lead to. -/
def History.ofSteps (steps : List Step) : History α := steps.foldl next start

/-- The history with all lists let go at last, by ascending name. -/
def History.finish (mem : Allocator) (history : History α) : List (HookCall α) :=
  (Session.finish mem vocabulary { state := history.registry, log := history.log }).log

/-- What the hook calls have paid for, less what is held and what was handed over. -/
def History.surplus (history : History α) (a : α) : Int :=
  balance history.log a - (held history.registry a + history.popped.count a)

/-- A run of a command leaves a sound registry, and no more than is paid for; without a mishap it
leaves exactly what is paid for. -/
theorem sound_of_run? {mishap : Mishap} (h : Sound registry) {command : ListCommand}
    {run : Run α (Registry (UniformList α)) (Answer α)}
    (hrun : command.run? vocabulary mem mishap registry = some run) :
    Sound run.state ∧
      (∀ a, held run.state a + (poppedBy command run).count a ≤
        held registry a + balance run.calls a) ∧
      (mishap = none → ∀ a, held run.state a + (poppedBy command run).count a =
        held registry a + balance run.calls a) := by
  rcases Command.of_run? hrun with ⟨e, rfl⟩ | ⟨action, hresolve, rfl⟩
  · simp [h, poppedBy]
  · obtain ⟨course, hfollows, haccounted⟩ := accounted_of_resolve mem h hresolve
    rw [hfollows mishap]
    refine ⟨haccounted.keeps.run mishap, fun a ↦ ?_, ?_⟩
    · rw [← handed_eq_count_poppedBy]
      exact haccounted.conserves.run_le mishap a
    · rintro rfl a
      rw [← handed_eq_count_poppedBy]
      exact haccounted.conserves.run_none a

/-- A step keeps registries sound, and its surplus grows or, without a mishap, stays. -/
theorem History.next_sound {history : History α} (h : Sound history.registry) (step : Step) :
    Sound (history.next step).registry ∧
      (∀ a, history.surplus a ≤ (history.next step).surplus a) ∧
      (step.mishap = none → ∀ a, (history.next step).surplus a = history.surplus a) := by
  rw [next]
  split
  · exact ⟨h, fun a ↦ Int.le_refl _, fun _ a ↦ rfl⟩
  · next run hrun =>
    obtain ⟨hsound, hle, heq⟩ := sound_of_run? h hrun
    refine ⟨hsound, fun a ↦ ?_, fun hcalm a ↦ ?_⟩
    · have := hle a
      simp only [surplus, balance_append, List.count_append]
      omega
    · have := heq hcalm a
      simp only [surplus, balance_append, List.count_append]
      omega

/-- Whatever steps lead to is sound, and has no deficit. -/
theorem History.ofSteps_sound (steps : List Step) :
    Sound (ofSteps steps : History α).registry ∧
      ∀ a, 0 ≤ (ofSteps steps : History α).surplus a := by
  induction steps using List.reverseRecOn with
  | nil => exact ⟨sound_empty, fun a ↦ Int.le_refl 0⟩
  | append_singleton steps step ih =>
    obtain ⟨hsound, hgrows, -⟩ := next_sound ih.1 step
    rw [ofSteps, List.foldl_append]
    exact ⟨hsound, fun a ↦ Int.le_trans (ih.2 a) (hgrows a)⟩

/-- Without mishaps there is no surplus either. -/
theorem History.surplus_calm (steps : List (Allocator × ListCommand)) (a : α) :
    (ofSteps (steps.map fun (mem, command) ↦ .calm mem command)).surplus a = 0 := by
  induction steps using List.reverseRecOn with
  | nil => rfl
  | append_singleton steps step ih =>
    have hsound : Sound (ofSteps (steps.map fun (mem, command) ↦ .calm mem command) :
        History α).registry := (ofSteps_sound _).1
    obtain ⟨-, -, hstays⟩ := next_sound hsound (.calm step.1 step.2)
    rw [List.map_append, ofSteps, List.foldl_append]
    exact (hstays rfl a).trans ih

/-- Letting all lists go releases all that they hold. -/
theorem History.balance_finish (mem : Allocator) (history : History α) (a : α) :
    balance (history.finish mem) a = balance history.log a - held history.registry a := by
  have hlog : history.finish mem =
      history.log ++ (history.registry.elements (·.toList)).map (⟨.release, ·⟩) :=
    Session.log_dismiss mem rfl _
  rw [hlog, balance_append, balance_releases]
  rfl

/-- **Conservation.**  As long as no hook unwinds, acquires less releases of an element are the
slots that hold it and the times it was popped.  Once all lists are let go, only the latter are
left. -/
theorem balance_eq_held_add_popped (steps : List (Allocator × ListCommand)) (mem : Allocator)
    (a : α) :
    let history : History α := .ofSteps (steps.map fun (mem, command) ↦ .calm mem command)
    balance history.log a =
        (history.registry.elements (·.toList)).count a + history.popped.count a ∧
      balance (history.finish mem) a = history.popped.count a := by
  intro history
  have hsurplus : history.surplus a = 0 := History.surplus_calm steps a
  have hfinish := history.balance_finish mem a
  rw [History.surplus, held] at hsurplus
  rw [held] at hfinish
  omega

/-- **No release of what is still held.**  Whichever hook calls unwind, the slots that hold an
element and the times it was popped are paid for, and every list fits into its buffer. -/
theorem held_add_popped_le_balance (steps : List Step) (a : α) :
    let history : History α := .ofSteps steps
    (history.registry.elements (·.toList)).count a + history.popped.count a ≤
        balance history.log a ∧
      ∀ entry ∈ history.registry.entries, entry.2.length ≤ entry.2.capacity := by
  intro history
  obtain ⟨hsound, hall⟩ : Sound history.registry ∧ ∀ a, 0 ≤ history.surplus a :=
    History.ofSteps_sound steps
  refine ⟨?_, fun entry hmem ↦ (hsound.fits entry hmem).length_le⟩
  have hsurplus := hall a
  rw [History.surplus, held] at hsurplus
  omega

end UniformList
end ListRuntime
