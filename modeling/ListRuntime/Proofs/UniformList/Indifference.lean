import ListRuntime.Proofs.UniformList.Alike
import ListRuntime.Proofs.UniformList.History
import ListRuntime.Proofs.UniformList.Sufficiency

/-!
# Programs do not see capacities

A program makes lists, works on them and lets them go.  Started on lists with the same elements, and
run with other policies, other announcements of iterators and other requests for room in between, it
goes the same way, as long as no request for room is refused; and none is refused where there is
memory for what the program takes in.

* `ListCommand.SameBut` and `SameProgram` say how programs may differ.
* `alike_resolve` is about what commands resolve to, `alike_run?` about one step, and
  `capacity_not_seen` about whole programs.
* `neverRefused_of_supplied`: a program that is supplied with memory is never refused room.
-/

set_option autoImplicit false

namespace ListRuntime
namespace UniformList

open ListRuntime.Action Course

/-! ## Commands -/

/-- The same command, up to what is not seen: the policy and the room of a new list, and what an
iterator announces. -/
inductive ListCommand.SameBut : ListCommand → ListCommand → Prop where
  | create (target : String) {origin origin' : Origin Operand} (h : origin.SameBut origin') :
    SameBut (.create target origin) (.create target origin')
  | derive (target source : String) (derivation : Derivation Operand) :
    SameBut (.derive target source derivation) (.derive target source derivation)
  | operate (name : Option String) {operation operation' : Operation Value Operand}
      (h : operation.SameBut operation') :
    SameBut (.operate name operation) (.operate name operation')
  | drop (name : Option String) : SameBut (.drop name) (.drop name)

variable {α : Type} {mem mem' : Allocator} {registry registry' : Registry (UniformList α)}

theorem Origin.SameBut.mapM {elements elements' : Operand → Resolved (List α)}
    {origin origin' : Origin Operand} (h : origin.SameBut origin') (heq : elements = elements') :
    (origin.mapM elements).Alike Origin.SameBut (origin'.mapM elements') := by
  subst heq
  cases h with
  | refl => exact .refl Origin.SameBut.refl _
  | empty growth growth' => exact .pure (.empty growth growth')
  | withCapacity room room' => exact .pure (.withCapacity room room')
  | ofIterator items hint hint' =>
    exact (Resolved.Alike.refl (fun _ ↦ rfl) (elements items)).bind fun source _ heq ↦
      heq ▸ .pure (.ofIterator source hint hint')

/-! ## Runs -/

/-- Two runs that look the same: the same hook calls, the same elements in all lists, and the same
answer or the same failure. -/
structure SameRun (run run' : Run α (Registry (UniformList α)) (Answer α)) : Prop where
  /-- The hook calls are the same, in the same order. -/
  calls_eq : run.calls = run'.calls
  /-- The elements that are left under each name are the same. -/
  shown_eq : run.state.shown (·.toList) = run'.state.shown (·.toList)
  /-- So is the answer, up to the policy, or else the failure. -/
  ending : SameEnding Answer.SameBut run.ending run'.ending

/-- Steps that look the same, or mean nothing, make the same calls and leave the same. -/
theorem same_of_rel (h : Registry.Same (·.toList) registry registry')
    {run? run?' : Option (Run α (Registry (UniformList α)) (Answer α))}
    (hrun : Option.Rel SameRun run? run?') :
    (run?.map Run.calls).getD [] = (run?'.map Run.calls).getD [] ∧
      Registry.Same (·.toList) ((run?.map Run.state).getD registry)
        ((run?'.map Run.state).getD registry') := by
  cases hrun with
  | none => exact ⟨rfl, h⟩
  | some hsame => exact ⟨hsame.calls_eq, hsame.shown_eq⟩

/-! ## What commands resolve to -/

variable [Element α]

/-- Operations that differ in what an iterator announces resolve to such operations. -/
theorem Operation.SameBut.mapM {elements elements' : Operand → Resolved (List α)}
    {operation operation' : Operation Value Operand} (h : operation.SameBut operation')
    (heq : elements = elements') :
    (operation.mapM (promote : Value → Except ListError α) Resolved.ofExcept elements).Alike
      Operation.SameBut (operation'.mapM promote Resolved.ofExcept elements') := by
  subst heq
  cases h with
  | refl => exact .refl Operation.SameBut.refl _
  | extend items hint hint' =>
    exact (Resolved.Alike.refl (fun _ ↦ rfl) (elements items)).bind fun source _ heq ↦
      heq ▸ .pure (.extend source hint hint')
  | tryExtend yielded hint hint' => exact .pure (.tryExtend _ hint hint')

/-- The elements that a name stands for are seen. -/
theorem elements_eq (h : Registry.Same (·.toList) registry registry') :
    Operand.elements registry = Operand.elements registry' := by
  have hnamed (registry : Registry (UniformList α)) (name : String) :
      Operand.elements registry (.elementsOf name) =
        Resolved.ofOption (registry.shown (·.toList) name) := by
    rw [Operand.elements, Resolved.named, Registry.shown]
    cases registry.find? name <;> rfl
  funext operand
  cases operand with
  | values given => rfl
  | elementsOf name => rw [hnamed, hnamed, show registry.shown _ = _ from h]

section
variable (mem mem' : Allocator) (h : Registry.Same (·.toList) registry registry')
include h

theorem alike_create {origin origin' : Origin Operand} (horigin : origin.SameBut origin') :
    (vocabulary.create registry origin).Alike
      (Action.Alike (α := α) mem mem' registry registry' (Registry.Same (·.toList)) Same)
      (vocabulary.create registry' origin') :=
  (horigin.mapM (elements_eq h)).bind fun origin origin' horigin ↦
    .pure ⟨_, _, origin.action_follows registry, origin'.action_follows registry', horigin.alike h⟩

theorem alike_derive (derivation : Derivation Operand) :
    (vocabulary.derive registry derivation).Alike
      (fun making making' ↦ ∀ list list' : UniformList α, Same list list' →
        Action.Alike mem mem' registry registry' (Registry.Same (·.toList)) Same (making list)
          (making' list'))
      (vocabulary.derive registry' derivation) := by
  have hsame : (derivation.mapM (Operand.elements registry)).Alike Eq
      (derivation.mapM (Operand.elements registry')) := elements_eq h ▸ .refl (fun _ ↦ rfl) _
  refine hsame.bind fun derivation _ heq ↦ .pure ?_
  rintro list list' hlist
  subst heq
  exact ⟨_, _, derivation.action_follows list registry, derivation.action_follows list' registry',
    derivation.alike hlist h⟩

theorem alike_operate {operation operation' : Operation Value Operand}
    (hoperation : operation.SameBut operation') :
    (vocabulary.operate registry operation).Alike
      (fun work work' ↦ ∀ list list' : UniformList α, Same list list' →
        Action.Alike mem mem' list list' Same Answer.SameBut work work')
      (vocabulary.operate registry' operation') :=
  (hoperation.mapM (elements_eq h)).bind fun operation operation' hoperation ↦ .pure
    fun list list' hlist ↦ ⟨_, _, operation.action_follows list, operation'.action_follows list',
      hoperation.alike hlist⟩

/-- **Commands about the same elements come to actions that look alike.** -/
theorem alike_resolve {command command' : ListCommand} (hcommand : command.SameBut command') :
    (command.resolve vocabulary registry).Alike
      (Action.Alike (α := α) mem mem' registry registry' (Registry.Same (·.toList)) Answer.SameBut)
      (command'.resolve vocabulary registry') := by
  cases hcommand with
  | create target horigin =>
    refine (alike_create mem mem' h horigin).bind fun making making' hmaking ↦ .pure ?_
    obtain ⟨course, course', hfollows, hfollows', halike⟩ := hmaking
    exact ⟨_, _, Registry.keep_follows _ target hfollows, Registry.keep_follows _ target hfollows',
      Registry.alike_keep target halike⟩
  | derive target source derivation =>
    refine (alike_derive mem mem' h derivation).bind fun making making' hmaking ↦
      (h.alike_named source).bind fun list list' hlist ↦ .pure ?_
    obtain ⟨course, course', hfollows, hfollows', halike⟩ := hmaking list list' hlist
    exact ⟨_, _, Registry.keep_follows _ target hfollows, Registry.keep_follows _ target hfollows',
      Registry.alike_keep target halike⟩
  | operate name hoperation =>
    refine (alike_operate mem mem' h hoperation).bind fun work work' hwork ↦
      (Resolved.Alike.refl (fun _ ↦ rfl) (Resolved.ofOption name)).bind fun known _ heq ↦ ?_
    subst heq
    refine (h.alike_named known).bind fun list list' hlist ↦ .pure ?_
    obtain ⟨course, course', hfollows, hfollows', halike⟩ := hwork list list' hlist
    exact ⟨_, _, Registry.visit_follows known hfollows, Registry.visit_follows known hfollows',
      Registry.alike_visit h known halike⟩
  | drop name =>
    exact .pure ⟨_, _, Registry.drop_follows _ name registry,
      Registry.drop_follows _ name registry', Registry.alike_drop h name⟩

end

/-! ## Programs -/

/-- What a command leaves, with what it can allocate.  One that means nothing changes nothing. -/
def next (registry : Registry (UniformList α)) (step : Allocator × ListCommand) :
    Registry (UniformList α) :=
  ((step.2.run? vocabulary step.1 none registry).map Run.state).getD registry

/-- The runs of the commands of a program, one after the other.  A command that means nothing has
none. -/
def runs : List (Allocator × ListCommand) → Registry (UniformList α) →
    List (ListCommand × Option (Run α (Registry (UniformList α)) (Answer α)))
  | [], _ => []
  | step :: program, registry =>
    (step.2, step.2.run? vocabulary step.1 none registry) :: runs program (next registry step)

/-- No request for room is refused.  What an iterator reports in its own words is not a refusal,
whatever its category. -/
def NeverRefused (program : List (Allocator × ListCommand)) (registry : Registry (UniformList α)) :
    Prop :=
  ∀ entry ∈ runs program registry, ∀ run ∈ entry.2, run.ending.isRefusal = false

instance (program : List (Allocator × ListCommand)) (registry : Registry (UniformList α)) :
    Decidable (NeverRefused program registry) :=
  inferInstanceAs (Decidable (∀ entry ∈ runs program registry, ∀ run ∈ entry.2, _ = false))

/-- What the commands of a program need, one after the other. -/
def needsAlong : List (Allocator × ListCommand) → Registry (UniformList α) → List Needs
  | [], _ => []
  | step :: program, registry => step.2.needs registry :: needsAlong program (next registry step)

/-- A program is supplied with all that it needs. -/
structure Supplied (program : List (Allocator × ListCommand))
    (registry : Registry (UniformList α)) : Prop where
  /-- No allocator refuses anything. -/
  grants : ∀ step ∈ program, ∀ bytes, step.1.grants bytes = true
  /-- No step needs memory for more elements than a buffer can have. -/
  room_le : ∀ needs ∈ needsAlong program registry, needs.room ≤ (Element.layout α).maxElements
  /-- No step brings a refusal with it. -/
  reports : ∀ needs ∈ needsAlong program registry, ∀ e ∈ needs.reports, e.isRefusal = false

/-- Registries stay sound along a program. -/
theorem sound_next (h : Sound registry) (step : Allocator × ListCommand) :
    Sound (next registry step) := by
  rw [next]
  cases hrun : step.2.run? vocabulary step.1 none registry with
  | none => exact h
  | some run => classical exact (sound_of_run? h hrun).1

/-- **A program that is supplied with all that it needs is never refused room.** -/
theorem neverRefused_of_supplied {program : List (Allocator × ListCommand)} (h : Sound registry)
    (hsupplied : Supplied program registry) : NeverRefused program registry := by
  induction program generalizing registry with
  | nil => exact fun _ hmem ↦ (List.not_mem_nil hmem).elim
  | cons step program ih =>
    obtain ⟨hgrants, hroom, hreports⟩ := hsupplied
    rw [List.forall_mem_cons] at hgrants
    rw [needsAlong, List.forall_mem_cons] at hroom hreports
    rw [NeverRefused, runs, List.forall_mem_cons]
    have hmet : (step.2.needs registry).Met α step.1 := ⟨⟨hgrants.1, hroom.1⟩, hreports.1⟩
    exact ⟨fun run hrun ↦ ListCommand.isRefusal_of_run? h.fits hmet hrun,
      ih (sound_next h step) ⟨hgrants.2, hroom.2, hreports.2⟩⟩

/-- Whether a command only asks for room. -/
def ListCommand.asksForRoom : ListCommand → Bool
  | .operate _ (.ensureCapacity _) => true
  | _ => false

/-- The runs of all commands but those that only ask for room. -/
def seen (program : List (Allocator × ListCommand)) (registry : Registry (UniformList α)) :
    List (Option (Run α (Registry (UniformList α)) (Answer α))) :=
  ((runs program registry).filter fun entry ↦ !entry.1.asksForRoom).map Prod.snd

/-- The hook calls of a program. -/
def log (program : List (Allocator × ListCommand)) (registry : Registry (UniformList α)) :
    List (HookCall α) :=
  (runs program registry).flatMap fun entry ↦ (entry.2.map Run.calls).getD []

/-- The same commands, up to what is not seen, with requests for room in between in the one or in the
other.  What can be allocated may differ at each step. -/
inductive SameProgram : List (Allocator × ListCommand) → List (Allocator × ListCommand) → Prop where
  | nil : SameProgram [] []
  | step (mem mem' : Allocator) {command command' : ListCommand} (h : command.SameBut command')
      {program program' : List (Allocator × ListCommand)} (hrest : SameProgram program program') :
    SameProgram ((mem, command) :: program) ((mem', command') :: program')
  | room (mem : Allocator) (name : Option String) (required : Nat)
      {program program' : List (Allocator × ListCommand)} (hrest : SameProgram program program') :
    SameProgram ((mem, .operate name (.ensureCapacity required)) :: program) program'
  | room' (mem : Allocator) (name : Option String) (required : Nat)
      {program program' : List (Allocator × ListCommand)} (hrest : SameProgram program program') :
    SameProgram program ((mem, .operate name (.ensureCapacity required)) :: program')

/-- One step looks the same, unless room was refused. -/
theorem alike_run? (mem mem' : Allocator) (h : Registry.Same (·.toList) registry registry')
    {command command' : ListCommand} (hcommand : command.SameBut command')
    (hroom : ∀ run ∈ command.run? vocabulary mem none registry, run.ending.isRefusal = false)
    (hroom' : ∀ run ∈ command'.run? vocabulary mem' none registry', run.ending.isRefusal = false) :
    Option.Rel SameRun (command.run? vocabulary mem none registry)
      (command'.run? vocabulary mem' none registry') := by
  have halike := alike_resolve mem mem' h hcommand
  simp only [Command.run?] at hroom hroom' ⊢
  generalize command.resolve vocabulary registry = resolved at halike hroom ⊢
  generalize command'.resolve vocabulary registry' = resolved' at halike hroom' ⊢
  cases halike with
  | meaningless => exact .none
  | failed e => exact .some ⟨rfl, h, .failed e⟩
  | resolved hactions =>
    obtain ⟨course, course', hfollows, hfollows', halike⟩ := hactions
    refine .some ?_
    have hroom := hroom _ rfl
    have hroom' := hroom' _ rfl
    dsimp only at hroom hroom' ⊢
    rw [Command.run_carryOut_ok, hfollows none] at hroom ⊢
    rw [Command.run_carryOut_ok, hfollows' none] at hroom' ⊢
    obtain ⟨hcalls, hstate, hending⟩ := halike.run_none hroom hroom'
    exact ⟨hcalls, hstate, hending⟩

/-- A request for room calls no hooks and leaves the same elements, whatever comes of it. -/
theorem ensureCapacity_not_seen (mem : Allocator) (list : UniformList α) (required : Nat) :
    let course := (Operation.ensureCapacity required).course mem list
    course.stages = [] ∧ Same course.state list := by
  have hroom := roomOf_roomFor mem list required
  rw [Operation.course]
  cases hresult : list.roomFor mem required with
  | ok roomy => exact ⟨rfl, (hresult ▸ hroom : RoomOf list (.ok roomy))⟩
  | error e => exact ⟨rfl, rfl⟩

/-- So does the command for it. -/
theorem run?_ensureCapacity (mem : Allocator) (registry : Registry (UniformList α))
    (name : Option String) (required : Nat) :
    let command : ListCommand := .operate name (.ensureCapacity required)
    ((command.run? vocabulary mem none registry).map Run.calls).getD [] = [] ∧
      Registry.Same (·.toList) (next registry (mem, command)) registry := by
  intro command
  rw [next]
  cases hrun : command.run? vocabulary mem none registry with
  | none => exact ⟨rfl, rfl⟩
  | some run =>
    rcases Command.of_run? hrun with ⟨e, rfl⟩ | ⟨action, hresolve, rfl⟩
    · exact ⟨rfl, rfl⟩
    · obtain ⟨known, list, work, -, hfind, hwork, rfl⟩ := Command.resolve_operate hresolve
      obtain rfl := Resolved.run_pure_eq_ok.1 hwork
      obtain ⟨hstages, hsame⟩ := ensureCapacity_not_seen mem list required
      rw [Registry.visit_follows known ((Operation.ensureCapacity required).action_follows list) none]
      refine ⟨?_, Registry.same_insert hfind hsame⟩
      show (Registry.visitCourse known registry _).calls = []
      rw [Registry.calls_visitCourse, Course.calls, hstages]
      rfl

theorem ListCommand.SameBut.asksForRoom_eq {command command' : ListCommand}
    (h : command.SameBut command') : command.asksForRoom = command'.asksForRoom := by
  cases h with
  | operate name hoperation => cases hoperation <;> rfl
  | create | derive | drop => rfl

/-- **Programs do not see capacities.**  Two programs that do the same, on lists with the same
elements, with whatever capacities and policies, iterators that announce what they like, and
requests for room in between: as long as no request is refused, each step comes to the same answer
or the same failure and leaves the same elements, and the hook calls are the same from the first to
the last.  No request of a program is refused that is supplied with memory for what its steps
need. -/
theorem capacity_not_seen (h : Registry.Same (·.toList) registry registry')
    {program program' : List (Allocator × ListCommand)} (hprogram : SameProgram program program') :
    (NeverRefused program registry → NeverRefused program' registry' →
      List.Forall₂ (Option.Rel SameRun) (seen program registry) (seen program' registry') ∧
        log program registry = log program' registry' ∧
        Registry.Same (·.toList) (program.foldl next registry) (program'.foldl next registry')) ∧
    (Sound registry → Supplied program registry → NeverRefused program registry) ∧
    (Sound registry' → Supplied program' registry' → NeverRefused program' registry') := by
  refine ⟨fun hroom hroom' ↦ ?_, neverRefused_of_supplied, neverRefused_of_supplied⟩
  induction hprogram generalizing registry registry' with
  | nil => exact ⟨.nil, rfl, h⟩
  | step mem mem' hcommand hrest ih =>
    obtain ⟨hfirst, hrooms⟩ := List.forall_mem_cons.1 hroom
    obtain ⟨hfirst', hrooms'⟩ := List.forall_mem_cons.1 hroom'
    have hrun := alike_run? mem mem' h hcommand hfirst hfirst'
    obtain ⟨hcalls, hsame⟩ := same_of_rel h hrun
    obtain ⟨hseen, hlog, hleft⟩ := ih hsame hrooms hrooms'
    refine ⟨?_, ?_, hleft⟩
    · simp only [seen, runs, List.filter_cons, hcommand.asksForRoom_eq] at hseen ⊢
      split
      · exact .cons hrun hseen
      · exact hseen
    · rw [log, log, runs, runs, List.flatMap_cons, List.flatMap_cons, hcalls]
      exact congrArg (_ ++ ·) hlog
  -- a request for room moves one program on and leaves the other where it is
  | room mem name required hrest ih =>
    obtain ⟨hcalls, hsame⟩ := run?_ensureCapacity mem registry name required
    obtain ⟨hseen, hlog, hleft⟩ := ih (hsame.trans h) (List.forall_mem_cons.1 hroom).2 hroom'
    refine ⟨hseen, ?_, hleft⟩
    rw [log, runs, List.flatMap_cons, hcalls]
    exact hlog
  | room' mem name required hrest ih =>
    obtain ⟨hcalls, hsame⟩ := run?_ensureCapacity mem registry' name required
    obtain ⟨hseen, hlog, hleft⟩ := ih (h.trans hsame.symm) hroom (List.forall_mem_cons.1 hroom').2
    refine ⟨hseen, hlog.trans ?_, hleft⟩
    rw [log.eq_def (_ :: _), runs, List.flatMap_cons, hcalls]
    rfl

/-- Two programs on a list of two objects, which has no room left in the one and much in the
other. -/
theorem capacity_not_seen_references :
    let objects : List Reference := [⟨16, 0⟩, ⟨32, 0⟩]
    let registry : Registry (UniformList Reference) := ⟨[("a", ⟨⟨objects.toArray, 2⟩, .standard⟩)]⟩
    let registry' : Registry (UniformList Reference) :=
      ⟨[("a", ⟨⟨objects.toArray, 90⟩, ⟨7, .fiveQuarters⟩⟩)]⟩
    let given : Operand := .values (objects.map .ref)
    let room : ListCommand := .operate "a" (.ensureCapacity 50)
    let program : List (Allocator × ListCommand) :=
      [.operate "a" (.extend given (some 1)), room, .operate "a" (.pop (some 7)),
        .create "b" (.ofIterator given none), .operate "a" .summary].map (Allocator.boundless, ·)
    let program' : List (Allocator × ListCommand) :=
      [room, .operate "a" (.extend given (some 30)), .operate "a" (.pop (some 7)),
        .create "b" (.ofIterator given (some 5)), .operate "a" .summary].map
        (Allocator.boundless, ·)
    Registry.Same (·.toList) registry registry' ∧ SameProgram program program' ∧
      Supplied program registry ∧ Supplied program' registry' ∧
      NeverRefused program registry ∧ NeverRefused program' registry' ∧
      (seen program registry).length = 4 ∧
      List.Forall₂ (Option.Rel SameRun) (seen program registry) (seen program' registry') ∧
      log program registry = log program' registry' := by
  intro objects registry registry' given room program program'
  have hsame : Registry.Same (·.toList) registry registry' := by
    funext name
    show (List.lookup name [_]).map _ = (List.lookup name [_]).map _
    rw [List.lookup_cons, List.lookup_cons]
    split <;> rfl
  have hprogram : SameProgram program program' :=
    .room' _ _ _ (.step _ _ (.operate _ (.extend ..)) (.room _ _ _
      (.step _ _ (.operate _ (.refl _)) (.step _ _ (.create _ (.ofIterator ..))
        (.step _ _ (.operate _ (.refl _)) .nil)))))
  have hsound (list : UniformList Reference) (hlist : list.Fits) : Sound ⟨[("a", list)]⟩ :=
    ⟨List.pairwise_singleton _ _, List.forall_mem_singleton.2 hlist⟩
  have hgrants (commands : List ListCommand) :
      ∀ step ∈ commands.map (Allocator.boundless, ·), ∀ bytes, step.1.grants bytes = true :=
    List.forall_mem_map.2 fun _ _ _ ↦ rfl
  have hsupplied : Supplied program registry :=
    ⟨hgrants _, by decide +kernel, by decide +kernel⟩
  have hsupplied' : Supplied program' registry' :=
    ⟨hgrants _, by decide +kernel, by decide +kernel⟩
  obtain ⟨hseen, hroom, hroom'⟩ := capacity_not_seen hsame hprogram
  have hnever := hroom (hsound _ ⟨by decide, by decide⟩) hsupplied
  have hnever' := hroom' (hsound _ ⟨by decide, by decide⟩) hsupplied'
  obtain ⟨hagrees, hlog, -⟩ := hseen hnever hnever'
  exact ⟨hsame, hprogram, hsupplied, hsupplied', hnever, hnever', rfl, hagrees, hlog⟩

end UniformList
end ListRuntime
