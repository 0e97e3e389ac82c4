import ListRuntime.Proofs.Foreign.ScalarCall
import ListRuntime.Proofs.UniformList.Refinement

/-!
# Calls that are given one list twice

A call that takes two lists may be given the same one twice, and a call that takes an array may be
given one inside the very list it changes.  The caller cannot tell this from having given a copy:
what is read is what was there when the call began, although the call overwrites it, or moves it.

* `Boundary.AgreeBut` is agreement but for what is behind a spare handle, and
  `Boundary.Indistinct` says of two runs that they end alike and leave agreement.
* `Indistinct.bind`, `Indistinct.tryCatch`, `Indistinct.status` and `Indistinct.deliver`: whatever is
  put around bodies that are indistinct is indistinct, too.
* `Twin` is a boundary with an independent copy of a list behind the spare handle; the `copy` call
  leads to one (`twin_of_copy`).
* `aliasing_safe`: no call distinguishes the list itself from its twin, as long as there is room.
* `outOfRoom_setSlice_self` and `outOfRoom_extendFromArray`: there is, where there is memory for what
  is to be left of the list.
-/

set_option autoImplicit false

namespace ListRuntime
namespace Boundary

open ListRuntime.Action Contract

variable {γ S β β' : Type} {mem : Allocator} {spare handle : Handle}

/-! ## Agreement but for one handle -/

/-- The boundaries have the same failure in the slot, and the same list behind every handle but one. -/
structure AgreeBut (spare : Handle) (one two : Boundary S) : Prop where
  /-- The same failure is in the slot. -/
  lastError_eq : two.lastError = one.lastError
  /-- The same lists are behind the handles. -/
  find?_eq : ∀ handle, handle ≠ spare → two.find? handle = one.find? handle

namespace AgreeBut

variable {one two : Boundary S}

/-- Agreement outlives a handle that both keep under the same name. -/
theorem insert (h : AgreeBut spare one two) (name : String) (kept : Option S) :
    AgreeBut spare { one with handles := one.handles.insert name kept }
      { two with handles := two.handles.insert name kept } := by
  refine ⟨h.lastError_eq, fun handle hother ↦ ?_⟩
  by_cases hname : handle = .named name
  · rw [hname, find?_insert_self, find?_insert_self]
  · rw [find?_insert_of_ne kept hname, find?_insert_of_ne kept hname]
    exact h.find?_eq handle hother

theorem replace (h : AgreeBut spare one two) (list : S) (handle : Handle) :
    AgreeBut spare (one.replace list handle) (two.replace list handle) := by
  cases handle with
  | null => exact h
  | named name => exact h.insert name (some list)

theorem record (h : AgreeBut spare one two) (e : ListError) :
    AgreeBut spare { one with lastError := some e } { two with lastError := some e } :=
  ⟨rfl, fun handle hother ↦ h.find?_eq handle hother⟩

end AgreeBut

/-! ## Indistinct runs -/

/-- The runs end alike, and what they leave agrees but for one handle. -/
structure Indistinct (spare : Handle) (one two : Run γ (Boundary S) β) : Prop where
  /-- The caller gets the same answer. -/
  ending_eq : two.ending = one.ending
  /-- What is left agrees. -/
  agree : AgreeBut spare one.state two.state

namespace Indistinct

variable {before before' : Boundary S} {one two : Action γ (Boundary S) β}

/-- Indistinct runs end alike, from whatever states and with whatever hook calls. -/
theorem exists_runs {run run' : Run γ (Boundary S) β} (h : Indistinct spare run run') :
    ∃ calls calls' s s' ending, run = ⟨calls, s, ending⟩ ∧ run' = ⟨calls', s', ending⟩ ∧
      AgreeBut spare s s' :=
  ⟨run.calls, run'.calls, run.state, run'.state, run.ending, rfl, by rw [← h.ending_eq], h.agree⟩

/-- What follows indistinct runs is indistinct, if it is so wherever there is agreement. -/
theorem bind {next next' : β → Action γ (Boundary S) β'}
    (h : Indistinct spare (one.run mem none before) (two.run mem none before'))
    (hnext : ∀ b s s', AgreeBut spare s s' →
      Indistinct spare ((next b).run mem none s) ((next' b).run mem none s')) :
    Indistinct spare ((one >>= next).run mem none before)
      ((two >>= next').run mem none before') := by
  obtain ⟨calls, calls', s, s', ending, hone, htwo, hagree⟩ := h.exists_runs
  cases ending with
  | returned b =>
    rw [run_bind_returned hone, run_bind_returned htwo]
    exact ⟨(hnext b s s' hagree).ending_eq, (hnext b s s' hagree).agree⟩
  | failed e =>
    rw [run_bind_failed hone, run_bind_failed htwo]
    exact ⟨rfl, hagree⟩
  | unwound call =>
    rw [run_bind_unwound hone, run_bind_unwound htwo]
    exact ⟨rfl, hagree⟩

/-- So is what handles their failures. -/
theorem tryCatch {handler : ListError → Action γ (Boundary S) β}
    (h : Indistinct spare (one.run mem none before) (two.run mem none before'))
    (hhandler : ∀ e s s', AgreeBut spare s s' →
      Indistinct spare ((handler e).run mem none s) ((handler e).run mem none s')) :
    Indistinct spare ((MonadExcept.tryCatch one handler).run mem none before)
      ((MonadExcept.tryCatch two handler).run mem none before') := by
  obtain ⟨calls, calls', s, s', ending, hone, htwo, hagree⟩ := h.exists_runs
  cases ending with
  | returned b =>
    rw [run_tryCatch_returned handler hone, run_tryCatch_returned handler htwo]
    exact ⟨rfl, hagree⟩
  | failed e =>
    rw [run_tryCatch_failed handler hone, run_tryCatch_failed handler htwo]
    exact ⟨(hhandler e s s' hagree).ending_eq, (hhandler e s s' hagree).agree⟩
  | unwound call =>
    rw [run_tryCatch_unwound handler hone, run_tryCatch_unwound handler htwo]
    exact ⟨rfl, hagree⟩

theorem pure (h : AgreeBut spare before before') (b : β) :
    Indistinct spare ((Pure.pure b : Action γ (Boundary S) β).run mem none before)
      ((Pure.pure b : Action γ (Boundary S) β).run mem none before') := ⟨rfl, h⟩

theorem map (f : β → β')
    (h : Indistinct spare (one.run mem none before) (two.run mem none before')) :
    Indistinct spare ((f <$> one).run mem none before) ((f <$> two).run mem none before') := by
  rw [map_eq_pure_bind, map_eq_pure_bind]
  exact h.bind fun b _ _ hagree ↦ .pure hagree (f b)

theorem record (h : AgreeBut spare before before') (e : ListError) :
    Indistinct spare ((Boundary.record e : Action γ (Boundary S) Nat).run mem none before)
      ((Boundary.record e : Action γ (Boundary S) Nat).run mem none before') :=
  ⟨rfl, h.record e⟩

/-- Status codes tell nothing more than the bodies do. -/
theorem status {one two : Action γ (Boundary S) Unit}
    (h : Indistinct spare (one.run mem none before) (two.run mem none before')) :
    Indistinct spare ((Boundary.status one).run mem none before)
      ((Boundary.status two).run mem none before') := by
  rw [status_eq, status_eq]
  exact (h.map fun _ ↦ 0).tryCatch fun e _ _ hagree ↦ (record hagree e).map id

/-- Neither do handles. -/
theorem deliver (contents : S → List γ) (target : String) {one two : Action γ (Boundary S) S}
    (h : Indistinct spare (one.run mem none before) (two.run mem none before')) :
    Indistinct spare ((Boundary.deliver contents target one).run mem none before)
      ((Boundary.deliver contents target two).run mem none before') := by
  refine ((h.map some).tryCatch fun e _ _ hagree ↦
    (record hagree e).bind fun _ _ _ hagree ↦ .pure hagree none).bind fun kept s s' hagree ↦ ?_
  have hkeep : Indistinct spare
      ((onHandles (Registry.store (held contents) target kept)).run mem none s)
      ((onHandles (Registry.store (held contents) target kept)).run mem none s') := by
    rw [run_keepHandle, run_keepHandle]
    exact ⟨rfl, hagree.insert target kept⟩
  exact hkeep.bind fun _ _ _ hagree ↦ .pure hagree kept.isNone

end Indistinct

section
variable {before before' : Boundary S} {list : S}

/-- The list that an indistinct call answers with is the same, even behind the spare handle. -/
theorem find?_deliver (contents : S → List γ) (target : String) {one two : Action γ (Boundary S) S}
    (h : Indistinct spare (one.run mem none before) (two.run mem none before'))
    (hreturns : ∀ call, (one.run mem none before).ending ≠ .unwound call) :
    ((deliver contents target two).run mem none before').state.find? (.named target) =
      ((deliver contents target one).run mem none before).state.find? (.named target) := by
  obtain ⟨calls, calls', s, s', ending, hone, htwo, -⟩ := h.exists_runs
  rw [hone] at hreturns
  cases ending with
  | returned made =>
    obtain ⟨_, hone⟩ := run_deliver contents target (run_guarded_returned some _ hone)
    obtain ⟨_, htwo⟩ := run_deliver contents target (run_guarded_returned some _ htwo)
    rw [hone, htwo, find?_insert_self, find?_insert_self]
  | failed e =>
    obtain ⟨_, hone⟩ :=
      run_deliver contents target (run_guarded_failed some (fun _ ↦ none) hone)
    obtain ⟨_, htwo⟩ :=
      run_deliver contents target (run_guarded_failed some (fun _ ↦ none) htwo)
    rw [hone, htwo, find?_insert_self, find?_insert_self]
  | unwound call => exact absurd rfl (hreturns call)

/-- Work on a list that is behind the handle on either side. -/
theorem indistinct_onList {one two : Action γ S β} (h : AgreeBut spare before before')
    (hlive : before.find? handle = some list) (hlive' : before'.find? handle = some list)
    (hrun : two.run mem none list = one.run mem none list) :
    Indistinct spare ((onList handle one).run mem none before)
      ((onList handle two).run mem none before') := by
  rcases hone : one.run mem none list with ⟨calls, changed, ending⟩
  rw [run_onList hlive hone, run_onList hlive' (hrun.trans hone)]
  exact ⟨rfl, h.replace changed handle⟩

end

/-- Whether a run answers with the status code of a failure of allocation. -/
def outOfRoom (run : Run γ (Boundary S) (Reply β)) : Bool :=
  match run.ending with
  | .returned (.status code) => (Category.ofCode? code).any Category.isAllocation
  | _ => false

section
variable {before after : Boundary S} {body : Action γ (Boundary S) Unit}
variable {calls : List (HookCall γ)}

theorem outOfRoom_of_returned (h : body.run mem none before = ⟨calls, after, .returned ()⟩) :
    outOfRoom ((Reply.status <$> status body : Action γ (Boundary S) (Reply β)).run mem none
      before) = false := by
  rw [run_status_returned h]
  rfl

/-- A failure is told as one of allocation if it is one. -/
theorem outOfRoom_of_failed {e : ListError}
    (h : body.run mem none before = ⟨calls, after, .failed e⟩) :
    outOfRoom ((Reply.status <$> status body : Action γ (Boundary S) (Reply β)).run mem none
      before) = e.category.isAllocation := by
  rw [run_status_failed h, outOfRoom]
  cases e.category <;> rfl

end

end Boundary

/-! ## Twins -/

namespace ScalarCall

open ListRuntime.Action Boundary Contract UniformList

variable {α : Type} {before before' : Boundary (UniformList α)} {handle spare : Handle}
variable {list : UniformList α}

/-- The second boundary is the first one, but behind a spare handle it has an independent copy of the
list behind another. -/
structure Twin (before before' : Boundary (UniformList α)) (handle spare : Handle)
    (list : UniformList α) : Prop extends AgreeBut spare before before' where
  /-- The copy has a handle of its own. -/
  ne : handle ≠ spare
  /-- The list is live. -/
  live : before.find? handle = some list
  /-- The copy has the same elements, in a buffer of whatever capacity. -/
  copied : ∃ twin, before'.find? spare = some twin ∧ twin.toList = list.toList

theorem Twin.live' (h : Twin before before' handle spare list) :
    before'.find? handle = some list :=
  (h.find?_eq handle h.ne).trans h.live

variable [Element α] {mem : Allocator}

/-- The `copy` call leads to a twin, unless it answers null. -/
theorem twin_of_copy {name : String} (hlive : before.find? handle = some list)
    (hne : handle ≠ .named name) {calls : List (HookCall α)}
    (hcopy : (copy name handle).action.run mem none before =
      ⟨calls, before', .returned (.handle false)⟩) :
    Twin before before' handle (.named name) list := by
  have hbody : (borrow handle >>= fun list ↦ list.copy).run mem none before =
      list.copy.run mem none before := run_borrow_bind hlive _
  rcases run_copy mem list before with ⟨calls', made, hrun, hsame⟩ | ⟨e, hrun, -⟩
  · obtain ⟨released, hdeliver⟩ := run_deliver (·.toList) name
      (run_guarded_returned some (fun e ↦ (fun _ ↦ none) <$> record e) (hbody.trans hrun))
    rw [action, making, run_map_returned _ hdeliver] at hcopy
    cases hcopy
    refine ⟨⟨rfl, fun other hother ↦ find?_insert_of_ne _ hother⟩, hne, hlive, made, ?_, hsame⟩
    exact find?_insert_self _ _ name (some made)
  · obtain ⟨released, hdeliver⟩ := run_deliver (·.toList) name
      (run_guarded_failed some (fun _ ↦ none) (hbody.trans hrun))
    rw [action, making, run_map_returned _ hdeliver] at hcopy
    cases hcopy

/-! ## Two operands -/

/-- A list is extended by itself as by its twin. -/
theorem extendFromList_self (h : Twin before before' handle spare list) :
    Indistinct spare ((extendFromList handle handle).action.run mem none before)
      ((extendFromList handle spare).action.run mem none before') := by
  obtain ⟨twin, htwin, hsame⟩ := h.copied
  have hrun : (UniformList.extendFromList twin.toList).run mem none list =
      extendSelf.run mem none list := by
    rw [hsame, extendFromList_follows list list.toList none, extendSelf_follows list none]
  have hbodies : Indistinct spare ((onList handle extendSelf).run mem none before)
      ((borrow spare >>= fun source ↦
        onList handle (UniformList.extendFromList source.toList)).run mem none before') := by
    rw [run_borrow_bind htwin]
    exact indistinct_onList h.toAgreeBut h.live h.live' hrun
  rw [action, action, if_pos rfl, if_neg h.ne]
  exact hbodies.status.map Reply.status

/-- The body of a call that assigns a list to a slice of itself: what it assigns is a copy. -/
def assigningSelf (handle : Handle) (s : Slice) : Action α (Boundary (UniformList α)) Unit :=
  borrow handle >>= fun list ↦ list.copy >>= fun source ↦
    onList handle (UniformList.setSlice s source.toList)

theorem action_setSlice_self (handle : Handle) (s : Slice) :
    (setSlice handle s handle : ScalarCall α).action = changing (assigningSelf handle s) := by
  rw [action, if_pos rfl]
  rfl

/-- The elements of the list are assigned, or the copy cannot be had. -/
theorem run_assigningSelf (mem : Allocator) (hlive : before.find? handle = some list) (s : Slice) :
    (∃ calls, (assigningSelf handle s).run mem none before =
      ((onList handle (UniformList.setSlice s list.toList)).run mem none before).following calls) ∨
    ∃ e, (assigningSelf handle s).run mem none before = ⟨[], before, .failed e⟩ ∧
      (newRoom mem list.growth list.length : Except ListError (UniformList α)) = .error e := by
  rw [assigningSelf, run_borrow_bind hlive]
  rcases run_copy mem list before with ⟨calls, made, hcopy, hmade⟩ | ⟨e, hcopy, hroom⟩
  · rw [run_bind_returned hcopy, hmade]
    exact Or.inl ⟨calls, rfl⟩
  · exact Or.inr ⟨e, run_bind_failed hcopy, hroom⟩

/-- A list that can be copied is assigned to a slice of itself as its twin is. -/
theorem setSlice_self (h : Twin before before' handle spare list) (s : Slice)
    (hroom : outOfRoom ((setSlice handle s handle).action.run mem none before) = false) :
    Indistinct spare ((setSlice handle s handle).action.run mem none before)
      ((setSlice handle s spare).action.run mem none before') := by
  obtain ⟨twin, htwin, hsame⟩ := h.copied
  rw [action_setSlice_self] at hroom ⊢
  rcases run_assigningSelf mem h.live s with ⟨calls, hself⟩ | ⟨e, hself, hnone⟩
  · have hwork : Indistinct spare
        ((onList handle (UniformList.setSlice s list.toList)).run mem none before)
        ((onList handle (UniformList.setSlice s list.toList)).run mem none before') :=
      indistinct_onList h.toAgreeBut h.live h.live' rfl
    have hbodies : Indistinct spare ((assigningSelf handle s).run mem none before)
        ((borrow spare >>= fun source ↦
          onList handle (UniformList.setSlice s source.toList)).run mem none before') := by
      rw [hself, run_borrow_bind htwin, hsame]
      exact ⟨hwork.ending_eq, hwork.agree⟩
    rw [action, if_neg h.ne]
    exact hbodies.status.map Reply.status
  · rw [changing, outOfRoom_of_failed hself, isAllocation_of_newRoom hnone] at hroom
    cases hroom

/-- Where there is memory for the list and for what is to be left of it, there is room for both. -/
theorem outOfRoom_setSlice_self (hlive : before.find? handle = some list) (hfits : list.Fits)
    (s : Slice) (hmem : mem.Affords α
      (needed list.toList 0 ((Edit.setSlice s list.toList).apply list.toList))) :
    outOfRoom ((setSlice handle s handle).action.run mem none before) = false := by
  rw [action_setSlice_self]
  rcases run_assigningSelf mem hlive s with ⟨calls, hself⟩ | ⟨e, -, hnone⟩
  · have hrun : (UniformList.setSlice s list.toList).run mem none list =
        (setSliceCourse mem s list.toList list).run none := setSlice_follows list s list.toList none
    have hfailure {e : ListError}
        (he : (setSliceCourse mem s list.toList list).result = .error e) :
        e.category.isAllocation = false :=
      (refines_setSlice hfits s list.toList).isAllocation_eq_false hmem
        (congrArg (Except.map fun _ ↦ Answer.done) he)
    rcases hcourse : setSliceCourse mem s list.toList list with ⟨stages, after, e | _⟩
    · rw [hcourse] at hrun hfailure
      rw [run_onList hlive hrun] at hself
      exact (outOfRoom_of_failed hself).trans (hfailure rfl)
    · rw [hcourse] at hrun
      rw [run_onList hlive hrun] at hself
      exact outOfRoom_of_returned hself
  · -- the copy needs no more memory than the list
    obtain ⟨start, hstart⟩ := newRoom_of_affords list.growth
      (hmem.mono (list.length_toList ▸ length_le_needed list.toList 0 _))
    cases hstart.symm.trans hnone

/-- Making a list of a list is the same wherever it is done. -/
theorem indistinct_derive (h : AgreeBut spare before before') (list : UniformList α)
    (derivation : Derivation (List α)) :
    Indistinct spare ((derivation.action list).run mem none before)
      ((derivation.action list).run mem none before') := by
  rw [derivation.action_follows list before none, derivation.action_follows list before' none]
  cases hroom : derivation.room list with
  | error e =>
    rw [derivation.course_of_error list hroom, derivation.course_of_error list hroom]
    exact ⟨rfl, h⟩
  | ok room =>
    obtain ⟨stages, -, hcourse⟩ : MakesAtOnce list.growth room (derivation.items list) before
      fun mem ↦ derivation.course mem list before := derivation.makesAtOnce list hroom
    obtain ⟨stages', -, hcourse'⟩ : MakesAtOnce list.growth room (derivation.items list) before'
      fun mem ↦ derivation.course mem list before' := derivation.makesAtOnce list hroom
    have hone := hcourse mem
    have htwo := hcourse' mem
    dsimp only at hone htwo
    rw [hone, htwo]
    split
    · exact ⟨rfl, h⟩
    · exact ⟨rfl, h⟩

/-- The body of a call that makes a list of two. -/
def joining (handle other : Handle) : Action α (Boundary (UniformList α)) (UniformList α) :=
  borrow handle >>= fun left ↦ borrow other >>= fun right ↦ left.concat right.toList

theorem run_joining (mem : Allocator) {other : Handle} {source : UniformList α}
    (hlive : before.find? handle = some list) (hother : before.find? other = some source) :
    (joining handle other).run mem none before =
      (list.concat source.toList).run mem none before := by
  rw [joining, run_borrow_bind hlive, run_borrow_bind hother]

theorem action_concat (target : String) (handle other : Handle) :
    (concat target handle other : ScalarCall α).action = making target (joining handle other) := by
  rw [action]
  rfl

/-- A list is joined to itself as to its twin, and the new list is the same, even if its handle takes
the place of the spare one. -/
theorem concat_self (h : Twin before before' handle spare list) (target : String) :
    Indistinct spare ((concat target handle handle).action.run mem none before)
        ((concat target handle spare).action.run mem none before') ∧
      ((concat target handle spare).action.run mem none before').state.find? (.named target) =
        ((concat target handle handle).action.run mem none before).state.find? (.named target) := by
  obtain ⟨twin, htwin, hsame⟩ := h.copied
  have hone := run_joining mem h.live h.live
  have hbodies : Indistinct spare ((joining handle handle).run mem none before)
      ((joining handle spare).run mem none before') := by
    rw [hone, run_joining mem h.live' htwin, hsame]
    exact indistinct_derive h.toAgreeBut list (.concat list.toList)
  have hreturns (call : HookCall α) :
      ((joining handle handle).run mem none before).ending ≠ .unwound call := by
    rw [hone, concat_follows list before list.toList none]
    exact (list.concatCourse mem list.toList before).ending_ne_unwound call
  rw [action_concat, action_concat, making, making, state_run_map, state_run_map]
  exact ⟨(hbodies.deliver _ target).map Reply.handle,
    find?_deliver _ target hbodies hreturns⟩

/-! ## Arrays inside the list -/

/-- The call succeeds, and appends elements to the list behind the handle. -/
structure Extends (before : Boundary (UniformList α)) (handle : Handle) (list : UniformList α)
    (items : List α) (run : Run α (Boundary (UniformList α)) (Reply α)) : Prop where
  /-- The status code is that of success. -/
  ending_eq : run.ending = .returned (.status 0)
  /-- The error slot is as it was. -/
  lastError_eq : run.state.lastError = before.lastError
  /-- The elements are behind those that the list had. -/
  grown : ∃ grown, run.state.find? handle = some grown ∧ grown.toList = list.toList ++ items
  /-- All other lists are as they were. -/
  kept : ∀ other, other ≠ handle → run.state.find? other = before.find? other

/-- What an array has on entry is appended, or there is no room for it. -/
theorem run_extendFromArray (mem : Allocator) (hlive : before.find? handle = some list)
    (array : ArrayPointer α) (size : Int64) :
    let items := array.elements list.toList size
    let run := (extendFromArray handle array size).action.run mem none before
    Extends before handle list items run ∨
      outOfRoom run = true ∧ ∃ e, list.roomForMore mem items.length = .error e := by
  intro items run
  have hrun : (UniformList.extendFromArray array size).run mem none list =
      (extendCourse mem items list).run none := extendFromArray_follows list array size none
  rw [extendCourse, storeCourse] at hrun
  cases hmore : list.roomForMore mem items.length with
  | ok roomy =>
    rw [hmore] at hrun
    have hreturned : run = ⟨_, _, .returned (.status 0)⟩ :=
      run_status_returned (run_onList hlive hrun)
    rw [hreturned]
    refine Or.inl ⟨rfl, lastError_replace before _ handle, ⟨_, find?_replace hlive _, ?_⟩,
      fun other hother ↦ find?_replace_of_ne hother _⟩
    exact congrArg (· ++ items) (roomier_of_roomForMore hmore).toList_eq
  | error e =>
    rw [hmore] at hrun
    have hfailed : outOfRoom run = e.category.isAllocation :=
      outOfRoom_of_failed (run_onList hlive hrun)
    exact Or.inr ⟨hfailed.trans (isAllocation_of_roomForMore hmore), e, rfl⟩

/-- Where there is memory for the longer list, there is room for it. -/
theorem outOfRoom_extendFromArray (hlive : before.find? handle = some list) (hfits : list.Fits)
    (array : ArrayPointer α) (size : Int64)
    (hmem : mem.Affords α (list.length + (array.elements list.toList size).length)) :
    outOfRoom ((extendFromArray handle array size).action.run mem none before) = false := by
  rcases run_extendFromArray mem hlive array size with hextends | ⟨-, e, hnone⟩
  · rw [outOfRoom, hextends.ending_eq]
    rfl
  · obtain ⟨roomy, hroomy⟩ := hfits.roomForMore_of_affords hmem
    cases hroomy.symm.trans hnone

/-! ## All of them -/

/-- Short of a failure of allocation, a call does what it should; and where there is memory, there is
no such failure. -/
structure UnlessOutOfRoom (run : Run α (Boundary (UniformList α)) (Reply α))
    (memory should : Prop) : Prop where
  /-- Any other answer is the right one. -/
  holds : outOfRoom run = false → should
  /-- There is another answer. -/
  room : memory → outOfRoom run = false

/-- **Calls are safe to be given one list twice.**  Short of a failure of allocation, the answer, the
error slot and all lists are as if an independent copy had been given in place of the list itself;
and an array inside a list is appended as it was on entry, wherever the list moves meanwhile. -/
theorem aliasing_safe (mem : Allocator) (h : Twin before before' handle spare list) :
    (∀ s : Slice,
      let run := (setSlice handle s handle).action.run mem none before
      let expected := (Edit.setSlice s list.toList).apply list.toList
      UnlessOutOfRoom run (list.Fits ∧ mem.Affords α (needed list.toList 0 expected))
        (Indistinct spare run ((setSlice handle s spare).action.run mem none before'))) ∧
    Indistinct spare ((extendFromList handle handle).action.run mem none before)
      ((extendFromList handle spare).action.run mem none before') ∧
    (∀ target : String,
      let run := (concat target handle handle).action.run mem none before
      let run' := (concat target handle spare).action.run mem none before'
      Indistinct spare run run' ∧
        run'.state.find? (.named target) = run.state.find? (.named target)) ∧
    ∀ (position : Nat) (size : Int64), position + size.toInt ≤ list.length →
      let piece := (list.toList.drop position).take size.toNatClampNeg
      let run := (extendFromArray handle (.inside position) size).action.run mem none before
      piece.length = size.toNatClampNeg ∧
        UnlessOutOfRoom run (list.Fits ∧ mem.Affords α (list.length + piece.length))
          (Extends before handle list piece run) := by
  refine ⟨fun s ↦ ⟨setSlice_self h s, fun hmem ↦ outOfRoom_setSlice_self h.live hmem.1 s hmem.2⟩,
    extendFromList_self h, concat_self h, fun position size hinside ↦ ⟨?_, fun hroom ↦ ?_,
      fun hmem ↦ outOfRoom_extendFromArray h.live hmem.1 (.inside position) size hmem.2⟩⟩
  · have hsize : (size.toNatClampNeg : Int) = max size.toInt 0 := Int.toNat_eq_max size.toInt
    rw [List.length_take, List.length_drop, length_toList]
    omega
  · rcases run_extendFromArray mem h.live (.inside position) size with hextends | ⟨hnone, -⟩
    · exact hextends
    · cases hnone.symm.trans hroom

/-- A list that fills its buffer is assigned to its own middle, and appended a piece of itself. -/
theorem aliasing_safe_of_three :
    let list : UniformList Int64 := ⟨⟨#[1, 2, 3], 3⟩, .standard⟩
    let twin : UniformList Int64 := ⟨⟨#[1, 2, 3], 8⟩, .standard⟩
    let before : Boundary (UniformList Int64) := ⟨⟨[("list", some list)]⟩, none⟩
    let before' : Boundary (UniformList Int64) := ⟨before.handles.insert "twin" (some twin), none⟩
    let middle : Slice := { start := some 1, stop := some 2 }
    Indistinct (.named "twin")
        ((setSlice (.named "list") middle (.named "list")).action.run .boundless none before)
        ((setSlice (.named "list") middle (.named "twin")).action.run .boundless none before') ∧
      Extends before (.named "list") list [2, 3]
        ((extendFromArray (.named "list") (.inside 1) 2).action.run .boundless none before) := by
  intro list twin before before' middle
  have htwin : Twin before before' (.named "list") (.named "twin") list :=
    ⟨⟨rfl, fun _ hother ↦ find?_insert_of_ne (some twin) hother⟩, by decide, rfl, twin,
      find?_insert_self before.handles none "twin" (some twin), rfl⟩
  have hfits : list.Fits := ⟨by decide, by decide +kernel⟩
  have hassigned : Allocator.boundless.Affords Int64
      (needed list.toList 0 ((Edit.setSlice middle list.toList).apply list.toList)) :=
    ⟨fun _ ↦ rfl, by decide +kernel⟩
  have happended : Allocator.boundless.Affords Int64
      (list.length + ((list.toList.drop 1).take (2 : Int64).toNatClampNeg).length) :=
    ⟨fun _ ↦ rfl, by decide +kernel⟩
  have hpiece : (list.toList.drop 1).take (2 : Int64).toNatClampNeg = [2, 3] := by decide +kernel
  obtain ⟨hset, -, -, hextend⟩ := aliasing_safe .boundless htwin
  have hsame := (hset middle).holds ((hset middle).room ⟨hfits, hassigned⟩)
  obtain ⟨-, hunless⟩ := hextend 1 2 (by decide)
  have hextends := hunless.holds (hunless.room ⟨hfits, happended⟩)
  rw [hpiece] at hextends
  exact ⟨hsame, hextends⟩

end ScalarCall
end ListRuntime
