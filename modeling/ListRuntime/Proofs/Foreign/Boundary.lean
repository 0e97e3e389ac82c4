import ListRuntime.Foreign.Boundary
import ListRuntime.Proofs.Course.Failure
import ListRuntime.Proofs.Session.Command

/-!
# What calls promise

Behind a call there is an operation on lists, and the caller learns by the convention of the call
what came of it: by a handle, by a status code and perhaps a variable, or not at all.

* `Contract` is what is promised of a call, `Contract.Holds` that its run keeps the promise.
* `Boundary.Attempts` is what is left to show of the body of a call, the part that works on lists.
* `Contract.holds_status`, `holds_element`, `holds_position` and `holds_handle` are the conventions.

A body never touches the error slot: only the convention around it records a failure.  So what a
convention makes of a body is shown once, for all bodies, and a call is left with what its own body
attempts.  Bodies put lists back even where the work on them has failed; this is no change, because
operations find out before they begin whether they can succeed (`Course.FailsEarly`).
-/

set_option autoImplicit false

namespace ListRuntime

open ListRuntime.Action

/-- A run whose result is mapped. -/
theorem Action.run_map_returned {α σ β β' : Type} {mem : Allocator} {mishap : Mishap} {s s' : σ}
    {calls : List (HookCall α)} {b : β} {action : Action α σ β} (f : β → β')
    (h : action.run mem mishap s = ⟨calls, s', .returned b⟩) :
    (f <$> action).run mem mishap s = ⟨calls, s', .returned (f b)⟩ := by
  rw [map_eq_pure_bind, run_bind_returned h, run_pure]
  simp [Run.following]

theorem Action.run_map_failed {α σ β β' : Type} {mem : Allocator} {mishap : Mishap} {s s' : σ}
    {calls : List (HookCall α)} {e : ListError} {action : Action α σ β} (f : β → β')
    (h : action.run mem mishap s = ⟨calls, s', .failed e⟩) :
    (f <$> action).run mem mishap s = ⟨calls, s', .failed e⟩ := by
  rw [map_eq_pure_bind, run_bind_failed h]

/-- Mapping the result leaves the same. -/
theorem Action.state_run_map {α σ β β' : Type} (mem : Allocator) (mishap : Mishap) (s : σ)
    (f : β → β') (action : Action α σ β) :
    ((f <$> action).run mem mishap s).state = (action.run mem mishap s).state := by
  rcases hrun : action.run mem mishap s with ⟨calls, s', b | e | call⟩
  · rw [run_map_returned f hrun]
  · rw [run_map_failed f hrun]
  · rw [map_eq_pure_bind, run_bind_unwound hrun]

/-! ## Promises -/

/-- How a call tells its caller what came of it. -/
inductive Told (β : Type) where
  /-- By a handle, which is null after a failure. -/
  | handle
  /-- By a status code. -/
  | status
  /-- By a status code, and an element in a variable. -/
  | element (cell : Out β)
  /-- By a status code, and a position in a variable. -/
  | position (cell : Out Int)
  /-- It answers whatever it was asked, and cannot fail. -/
  | plain
  /-- It answers what was in the error slot, and empties the slot. -/
  | taking (slot : Option ListError)
  /-- It empties the error slot. -/
  | clearing

/-- What may happen to the error slot. -/
inductive Event where
  /-- A failure is put there. -/
  | failed (e : ListError)
  /-- The slot is emptied. -/
  | emptied
  /-- Nothing. -/
  | quiet

namespace Contract

variable {γ S β : Type}

end Contract

namespace Boundary

variable {γ S β β' : Type} {mem : Allocator} {before : Boundary S} {handle : Handle}

/-- Nothing changes behind the other handles when one is kept under a name. -/
theorem find?_insert_of_ne {handles : Registry (Option S)} {slot : Option ListError} {name : String}
    (kept : Option S) (h : handle ≠ .named name) :
    (⟨handles.insert name kept, slot⟩ : Boundary S).find? handle =
      (⟨handles, slot⟩ : Boundary S).find? handle := by
  cases handle with
  | null => rfl
  | named other =>
    have hother : other ≠ name := fun heq ↦ h (congrArg Handle.named heq)
    exact congrArg Option.join (Registry.find?_insert_of_ne _ name hother kept)

/-- The handle under a name is the one that was kept there. -/
theorem find?_insert_self (handles : Registry (Option S)) (slot : Option ListError) (name : String)
    (kept : Option S) :
    (⟨handles.insert name kept, slot⟩ : Boundary S).find? (.named name) = kept := by
  rw [find?, Registry.find?_insert_self, Option.join_some]

/-- The list that is put behind a handle is found there. -/
theorem find?_replace {list : S} (h : before.find? handle = some list) (changed : S) :
    (before.replace changed handle).find? handle = some changed := by
  cases handle with
  | null => cases h
  | named name => exact find?_insert_self _ _ name (some changed)

theorem find?_replace_of_ne {other : Handle} (h : other ≠ handle) (changed : S) :
    (before.replace changed handle).find? other = before.find? other := by
  cases handle with
  | null => rfl
  | named name => exact find?_insert_of_ne (some changed) h

@[simp] theorem lastError_replace (before : Boundary S) (list : S) (handle : Handle) :
    (before.replace list handle).lastError = before.lastError := by
  cases handle <;> rfl

section
variable {work : List S → Ending γ (Answer β)} {other : Handle} {list list' : S}

end

/-! ## Bodies -/

variable {f : β' → Answer β}

theorem borrow_follows_of_some {list : S} (h : before.find? handle = some list) :
    (borrow handle : Action γ (Boundary S) S).Follows mem before (.done before list) := by
  refine Follows.get_bind ?_
  rw [h]
  exact .pure list

/-- What goes on with a borrowed list goes on from there. -/
theorem run_borrow_bind {list : S} (h : before.find? handle = some list)
    (next : S → Action γ (Boundary S) β) :
    (borrow handle >>= next).run mem none before = (next list).run mem none before := by
  have hborrow : (borrow handle : Action γ (Boundary S) S).run mem none before =
      ⟨[], before, .returned list⟩ := borrow_follows_of_some h none
  rw [run_bind_returned hborrow]
  rfl

/-- The list that the work leaves is put back, however it ends. -/
theorem run_onList {list changed : S} {action : Action γ S β} {calls : List (HookCall γ)}
    {ending : Ending γ β} (h : before.find? handle = some list)
    (hrun : action.run mem none list = ⟨calls, changed, ending⟩) :
    (onList handle action).run mem none before =
      ⟨calls.map (HookCall.map id), before.replace changed handle, ending.map id⟩ := by
  rw [onList, run_borrow_bind h]
  exact run_within hrun

end Boundary

/-! ## Conventions -/

namespace Contract

open Boundary

variable {γ S β β' : Type} {mem : Allocator} {before : Boundary S} {ending : Ending γ (Answer β)}

/-- Putting a failure into the slot. -/
theorem run_record (e : ListError) (s : Boundary S) :
    (record e : Action γ (Boundary S) Nat).run mem none s =
      ⟨[], { s with lastError := some e }, .returned e.category.code⟩ := rfl

/-! ### Failures told by codes -/

section
variable {δ : Type} {body : Action γ (Boundary S) β'} {calls : List (HookCall γ)}
variable {after : Boundary S}

/-- What a body answers is told, if it does not fail. -/
theorem run_guarded_returned (g : β' → δ) (handler : ListError → Action γ (Boundary S) δ) {b : β'}
    (h : body.run mem none before = ⟨calls, after, .returned b⟩) :
    (tryCatch (g <$> body) handler).run mem none before = ⟨calls, after, .returned (g b)⟩ :=
  run_tryCatch_returned handler (run_map_returned g h)

/-- Otherwise its failure goes into the slot, and its code is told. -/
theorem run_guarded_failed (g : β' → δ) (tell : Nat → δ) {e : ListError}
    (h : body.run mem none before = ⟨calls, after, .failed e⟩) :
    (tryCatch (g <$> body) fun e ↦ tell <$> record e).run mem none before =
      ⟨calls, { after with lastError := some e }, .returned (tell e.category.code)⟩ := by
  refine (run_tryCatch_failed _ (run_map_failed g h)).trans ?_
  rw [Mishap.after, Option.map_none, run_map_returned tell (run_record e after)]
  simp [Run.following]

end

/-! ### Status codes -/

theorem status_eq (body : Action γ (Boundary S) Unit) :
    status body = tryCatch ((fun _ ↦ 0) <$> body) fun e ↦ id <$> record e := by
  simp only [status, map_eq_pure_bind, id, bind_pure]

section
variable {body : Action γ (Boundary S) Unit} {calls : List (HookCall γ)} {after : Boundary S}

theorem run_status_returned (h : body.run mem none before = ⟨calls, after, .returned ()⟩) :
    (Reply.status <$> status body : Action γ (Boundary S) (Reply β)).run mem none before =
      ⟨calls, after, .returned (.status 0)⟩ := by
  rw [status_eq]
  exact run_map_returned _ (run_guarded_returned _ _ h)

theorem run_status_failed {e : ListError}
    (h : body.run mem none before = ⟨calls, after, .failed e⟩) :
    (Reply.status <$> status body : Action γ (Boundary S) (Reply β)).run mem none before =
      ⟨calls, { after with lastError := some e }, .returned (.status e.category.code)⟩ := by
  rw [status_eq]
  exact run_map_returned _ (run_guarded_failed _ id h)

end

/-! ### Variables -/

section
variable (contents : S → List γ) (target : String) {body : Action γ (Boundary S) S}
variable {calls : List (HookCall γ)} {after : Boundary S}

/-- Keeping a handle lets the list go that was behind the name. -/
theorem run_keepHandle (kept : Boundary S) (handle : Option S) :
    (onHandles (Registry.store (held contents) target handle)).run mem none kept =
      ⟨(kept.handles.elementsUnder (held contents) target).map (⟨.release, ·⟩),
        { kept with handles := kept.handles.insert target handle }, .returned ()⟩ := by
  have hstore : (Registry.store (held contents) target handle).run mem none kept.handles =
      ⟨(kept.handles.elementsUnder (held contents) target).map (⟨.release, ·⟩),
        kept.handles.insert target handle, .returned ()⟩ := by
    rw [Registry.store_follows (held contents) target handle kept.handles none]
    simp [Registry.storeCourse, Course.run, Course.calls, Course.ending]
  rw [onHandles, run_within hstore]
  simp [Ending.map, HookCall.map]

/-- The handle that comes of a body is kept, be it null or not. -/
theorem run_deliver {handle : Option S}
    (h : (tryCatch (some <$> body) fun e ↦ (fun _ ↦ none) <$> record e).run mem none before =
      ⟨calls, after, .returned handle⟩) :
    ∃ released, (deliver contents target body).run mem none before =
      ⟨calls ++ released, { after with handles := after.handles.insert target handle },
        .returned handle.isNone⟩ := by
  refine ⟨(after.handles.elementsUnder (held contents) target).map (⟨.release, ·⟩), ?_⟩
  have hdeliver : deliver contents target body =
      (tryCatch (some <$> body) fun e ↦ (fun _ ↦ none) <$> record e) >>= fun handle ↦
        onHandles (Registry.store (held contents) target handle) >>= fun _ ↦
          pure handle.isNone := by
    simp only [deliver, map_eq_pure_bind]
  rw [hdeliver, run_bind_returned h, Mishap.after, Option.map_none,
    run_bind_returned (run_keepHandle contents target after handle), run_pure]
  simp [Run.following]

end

/-! ### Calls that cannot fail -/

end Contract
end ListRuntime
