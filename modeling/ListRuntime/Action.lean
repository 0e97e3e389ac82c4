import ListRuntime.Error
import ListRuntime.Hook
import ListRuntime.Storage.Buffer

/-!
# Actions and their runs

An `Action` works on a state, calls hooks on the way, and ends with a result or a failure.  A hook
may also fail to return: the call then unwinds out of the whole action, and what is left is the
state in which the call was made.  Which call does so is not for the action to know, so it is given
to the run from outside, as a `Mishap`; every way in which an action can be cut short is thus one
of its runs.

* `Action` is a monad; `acquire` and `release` are its hook calls, `throw` its failures.
* `Action.forEach` and `Action.times` are its loops.
* `Action.construct` fills a list under construction, which survives neither a failure nor an
  unwinding.
-/

set_option autoImplicit false

namespace ListRuntime

/-! ## Runs -/

/-- How a run ended. -/
inductive Ending (α β : Type) where
  /-- With a result. -/
  | returned (result : β)
  /-- With a failure. -/
  | failed (error : ListError)
  /-- Because this hook call unwound. -/
  | unwound (call : HookCall α)

/-- The ending with the element of a hook call mapped. -/
def Ending.map {α β γ : Type} (f : α → γ) : Ending α β → Ending γ β
  | returned result => .returned result
  | failed e => .failed e
  | unwound call => .unwound (call.map f)

/-- What an action did on a state. -/
structure Run (α σ β : Type) where
  /-- The hook calls that were made, in order. -/
  calls : List (HookCall α)
  /-- The state that is left. -/
  state : σ
  /-- How it ended. -/
  ending : Ending α β

/-- The run, with hook calls that were made before it. -/
def Run.following {α σ β : Type} (run : Run α σ β) (calls : List (HookCall α)) : Run α σ β :=
  ⟨calls ++ run.calls, run.state, run.ending⟩

/-- Which hook call does not return: so many of them return, and the one after these unwinds.  Or
all of them return. -/
abbrev Mishap := Option Nat

/-- The mishap, for what comes after so many calls that have returned. -/
def Mishap.after (mishap : Mishap) (returned : Nat) : Mishap := mishap.map (· - returned)

/-- An action on states of type `σ` that calls hooks on elements of type `α`. -/
structure Action (α σ β : Type) where
  /-- What the action does, given an allocator, a mishap and a state. -/
  run : Allocator → Mishap → σ → Run α σ β

namespace Action

variable {α γ σ τ ι β : Type}

instance : Monad (Action α σ) where
  pure b := ⟨fun _ _ s ↦ ⟨[], s, .returned b⟩⟩
  bind first next := ⟨fun mem mishap s ↦
    match first.run mem mishap s with
    | ⟨calls, s', .returned b⟩ =>
      ((next b).run mem (mishap.after calls.length) s').following calls
    | ⟨calls, s', .failed e⟩ => ⟨calls, s', .failed e⟩
    | ⟨calls, s', .unwound call⟩ => ⟨calls, s', .unwound call⟩⟩

instance : MonadStateOf σ (Action α σ) where
  get := ⟨fun _ _ s ↦ ⟨[], s, .returned s⟩⟩
  set s := ⟨fun _ _ _ ↦ ⟨[], s, .returned ()⟩⟩
  modifyGet f := ⟨fun _ _ s ↦
    match f s with
    | (b, s') => ⟨[], s', .returned b⟩⟩

/-- A failure keeps the state and the hook calls that led to it; a handler goes on from there.  An
unwinding is not handled. -/
instance : MonadExceptOf ListError (Action α σ) where
  throw e := ⟨fun _ _ s ↦ ⟨[], s, .failed e⟩⟩
  tryCatch body handler := ⟨fun mem mishap s ↦
    match body.run mem mishap s with
    | ⟨calls, s', .failed e⟩ =>
      ((handler e).run mem (mishap.after calls.length) s').following calls
    | run => run⟩

/-- A computation that may fail, as an action. -/
def ofExcept : Except ListError β → Action α σ β
  | .ok b => pure b
  | .error e => throw e

instance : MonadLift (Except ListError) (Action α σ) where
  monadLift := ofExcept

/-- The allocator at hand. -/
def allocator : Action α σ Allocator := ⟨fun mem _ s ↦ ⟨[], s, .returned mem⟩⟩

/-! ## Hook calls -/

/-- Call a hook on elements in order.  A call that unwinds is the last one. -/
def callAll (hook : Hook) (items : List α) : Action α σ Unit :=
  ⟨fun _ mishap s ↦
    let calls := items.map (⟨hook, ·⟩)
    match mishap with
    | none => ⟨calls, s, .returned ()⟩
    | some k =>
      match calls[k]? with
      | none => ⟨calls, s, .returned ()⟩
      | some call => ⟨calls.take (k + 1), s, .unwound call⟩⟩

/-- Acquire elements in order. -/
def acquireAll (items : List α) : Action α σ Unit := callAll .acquire items

/-- Release elements in order. -/
def releaseAll (items : List α) : Action α σ Unit := callAll .release items

/-- Acquire an element. -/
def acquire (a : α) : Action α σ Unit := acquireAll [a]

/-- Release an element. -/
def release (a : α) : Action α σ Unit := releaseAll [a]

/-! ## Loops -/

/-- The run of `forEach`, once the hook calls of `past` have been made, which are listed last call
first. -/
def forEach.loop (mem : Allocator) (body : ι → Action α σ Unit) :
    List ι → Mishap → List (HookCall α) → σ → Run α σ Unit
  | [], _, past, s => ⟨past.reverse, s, .returned ()⟩
  | i :: items, mishap, past, s =>
    match (body i).run mem mishap s with
    | ⟨calls, s', .returned ()⟩ =>
      loop mem body items (mishap.after calls.length) (calls.reverse ++ past) s'
    | ⟨calls, s', ending⟩ => ⟨past.reverse ++ calls, s', ending⟩

/-- Do `body` for each item, one after the other. -/
def forEach (items : List ι) (body : ι → Action α σ Unit) : Action α σ Unit :=
  ⟨fun mem mishap s ↦ forEach.loop mem body items mishap [] s⟩

/-- Do `body` so many times. -/
def times (n : Nat) (body : Action α σ Unit) : Action α σ Unit :=
  ⟨fun mem mishap s ↦ (forEach (List.replicate n ()) fun () ↦ body).run mem mishap s⟩

/-! ## Actions elsewhere -/

/-- Run an action on a part of the state, which `read` takes out and `write` puts back, with its
elements mapped by `f`. -/
def within (f : α → γ) (read : σ → τ) (write : σ → τ → σ) (action : Action α τ β) :
    Action γ σ β :=
  ⟨fun mem mishap s ↦
    match action.run mem mishap (read s) with
    | ⟨calls, t, ending⟩ => ⟨calls.map (·.map f), write s t, ending.map f⟩⟩

/-- Build something in a place of its own, from `start` by `fill`.  If `fill` fails, what it built
is given up: the `contents` so far are released, and the failure is passed on.  If a hook call
unwinds out of `fill`, the unwinding releases the contents as it passes. -/
def construct (contents : τ → List α) (start : τ) (fill : Action α τ Unit) : Action α σ τ :=
  ⟨fun mem mishap s ↦
    match fill.run mem mishap start with
    | ⟨calls, built, .returned ()⟩ => ⟨calls, s, .returned built⟩
    | ⟨calls, built, .failed e⟩ =>
      let giveUp : Action α σ τ := do
        releaseAll (contents built)
        throw e
      (giveUp.run mem (mishap.after calls.length) s).following calls
    | ⟨calls, built, .unwound call⟩ =>
      ⟨calls ++ (contents built).map (⟨.release, ·⟩), s, .unwound call⟩⟩

end Action
end ListRuntime
