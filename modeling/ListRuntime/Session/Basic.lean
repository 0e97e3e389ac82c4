import ListRuntime.Session.Registry

/-!
# Sessions

A session performs one action after the other on a common state and keeps the log of all hook calls.
The host may arm a fuse: the next call of a given hook on a given element then unwinds out of the
action that makes it.

* `perform` carries an action out, to its end or to the call that blows the fuse.
* `dismiss` ends a session by letting lists go one after another.
-/

set_option autoImplicit false

namespace ListRuntime

/-- A session on a state of type `σ`, with hooks on elements of type `γ`. -/
structure Session (γ σ : Type) where
  /-- What the actions work on. -/
  state : σ
  /-- The hook call that is going to unwind when it is made next, if there is one. -/
  fuse : Option (HookCall γ) := none
  /-- The hook calls so far. -/
  log : List (HookCall γ) := []

namespace Session

variable {γ σ β : Type}

/-- Let the next such hook call unwind, and no other. -/
def arm (session : Session γ σ) (call : HookCall γ) : Session γ σ := { session with fuse := call }

variable [DecidableEq γ]

/-- The mishap that the fuse brings to an action.  Up to the mishap all calls return, so the call
that blows the fuse is the first such call of the run in which all calls return. -/
def mishap (mem : Allocator) (session : Session γ σ) (action : Action γ σ β) : Mishap :=
  session.fuse.bind fun fuse ↦ (action.run mem none session.state).calls.findIdx? (· = fuse)

/-- Carry an action out.  A fuse that blows is used up. -/
def perform (mem : Allocator) (session : Session γ σ) (action : Action γ σ β) :
    Session γ σ × Run γ σ β :=
  let mishap := session.mishap mem action
  let run := action.run mem mishap session.state
  let fuse := if mishap.isSome then none else session.fuse
  (⟨run.state, fuse, session.log ++ run.calls⟩, run)

/-- What was left of a session at its end. -/
structure Farewell (γ : Type) where
  /-- The hook calls of letting the last lists go. -/
  calls : List (HookCall γ)
  /-- The last of these calls that unwound, if one did. -/
  unwound : Option (HookCall γ)
  /-- The hook calls of the whole session. -/
  log : List (HookCall γ)

/-- Let lists go, given by their elements, each in an action of its own: when a call unwinds, the
rest of its list stays unreleased, but not the other lists. -/
def dismiss (mem : Allocator) (session : Session γ σ) (lists : List (List γ)) : Farewell γ :=
  let release (before : Session γ σ × Option (HookCall γ)) (items : List γ) :=
    let (after, run) := before.1.perform mem (Action.releaseAll items)
    (after, match run.ending with
      | .unwound call => some call
      | _ => before.2)
  let (after, unwound) := lists.foldl release (session, none)
  ⟨after.log.drop session.log.length, unwound, after.log⟩

end Session
end ListRuntime
