/-!
# Lifecycle hooks

A list acquires every element it takes in and releases every element it lets go, by calling the
host's hooks.  A `HookCall` is one such call, and a log is the list of calls made so far.

* `HookCall.balance` is what a log leaves outstanding for one element: acquires less releases.
* `HookCall.outstanding` lists the elements with something outstanding.
-/

set_option autoImplicit false

namespace ListRuntime

/-- The two lifecycle hooks. -/
inductive Hook where
  /-- Retain the element. -/
  | acquire
  /-- Give the element up. -/
  | release
deriving DecidableEq, Repr

/-- The name of a hook in messages. -/
def Hook.name : Hook → String
  | acquire => "acquire"
  | release => "release"

/-- One call of a hook on one element. -/
structure HookCall (α : Type) where
  hook : Hook
  element : α
deriving DecidableEq, Repr

namespace HookCall

variable {α β : Type}

/-- The call with its element mapped. -/
def map (f : α → β) (call : HookCall α) : HookCall β := ⟨call.hook, f call.element⟩

/-- What a log leaves outstanding for `a`: acquires less releases. -/
def balance [DecidableEq α] (log : List (HookCall α)) (a : α) : Int :=
  log.count ⟨.acquire, a⟩ - log.count ⟨.release, a⟩

/-- The elements of a log with a balance other than zero, and the balance of each. -/
def outstanding [DecidableEq α] (log : List (HookCall α)) : List (α × Int) :=
  ((log.map element).eraseDups.map fun a ↦ (a, balance log a)).filter fun entry ↦ entry.2 ≠ 0

end HookCall
end ListRuntime
