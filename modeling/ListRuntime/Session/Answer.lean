import ListRuntime.Action
import ListRuntime.Element
import ListRuntime.Storage.Growth

/-!
# Answers

What an operation on a list answers to the one who asked, in the terms of the domain.

* `Answer` is the answer.
* `Action.silently`, `Action.ask` and `Action.inquire` are the three ways to come to one.
-/

set_option autoImplicit false

namespace ListRuntime

/-- The answer of an operation on a list whose elements are shown as `α`. -/
inductive Answer (α : Type) where
  /-- The operation is done, and there is nothing to say about it. -/
  | done
  /-- An element. -/
  | element (a : α)
  /-- A position, or a number of elements. -/
  | number (n : Nat)
  /-- Yes or no. -/
  | truth (b : Bool)
  /-- Elements in order. -/
  | elements (items : List α)
  /-- A text. -/
  | text (s : String)
  /-- What there is to know of a list without its elements. -/
  | summary (length : Nat) (kind : Kind) (growth : Growth)

namespace Action

variable {α γ σ β : Type}

/-- Do something there is nothing to say about. -/
def silently (action : Action γ σ Unit) : Action γ σ (Answer α) := do
  action
  return .done

/-- Ask the state something. -/
def ask (question : σ → Answer α) : Action γ σ (Answer α) :=
  return question (← get)

/-- Ask the state something it may have no answer to. -/
def inquire (answer : β → Answer α) (question : σ → Except ListError β) :
    Action γ σ (Answer α) := do
  return answer (← ofExcept (question (← get)))

end Action
end ListRuntime
