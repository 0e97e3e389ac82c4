import ListRuntime.Session.Answer
import ListRuntime.Session.Basic

/-!
# Commands

A command says what to do with the named lists of a session.  It is the same for all types of lists,
up to the `Vocabulary` of these lists: what can be said of the making of a list, and of work on one.

* `Resolved` is a part of a command after its values are promoted and its names are looked up.
* `Command.resolve` is what a command does.
* `Session.step` carries a command out.
-/

set_option autoImplicit false

namespace ListRuntime

/-- A command over origins `O`, derivations `D` and operations `P`.  One that works on a list or
gives a name up may leave the name out: there is then nothing to work on, and nothing to give up. -/
inductive Command (O D P : Type) where
  /-- Make a list and put it under a name. -/
  | create (target : String) (origin : O)
  /-- Make a list of the one under `source` and put it under a name. -/
  | derive (target source : String) (derivation : D)
  /-- Work on the list under a name. -/
  | operate (name : Option String) (operation : P)
  /-- Give a name up. -/
  | drop (name : Option String)

/-- What becomes of a part of a command: it may name a list that is not there, and then it means
nothing, and it may hold values that do not go into the list, which is a failure of the command.  Of
the two, the one that is met first counts. -/
abbrev Resolved (β : Type) := ExceptT ListError Option β

namespace Resolved

/-- What depends on values alone. -/
def ofExcept {β : Type} (result : Except ListError β) : Resolved β := ExceptT.mk (some result)

/-- What may not be there. -/
def ofOption {β : Type} (found : Option β) : Resolved β := ExceptT.mk (found.map .ok)

/-- The list under a name. -/
def named {S : Type} (registry : Registry S) (name : String) : Resolved S :=
  ofOption (registry.find? name)

end Resolved

/-- What the words of commands mean for lists of type `S` with elements shown as `γ`.  Names are
looked up in a registry. -/
structure Vocabulary (γ S O D P : Type) where
  /-- The elements of a list, in the order in which it lets them go. -/
  contents : S → List γ
  create : Registry S → O → Resolved (Action γ (Registry S) S)
  derive : Registry S → D → Resolved (S → Action γ (Registry S) S)
  operate : Registry S → P → Resolved (Action γ S (Answer γ))

namespace Command

variable {γ S O D P : Type}

/-- The name under which a command puts a new list. -/
def target? : Command O D P → Option String
  | create target _ | derive target _ _ => some target
  | operate .. | drop _ => none

/-- Make a list and put it under a name. -/
def keep (vocabulary : Vocabulary γ S O D P) (target : String)
    (making : Action γ (Registry S) S) : Action γ (Registry S) (Answer γ) := do
  Registry.store vocabulary.contents target (← making)
  return .done

/-- What a command does.  Its values are promoted before the list that it is about is looked up. -/
def resolve (vocabulary : Vocabulary γ S O D P) (registry : Registry S) :
    Command O D P → Resolved (Action γ (Registry S) (Answer γ))
  | create target origin => return keep vocabulary target (← vocabulary.create registry origin)
  | derive target source derivation => do
    let making ← vocabulary.derive registry derivation
    return keep vocabulary target (making (← Resolved.named registry source))
  | operate name operation => do
    let action ← vocabulary.operate registry operation
    let name ← Resolved.ofOption name
    return Registry.visit name (← Resolved.named registry name) action
  | drop name => return do
    name.forM (Registry.discard vocabulary.contents)
    return .done

end Command

namespace Session

variable {γ S O D P : Type} [DecidableEq γ]

/-- Carry a command out, if it means something. -/
def step (mem : Allocator) (vocabulary : Vocabulary γ S O D P) (session : Session γ (Registry S))
    (command : Command O D P) :
    Option (Session γ (Registry S) × Run γ (Registry S) (Answer γ)) := do
  let resolved ← (command.resolve vocabulary session.state).run
  return session.perform mem do
    let action ← Action.ofExcept resolved
    action

/-- Let all lists of a session go, by ascending name. -/
def finish (mem : Allocator) (vocabulary : Vocabulary γ S O D P)
    (session : Session γ (Registry S)) : Farewell γ :=
  session.dismiss mem (session.state.entries.map fun entry ↦ vocabulary.contents entry.2)

end Session
end ListRuntime
