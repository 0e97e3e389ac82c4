import ListRuntime.Session.Basic

/-!
# The boundary to compiled code

Compiled code holds lists by handles, which may be null, and learns of failures by status codes.
The last failure stays in an error slot until it is taken or cleared.  Successful calls leave the
slot as it is.

* `Boundary` is what there is on this side: the lists behind the handles, and the error slot.
* `Handle` is what a call passes to say which list it is about.
* `borrow` and `onList` reach the list behind a handle, and fail for a null one.
* `status`, `out` and `deliver` turn the outcome of an action into what a call answers.
-/

set_option autoImplicit false

namespace ListRuntime

/-- The state behind the calls, with lists of type `S`. -/
structure Boundary (S : Type) where
  /-- The handles that compiled code holds, under names; `none` is the null handle. -/
  handles : Registry (Option S) := .empty
  /-- The failure in the error slot. -/
  lastError : Option ListError := none

/-- A handle that a call passes. -/
inductive Handle where
  /-- The null handle. -/
  | null
  /-- The handle that compiled code holds under a name.  It is null if there is none. -/
  | named (name : String)
deriving DecidableEq, Repr

/-- A variable of the caller's that a call writes its result to, if the call succeeds. -/
structure Out (β : Type) where
  /-- What the variable holds. -/
  value : β
  /-- Whether the caller passed a null pointer instead, which discards the result. -/
  isNull : Bool

/-- What the variable holds after a result is written to it. -/
def Out.write {β : Type} (out : Out β) (result : β) : β := if out.isNull then out.value else result

/-- What a call answers.  Elements are shown as `α`. -/
inductive Reply (α : Type) where
  /-- A handle, null after a failure. -/
  | handle (isNull : Bool)
  /-- A status code. -/
  | status (code : Nat)
  /-- A status code, and what a variable for an element holds now. -/
  | element (code : Nat) (out : α)
  /-- A status code, and what a variable for a position holds now. -/
  | position (code : Nat) (out : Int)
  /-- A number of elements. -/
  | number (n : Nat)
  /-- Yes or no. -/
  | truth (b : Bool)
  /-- The failure that was in the error slot. -/
  | failure (error : Option ListError)
  /-- Nothing. -/
  | nothing

namespace Boundary

variable {γ S β : Type}

/-! ## The error slot -/

/-- The status code of the failure in the slot, zero if there is none. -/
def lastCode (boundary : Boundary S) : Nat :=
  match boundary.lastError with
  | some e => e.category.code
  | none => 0

/-- The wording of the failure in the slot, empty if there is none. -/
def lastMessage (boundary : Boundary S) : String :=
  match boundary.lastError with
  | some e => e.message
  | none => ""

/-- Put a failure into the slot.  The answer is its status code. -/
def record (e : ListError) : Action γ (Boundary S) Nat := do
  modify fun boundary ↦ { boundary with lastError := some e }
  return e.category.code

/-- Empty the slot. -/
def clearError : Action γ (Boundary S) Unit :=
  modify fun boundary ↦ { boundary with lastError := none }

/-- Empty the slot and answer what was in it. -/
def takeError : Action γ (Boundary S) (Option ListError) := do
  let boundary ← get
  clearError
  return boundary.lastError

/-! ## Handles -/

/-- The list behind a handle, if it is not null. -/
def find? (boundary : Boundary S) : Handle → Option S
  | .null => none
  | .named name => (boundary.handles.find? name).join

/-- The boundary with another list behind a handle.  Behind the null handle there is none. -/
def replace (boundary : Boundary S) (list : S) : Handle → Boundary S
  | .null => boundary
  | .named name => { boundary with handles := boundary.handles.insert name (some list) }

/-- The list behind a handle, which must not be null. -/
def borrow (handle : Handle) : Action γ (Boundary S) S := do
  match (← get).find? handle with
  | some list => return list
  | none => throw .nullHandle

/-- Work on the list behind a handle, which must not be null. -/
def onList (handle : Handle) (action : Action γ S β) : Action γ (Boundary S) β := do
  let list ← borrow handle
  Action.within id (fun _ ↦ list) (fun boundary changed ↦ boundary.replace changed handle) action

/-- What the list behind a handle is asked, or a default answer for a null handle. -/
def consult (handle : Handle) (default : β) (question : S → β) : Action γ (Boundary S) β :=
  return (((← get).find? handle).map question).getD default

/-- The elements that a handle lets go with its list. -/
def held (contents : S → List γ) (handle : Option S) : List γ := (handle.map contents).getD []

/-- Change the handles. -/
def onHandles (action : Action γ (Registry (Option S)) β) : Action γ (Boundary S) β :=
  Action.within id (·.handles) (fun boundary changed ↦ { boundary with handles := changed }) action

/-- Give a handle up, and let its list go.  The null handle has nothing to give up. -/
def free (contents : S → List γ) : Handle → Action γ (Boundary S) Unit
  | .null => return
  | .named name => onHandles (Registry.discard (held contents) name)

/-! ## Answers -/

/-- Answer with a status code. -/
def status (body : Action γ (Boundary S) Unit) : Action γ (Boundary S) Nat :=
  let answer : Action γ (Boundary S) Nat := do
    body
    return 0
  tryCatch answer record

/-- Answer with a status code, and write the result to a variable. -/
def out (cell : Out β) (body : Action γ (Boundary S) β) : Action γ (Boundary S) (Nat × β) :=
  let answer : Action γ (Boundary S) (Nat × β) := do
    return (0, cell.write (← body))
  tryCatch answer fun e ↦ do
    return (← record e, cell.value)

/-- Answer with a new handle, null after a failure, and keep it under a name.  The answer says
whether it is null. -/
def deliver (contents : S → List γ) (name : String) (body : Action γ (Boundary S) S) :
    Action γ (Boundary S) Bool := do
  let handle ← tryCatch (some <$> body) fun e ↦ do
    let _ ← record e
    return none
  onHandles (Registry.store (held contents) name handle)
  return handle.isNone

end Boundary
end ListRuntime
