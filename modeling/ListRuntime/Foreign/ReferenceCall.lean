import ListRuntime.Foreign.Boundary
import ListRuntime.UniformList.Making

/-!
# Calls on lists of references

Compiled code passes objects by their addresses.  A list of references is bound to one hook table
when it is made, and every object that it takes in is managed by that table.
-/

set_option autoImplicit false

namespace ListRuntime

/-- A list of objects, all of them managed by one hook table. -/
structure ReferenceList where
  /-- The objects, with their table. -/
  list : UniformList Reference
  /-- The table. -/
  table : Nat

namespace ReferenceList

variable {β : Type}

/-- Work on the list inside. -/
def inside (action : Action Reference (UniformList Reference) β) :
    Action Reference ReferenceList β :=
  Action.within id (·.list) (fun references changed ↦ { references with list := changed }) action

/-- Store an object that is given by its address. -/
def wrapping (address : UInt64) (store : Reference → Action Reference (UniformList Reference) β) :
    Action Reference ReferenceList β := do
  let references ← get
  inside (store ⟨address, references.table⟩)

/-- A list of the same objects and the same table. -/
def copy {σ : Type} (references : ReferenceList) : Action Reference σ ReferenceList := do
  return { references with list := ← references.list.copy }

end ReferenceList

/-- A call.  Objects come and go as addresses. -/
inductive ReferenceCall where
  /-- With a hook table, or with the null pointer in its place. -/
  | new (target : String) (table : Option Nat)
  | free (handle : Handle)
  | length (handle : Handle)
  | append (handle : Handle) (object : UInt64)
  | read (handle : Handle) (index : Int64) (cell : Out UInt64)
  | assign (handle : Handle) (index : Int64) (object : UInt64)
  | pop (handle : Handle) (index : Option Int64) (cell : Out UInt64)
  | clear (handle : Handle)
  | copy (target : String) (handle : Handle)
  | takeError
  | clearError

namespace ReferenceCall

open Boundary

/-- The name under which a call keeps the handle that it answers with. -/
def target? : ReferenceCall → Option String
  | new target _ | copy target _ => some target
  | _ => none

/-- What a call does. -/
def action : ReferenceCall → Action Reference (Boundary ReferenceList) (Reply UInt64)
  | new target table => .handle <$> deliver (·.list.toList) target do
    match table with
    | some table => return ⟨.empty .standard, table⟩
    | none => throw .nullHandle
  | free handle => do
    Boundary.free (·.list.toList) handle
    return .nothing
  | length handle => .number <$> consult handle 0 (·.list.length)
  | append handle object =>
    .status <$> status (onList handle (ReferenceList.wrapping object UniformList.append))
  | read handle i cell => do
    let (code, address) ← out cell do
      return (← Action.ofExcept ((← borrow handle).list.read i)).address
    return .element code address
  | assign handle i object =>
    .status <$> status (onList handle (ReferenceList.wrapping object (UniformList.assign i)))
  | pop handle i cell => do
    let (code, address) ← out cell do
      return (← onList handle (ReferenceList.inside (UniformList.pop i))).address
    return .element code address
  | clear handle => do
    if ((← get).find? handle).isSome then onList handle (ReferenceList.inside UniformList.clear)
    return .nothing
  | copy target handle => .handle <$> deliver (·.list.toList) target do (← borrow handle).copy
  | takeError => .failure <$> Boundary.takeError
  | clearError => do
    Boundary.clearError
    return .nothing

end ReferenceCall
end ListRuntime
