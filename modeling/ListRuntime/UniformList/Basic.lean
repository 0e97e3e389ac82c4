import ListRuntime.Action
import ListRuntime.Element
import ListRuntime.Storage.Growth

/-!
# Uniform lists

A `UniformList` holds elements of one type in a buffer that grows by the list's policy.  Operations
on it are actions; the elements they take in are acquired, those they let go are released, and
neither happens before it is certain that the operation succeeds.

This file holds the management of storage, on which all other operations are built:

* `ensureCapacity` and `reserve` grow the buffer, or fail and change nothing.
* `shrinkTo` cuts the list off.
* `fresh` is a new empty list with room, and `build` fills one.
-/

set_option autoImplicit false

namespace ListRuntime

/-- A list of elements of one type. -/
structure UniformList (α : Type) extends Buffer α where
  /-- How the buffer grows. -/
  growth : Growth

namespace UniformList

variable {α σ : Type} [Element α]

/-- The number of elements. -/
def length (list : UniformList α) : Nat := list.items.size

/-- The kind of the elements. -/
def kind (_ : UniformList α) : Kind := Element.kind α

/-- Whether the list counts as true: an empty one does not. -/
def truthy (list : UniformList α) : Bool := !list.items.isEmpty

/-- An empty list without an allocation. -/
def empty (growth : Growth) : UniformList α := { Buffer.empty (Element.layout α) with growth }

/-! ## Room -/

/-- Make room for `required` elements in all.  The buffer grows by the list's policy. -/
def ensureCapacity (required : Nat) : Action α (UniformList α) Unit := do
  let list ← get
  let slot := Element.layout α
  let target := list.growth.nextCapacity list.capacity required slot.maxElements
  match slot.grow (← Action.allocator) list.capacity target with
  | .ok capacity => set { list with capacity }
  | .error cause => throw (.allocation cause)

/-- Make room for `additional` elements more. -/
def reserve (additional : Nat) : Action α (UniformList α) Unit := do
  let required := (← get).length + additional
  if wordLimit ≤ required then throw .countOverflow
  ensureCapacity required

/-! ## Cutting off -/

/-- Keep the first `n` elements and release the others.  They have left the list before the first of
them is released. -/
def shrinkTo (n : Nat) : Action α (UniformList α) Unit := do
  let list ← get
  set { list with items := list.items.take n }
  Action.releaseAll (list.toList.drop n)

/-- Release all elements. -/
def clear : Action α (UniformList α) Unit := shrinkTo 0

/-! ## New lists -/

/-- A new empty list with room for exactly `room` elements. -/
def fresh (growth : Growth) (room : Nat) : Action α σ (UniformList α) := do
  match Buffer.withCapacity (Element.layout α) (← Action.allocator) room with
  | .ok buffer => return { buffer with growth }
  | .error cause => throw (.allocation cause)

/-- A new list with room for exactly `room` elements at first, which `fill` fills. -/
def build (growth : Growth) (room : Nat) (fill : Action α (UniformList α) Unit) :
    Action α σ (UniformList α) := do
  Action.construct (·.toList) (← fresh growth room) fill

end UniformList
end ListRuntime
