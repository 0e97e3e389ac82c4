import ListRuntime.Slice
import ListRuntime.UniformList.Making

/-!
# Slices of uniform lists

A slice is resolved against the length of the list before anything else.  A contiguous selection is
handled as one piece, and may change its length; any other is handled position by position.

* `slice` copies the selected elements.
* `setSlice` replaces them, and `splice` is what it does to a contiguous selection.
* `delSlice` deletes them, and `Sweep` is what it does to any other selection.
-/

set_option autoImplicit false

namespace ListRuntime
namespace UniformList

variable {α σ : Type} [Element α]

/-- The elements at the selected positions, in slice order. -/
def select (list : UniformList α) (selection : Selection) : List α :=
  selection.positions.filterMap (list.items[·]?)

/-- A list of the selected elements, of the policy of the list. -/
def slice (list : UniformList α) (slice : Slice) : Action α σ (UniformList α) := do
  let selection ← slice.resolve list.length
  build list.growth selection.count do
    if selection.isContiguous then
      let first := selection.position 0
      extendFromList ((list.toList.drop first).take selection.count)
    else
      extend selection.count (list.select selection)

/-! ## Assignment -/

/-- Replace `removed` elements from `first` on by `items`.  The incoming elements are acquired
before the outgoing ones are released, and while these are being released, the list ends where
they began. -/
def splice (first removed : Nat) (items : List α) : Action α (UniformList α) Unit := do
  let list ← get
  let front := list.toList.take first
  let departing := (list.toList.drop first).take removed
  let back := list.toList.drop (first + removed)
  let total := front.length + back.length + items.length
  if wordLimit ≤ total then throw .countOverflow
  ensureCapacity total
  Action.acquireAll items
  modify fun list ↦ { list with items := front.toArray }
  Action.releaseAll departing
  modify fun list ↦ { list with items := (front ++ items ++ back).toArray }

/-- Replace the selected elements by `items`.  With step 1 the list changes its length to fit; an
empty selection then is the place to insert at.  With any other step the lengths must agree, and the
elements are replaced one after the other. -/
def setSlice (slice : Slice) (items : List α) : Action α (UniformList α) Unit := do
  let selection ← slice.resolve (← get).length
  if selection.isContiguous then
    splice selection.start.toNatClampNeg selection.count items
  else if selection.count = items.length then
    Action.forEach (selection.positions.zip items) fun (position, a) ↦ overwrite position a
  else
    throw (.lengthMismatch selection.count items.length)

/-! ## Deletion -/

/-- A list in the course of a sweep: the elements that stay move to the front in their order, and
those that go are carried along behind them. -/
structure Sweep (α : Type) where
  /-- The elements that stay, the latest first. -/
  kept : List α := []
  /-- The elements that go. -/
  doomed : Std.Queue α := .empty

/-- Sweep over one more element.  One that goes joins the others.  One that stays changes places
with the first of those that go, which is thereby behind all the others. -/
def Sweep.step (sweep : Sweep α) (goes : Bool) (a : α) : Sweep α :=
  if goes then { sweep with doomed := sweep.doomed.enqueue a }
  else match sweep.doomed.dequeue? with
    | some (first, others) => ⟨a :: sweep.kept, others.enqueue first⟩
    | none => { sweep with kept := a :: sweep.kept }

/-- Sweep over elements, of which those at the selected positions go. -/
def sweep (items : List α) (selection : Selection) : Sweep α :=
  items.zipIdx.foldl (fun swept (a, position) ↦ swept.step (selection.selects position) a) {}

/-- Delete the selected elements. -/
def delSlice (slice : Slice) : Action α (UniformList α) Unit := do
  let list ← get
  let selection ← slice.resolve list.length
  if selection.count = 0 then return
  if selection.isContiguous then
    splice (selection.position 0) selection.count []
  else
    let swept := sweep list.toList selection
    set { list with items := swept.kept.reverse.toArray ++ swept.doomed.toArray }
    shrinkTo swept.kept.length

end UniformList
end ListRuntime
