import ListRuntime.UniformList.Search

/-!
# Changing uniform lists in place

Each operation first finds its position and its room, and fails if it cannot.  Only then does it
acquire what comes in, change the list, and release what has left, in this order: an element that
comes in may be the very one that leaves.

* `assign`, `append` and `insert` store one element, `delete`, `remove` and `pop` take one away.
* `extendFromList` appends elements that are known beforehand, `extendSelf` those of the list.
* `tryExtend` appends what an iterator yields, all of it or nothing.
-/

set_option autoImplicit false

namespace ListRuntime
namespace UniformList

variable {α : Type} [Element α]

/-! ## One element -/

/-- Put `a` in the place of the element at `position`. -/
def overwrite (position : Nat) (a : α) : Action α (UniformList α) Unit := do
  Action.acquire a
  let old ← modifyGet fun list ↦
    (list.items[position]?, { list with items := list.items.setIfInBounds position a })
  Action.releaseAll old.toList

/-- Take the element at `position` out and release it. -/
def withdraw (position : Nat) : Action α (UniformList α) Unit := do
  let old ← modifyGet fun list ↦
    (list.items[position]?, { list with items := list.items.eraseIdxIfInBounds position })
  Action.releaseAll old.toList

/-- Replace the element at `index` by `a`. -/
def assign (index : Int64) (a : α) : Action α (UniformList α) Unit := do
  match resolveIndex index (← get).length with
  | some position => overwrite position a
  | none => throw .assignmentOutOfRange

/-- Delete the element at `index`. -/
def delete (index : Int64) : Action α (UniformList α) Unit := do
  match resolveIndex index (← get).length with
  | some position => withdraw position
  | none => throw .assignmentOutOfRange

/-- Append `a`. -/
def append (a : α) : Action α (UniformList α) Unit := do
  reserve 1
  Action.acquire a
  modify fun list ↦ { list with items := list.items.push a }

/-- Insert `a` before the element at `position`; a position outside is moved to the nearer end. -/
def insert (position : Int64) (a : α) : Action α (UniformList α) Unit := do
  reserve 1
  Action.acquire a
  modify fun list ↦
    { list with items := (list.toList.insertIdx (clampPosition position list.length) a).toArray }

/-- Take an element out, the last one by default, and hand it over.  What the list held of it passes
to the caller, so no hook is called. -/
def pop (index : Option Int64) : Action α (UniformList α) α := do
  let list ← get
  if list.items.isEmpty then throw .popFromEmpty
  match list.locate? (index.getD (-1)) with
  | some (position, a) =>
    set { list with items := list.items.eraseIdxIfInBounds position }
    return a
  | none => throw .popOutOfRange

/-- Delete the first element that passes `test`. -/
def removeWhere (test : α → Bool) : Action α (UniformList α) Unit := do
  match (← get).toList.findIdx? test with
  | some position => withdraw position
  | none => throw .removeNotFound

/-- Delete the first element equal to `a`. -/
def remove (a : α) : Action α (UniformList α) Unit := removeWhere (Element.equal · a)

/-! ## Many elements -/

/-- Turn the list round. -/
def reverse : Action α (UniformList α) Unit :=
  modify fun list ↦ { list with items := list.items.reverse }

/-- Append all of `items`, after making room for them at once. -/
def extendFromList (items : List α) : Action α (UniformList α) Unit := do
  reserve items.length
  Action.acquireAll items
  modify fun list ↦ { list with items := list.items ++ items }

/-- Append the list to itself, once: what it held on entry is read when there is room. -/
def extendSelf : Action α (UniformList α) Unit := do
  let entered := (← get).length
  reserve entered
  Action.acquireAll (← get).toList
  modify fun list ↦ { list with items := list.items ++ list.items.take entered }

/-- Append what an iterator yields.  It announces at least `hint` elements, for which room is made;
it may yield more or fewer, and it may fail. -/
def appendYielded (hint : Nat) (yielded : List (Except ListError α)) :
    Action α (UniformList α) Unit := do
  reserve hint
  Action.forEach yielded fun item ↦ do append (← Action.ofExcept item)

/-- Append what an iterator yields, all of it or nothing: a failure on the way, of the iterator or
for lack of room, takes the list back to its former length. -/
def tryExtend (hint : Nat) (yielded : List (Except ListError α)) :
    Action α (UniformList α) Unit := do
  let base := (← get).length
  try
    appendYielded hint yielded
  catch e =>
    shrinkTo base
    throw e

/-- Append the elements of an iterator that does not fail. -/
def extend (hint : Nat) (items : List α) : Action α (UniformList α) Unit :=
  tryExtend hint (items.map .ok)

end UniformList
end ListRuntime
