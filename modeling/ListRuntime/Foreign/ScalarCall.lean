import ListRuntime.Foreign.Boundary
import ListRuntime.UniformList.Slicing

/-!
# Calls on lists of numbers and truth values

Each kind of scalar has the same family of calls, of which this is the generic form.  Lists are
given by handles, any of which may be null.  Where a call takes two lists, they may be one and the
same, and where it takes an array, the array may lie inside the list that the call changes: what is
read is then what was there before.

Scalars have no hooks, so a copy that a call makes for its own use leaves no trace.
-/

set_option autoImplicit false

namespace ListRuntime

/-- A pointer to an array. -/
inductive ArrayPointer (α : Type) where
  /-- The null pointer. -/
  | null
  /-- To these elements. -/
  | outside (items : List α)
  /-- To the element at this position of the list that is called. -/
  | inside (position : Nat)

/-- The `size` elements of an array, seen from a list of the elements `own`.  An array behind the
null pointer, or of no positive size, is empty. -/
def ArrayPointer.elements {α : Type} (own : List α) (size : Int64) : ArrayPointer α → List α
  | null => []
  | outside items => items.take size.toNatClampNeg
  | inside position => (own.drop position).take size.toNatClampNeg

/-- Whether some of an array of `size` elements lies among the `length` elements of the list that is
called. -/
def ArrayPointer.overlaps {α : Type} (length : Nat) (size : Int64) : ArrayPointer α → Bool
  | null | outside _ => false
  | inside position => decide (position < length) && decide (0 < size)

/-- Whether an array is still there when the list that is called has turned from `entered` into
`current`.  One inside the buffer of the list goes away with it when the list moves to another. -/
def ArrayPointer.remains {α : Type} (entered current : UniformList α) : ArrayPointer α → Bool
  | null | outside _ => true
  | inside _ => current.capacity == entered.capacity

namespace UniformList

variable {α : Type} [Element α]

/-- Append an array, which is read where it lies once there is room.  Of an array that has gone away
by then nothing is left to read. -/
def extendInPlace (array : ArrayPointer α) (size : Int64) : Action α (UniformList α) Unit := do
  let entered ← get
  reserve (array.elements entered.toList size).length
  let current ← get
  let items := if array.remains entered current then array.elements current.toList size else []
  Action.acquireAll items
  modify fun list ↦ { list with items := list.items ++ items }

/-- Append an array.  One that overlaps the list is copied out first, since growing would take it
away. -/
def extendFromArray (array : ArrayPointer α) (size : Int64) : Action α (UniformList α) Unit := do
  let list ← get
  if array.overlaps list.length size then extendFromList (array.elements list.toList size)
  else extendInPlace array size

end UniformList

/-- A call.  Its result is kept under the handle `target`, written to a variable, or answered as it
is. -/
inductive ScalarCall (α : Type) where
  | new (target : String)
  | withCapacity (target : String) (room : Int64)
  | ofArray (target : String) (array : ArrayPointer α) (size : Int64)
  | free (handle : Handle)
  | length (handle : Handle)
  | truthy (handle : Handle)
  | read (handle : Handle) (index : Int64) (cell : Out α)
  | assign (handle : Handle) (index : Int64) (value : α)
  | delete (handle : Handle) (index : Int64)
  | append (handle : Handle) (value : α)
  | extendFromArray (handle : Handle) (array : ArrayPointer α) (size : Int64)
  | extendFromList (handle other : Handle)
  | insert (handle : Handle) (position : Int64) (value : α)
  | pop (handle : Handle) (index : Option Int64) (cell : Out α)
  | remove (handle : Handle) (value : α)
  /-- The bounds of the window are those of a slice, whose step does not matter. -/
  | index (handle : Handle) (value : α) (window : Slice) (cell : Out Int)
  | count (handle : Handle) (value : α)
  | contains (handle : Handle) (value : α)
  | reverse (handle : Handle)
  | clear (handle : Handle)
  | copy (target : String) (handle : Handle)
  | slice (target : String) (handle : Handle) (slice : Slice)
  | setSlice (handle : Handle) (slice : Slice) (other : Handle)
  | delSlice (handle : Handle) (slice : Slice)
  | concat (target : String) (handle other : Handle)
  | repetition (target : String) (handle : Handle) (times : Int64)
  | takeError
  | clearError

namespace ScalarCall

open Boundary

variable {α : Type}

/-- The name under which a call keeps the handle that it answers with. -/
def target? : ScalarCall α → Option String
  | new target | withCapacity target _ | ofArray target _ _ | copy target _ | slice target _ _
  | concat target _ _ | repetition target _ _ => some target
  | _ => none

variable [Element α]

/-- Answer with a new handle. -/
def making (target : String) (body : Action α (Boundary (UniformList α)) (UniformList α)) :
    Action α (Boundary (UniformList α)) (Reply α) :=
  .handle <$> deliver (·.toList) target body

/-- Answer with a status code. -/
def changing (body : Action α (Boundary (UniformList α)) Unit) :
    Action α (Boundary (UniformList α)) (Reply α) :=
  .status <$> status body

/-- Do something to a list, if there is one. -/
def ifLive (handle : Handle) (action : Action α (UniformList α) Unit) :
    Action α (Boundary (UniformList α)) (Reply α) := do
  if ((← get).find? handle).isSome then onList handle action
  return .nothing

/-- What a call does. -/
def action : ScalarCall α → Action α (Boundary (UniformList α)) (Reply α)
  | new target => making target (return .empty .standard)
  | withCapacity target room => making target (UniformList.withCapacity room.toNatClampNeg)
  | ofArray target array size => making target (UniformList.ofList (array.elements [] size))
  | free handle => do
    Boundary.free (·.toList) handle
    return .nothing
  | length handle => .number <$> consult handle 0 (·.length)
  | truthy handle => .truth <$> consult handle false (·.truthy)
  | read handle i cell => do
    let (code, value) ← out cell do Action.ofExcept ((← borrow handle).read i)
    return .element code value
  | assign handle i a => changing (onList handle (UniformList.assign i a))
  | delete handle i => changing (onList handle (UniformList.delete i))
  | append handle a => changing (onList handle (UniformList.append a))
  | extendFromArray handle array size =>
    changing (onList handle (UniformList.extendFromArray array size))
  | extendFromList handle other => changing do
    if handle = other then onList handle UniformList.extendSelf
    else
      let source ← borrow other
      onList handle (UniformList.extendFromList source.toList)
  | insert handle position a => changing (onList handle (UniformList.insert position a))
  | pop handle i cell => do
    let (code, value) ← out cell (onList handle (UniformList.pop i))
    return .element code value
  | remove handle a => changing (onList handle (UniformList.remove a))
  | index handle a window cell => do
    let search : Action α (Boundary (UniformList α)) Int := do
      let position ← Action.ofExcept ((← borrow handle).index a window.start window.stop)
      return position
    let (code, position) ← out cell search
    return .position code position
  | count handle a => .number <$> consult handle 0 (·.count a)
  | contains handle a => .truth <$> consult handle false (·.contains a)
  | reverse handle => ifLive handle UniformList.reverse
  | clear handle => ifLive handle UniformList.clear
  | copy target handle => making target do (← borrow handle).copy
  | slice target handle s => making target do (← borrow handle).slice s
  | setSlice handle s other => changing do
    if handle = other then
      let source ← (← borrow handle).copy
      onList handle (UniformList.setSlice s source.toList)
    else
      let source ← borrow other
      onList handle (UniformList.setSlice s source.toList)
  | delSlice handle s => changing (onList handle (UniformList.delSlice s))
  | concat target handle other => making target do
    let left ← borrow handle
    let right ← borrow other
    left.concat right.toList
  | repetition target handle times => making target do (← borrow handle).repetition times
  | takeError => .failure <$> Boundary.takeError
  | clearError => do
    Boundary.clearError
    return .nothing

end ScalarCall
end ListRuntime
