import ListRuntime.UniformList.Mutation

/-!
# New uniform lists

Lists made of given elements or of other lists.  A new list is filled where nobody sees it; it comes
to light complete, or it is given up and what it holds is released.  Its buffer is allocated at once
and exactly as large as needed, and it takes the policy of the list it is made from.

* `ofList` and `ofIterator` make a list of elements.
* `copy`, `concat` and `repetition` are the operators on lists.
-/

set_option autoImplicit false

namespace ListRuntime
namespace UniformList

variable {α σ : Type} [Element α]

/-- An empty list of the standard policy, with room for exactly `room` elements. -/
def withCapacity (room : Nat) : Action α σ (UniformList α) := fresh .standard room

/-- A list of `items`. -/
def ofList (items : List α) : Action α σ (UniformList α) :=
  build .standard items.length (extendFromList items)

/-- A list of what an iterator yields, which announces at least `hint` elements. -/
def ofIterator (hint : Nat) (items : List α) : Action α σ (UniformList α) :=
  build .standard hint (extend hint items)

/-- A list of the same elements, each acquired once more. -/
def copy (list : UniformList α) : Action α σ (UniformList α) :=
  build list.growth list.length (extendFromList list.toList)

/-- A list of the elements of `list` and then those of another one, which are `items`. -/
def concat (list : UniformList α) (items : List α) : Action α σ (UniformList α) := do
  let total := list.length + items.length
  if wordLimit ≤ total then throw .countOverflow
  build list.growth total do
    extendFromList list.toList
    extendFromList items

/-- A list of the elements of `list`, `times` times over.  All room is made beforehand.  There is
nothing to make room for if the list is empty or `times` is not positive. -/
def repetition (list : UniformList α) (times : Int64) : Action α σ (UniformList α) := do
  if times ≤ 0 ∨ list.items.isEmpty then return empty list.growth
  let rounds := times.toNatClampNeg
  let total := list.length * rounds
  if wordLimit ≤ total then throw .countOverflow
  build list.growth total (Action.times rounds (extendFromList list.toList))

end UniformList
end ListRuntime
