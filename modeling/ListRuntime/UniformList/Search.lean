import ListRuntime.Index
import ListRuntime.UniformList.Basic

/-!
# Questions to uniform lists

These leave the list as it is and call no hooks, so they are plain functions.  Every search is by a
test on elements, so that it can be asked for with the equality of the elements or with another one.

* `read` is the element at an index.
* `contains`, `count` and `index` search with the equality of the elements.
* `equal` compares a list with other elements, and `text` writes one.
-/

set_option autoImplicit false

namespace ListRuntime
namespace UniformList

variable {α : Type}

/-- The position that `index` names, and the element there. -/
def locate? (list : UniformList α) (index : Int64) : Option (Nat × α) := do
  let position ← resolveIndex index list.length
  return (position, ← list.items[position]?)

/-- The element at `index`. -/
def read (list : UniformList α) (index : Int64) : Except ListError α :=
  match list.locate? index with
  | some (_, a) => .ok a
  | none => .error .indexOutOfRange

/-! ## Searches -/

/-- The first position from `start` up to before `stop` whose element passes `test`.  The bounds are
moved into the list; one left out is the list's own. -/
def firstWithin? (list : UniformList α) (start stop : Option Int64) (test : α → Bool) :
    Option Nat :=
  let length := list.length
  let first := (start.map (clampPosition · length)).getD 0
  let last := (stop.map (clampPosition · length)).getD length
  (((list.toList.take last).drop first).findIdx? test).map (first + ·)

/-- The first position whose element passes `test`, in a window. -/
def indexWhere (list : UniformList α) (start stop : Option Int64) (test : α → Bool) :
    Except ListError Nat :=
  match list.firstWithin? start stop test with
  | some position => .ok position
  | none => .error .indexNotFound

variable [Element α]

/-- Whether some element is equal to `a`. -/
def contains (list : UniformList α) (a : α) : Bool := list.toList.any (Element.equal · a)

/-- How many elements are equal to `a`. -/
def count (list : UniformList α) (a : α) : Nat := list.toList.countP (Element.equal · a)

/-- The first position in a window whose element is equal to `a`. -/
def index (list : UniformList α) (a : α) (start stop : Option Int64) : Except ListError Nat :=
  list.indexWhere start stop (Element.equal · a)

/-- Whether the elements are equal to `items`, one by one. -/
def equal (list : UniformList α) (items : List α) : Bool := list.toList.isEqv items Element.equal

/-- The text of a list. -/
def text (list : UniformList α) : String :=
  "[" ++ ", ".intercalate (list.toList.map Element.text) ++ "]"

end UniformList
end ListRuntime
