import ListRuntime.Proofs.Slice
import ListRuntime.UniformList.Command

/-!
# The language's lists

What the language says about lists that can be changed, on plain sequences: there is no buffer, no
capacity and no word size, indices and bounds are integers, and a slice stands for the positions
that a walk over a range visits.

* `Sequence.position?` and `Sequence.place` are the rules for indices and for places to insert at.
* `Sequence.assignSlice` and `Sequence.removeAt` are the rules for slices.
* `Edit` is an operation of a program, `Edit.apply` what it does to a sequence, and `Edit.trace`
  what a whole program sees.
-/

set_option autoImplicit false

namespace ListRuntime

/-! ## Rules -/

namespace Sequence

variable {α : Type}

/-- The position that an index names: a negative one counts from the end, and the position must
exist. -/
def position? (index : Int) (length : Nat) : Option Nat :=
  let position := if index < 0 then index + length else index
  if 0 ≤ position ∧ position < length then some position.toNat else none

/-- The place to insert at: a negative one counts from the end, and one outside is moved to the
nearer end. -/
def place (index : Int) (length : Nat) : Nat :=
  (if index < 0 then max (index + length) 0 else min index length).toNat

/-- Replace the elements at positions, one after the other. -/
def replaceAt (items : List α) : List (Nat × α) → List α
  | [] => items
  | (position, a) :: rest => replaceAt (items.set position a) rest

/-- The elements at all other positions, in their order. -/
def removeAt (items : List α) (positions : List Nat) : List α :=
  (items.zipIdx.filter fun entry ↦ entry.2 ∉ positions).map Prod.fst

/-- Replace the elements from `start` up to before `stop`, or insert at `start` if there are
none. -/
def replaceBetween (items : List α) (start stop : Nat) (replacement : List α) : List α :=
  items.take start ++ replacement ++ items.drop (max start stop)

/-- Assign to a slice.  With step 1 the list may change its length; with any other step there must
be an element for each position. -/
def assignSlice (items : List α) (slice : Slice) (replacement : List α) :
    Except Category (List α) :=
  let length := items.length
  if slice.stride = 0 then .error .value
  else if slice.stride = 1 then
    .ok (replaceBetween items (slice.first length).toNat (slice.last length).toNat replacement)
  else if (slice.walked length).length = replacement.length then
    .ok (replaceAt items ((slice.walked length).zip replacement))
  else .error .value

/-- Delete a slice. -/
def deleteSlice (items : List α) (slice : Slice) : Except Category (List α) :=
  if slice.stride = 0 then .error .value else .ok (removeAt items (slice.walked items.length))

end Sequence

/-! ## Programs -/

/-- An operation that changes a list. -/
inductive Edit (α : Type) where
  | append (a : α)
  | insert (index : Int64) (a : α)
  | assign (index : Int64) (a : α)
  | delete (index : Int64)
  /-- Without an index, of the last element. -/
  | pop (index : Option Int64)
  | remove (a : α)
  /-- By what an iterator yields, which announces `hint` elements or else exactly those it has. -/
  | extend (items : List α) (hint : Option Nat)
  | extendFromList (items : List α)
  | extendSelf
  | reverse
  | clear
  | shrinkTo (n : Nat)
  | setSlice (slice : Slice) (items : List α)
  | delSlice (slice : Slice)

namespace Edit

open Sequence

variable {α : Type} [Element α]

/-- What an operation makes of a sequence, and the element that it hands over, if it does; or the
kind of exception that it raises. -/
def apply (items : List α) : Edit α → Except Category (List α × Option α)
  | append a => .ok (items ++ [a], none)
  | insert index a => .ok (items.insertIdx (place index.toInt items.length) a, none)
  | assign index a =>
    match position? index.toInt items.length with
    | some position => .ok (items.set position a, none)
    | none => .error .index
  | delete index =>
    match position? index.toInt items.length with
    | some position => .ok (items.eraseIdx position, none)
    | none => .error .index
  | pop index =>
    match position? ((index.map Int64.toInt).getD (-1)) items.length with
    | some position => .ok (items.eraseIdx position, items[position]?)
    | none => .error .index
  | remove a =>
    match items.findIdx? (Element.equal · a) with
    | some position => .ok (items.eraseIdx position, none)
    | none => .error .value
  | extend more _ | extendFromList more => .ok (items ++ more, none)
  | extendSelf => .ok (items ++ items, none)
  | reverse => .ok (items.reverse, none)
  | clear => .ok ([], none)
  | shrinkTo n => .ok (items.take n, none)
  | setSlice slice replacement => (assignSlice items slice replacement).map (·, none)
  | delSlice slice => (deleteSlice items slice).map (·, none)

/-- What a program sees of an operation: the element that it hands over or the exception that it
raises, and the sequence after it.  An exception leaves the sequence as it was. -/
def outcome (edit : Edit α) (items : List α) : Except Category (Option α) × List α :=
  match edit.apply items with
  | .ok (changed, given) => (.ok given, changed)
  | .error category => (.error category, items)

/-- What a program sees of operations one after the other. -/
def trace : List (Edit α) → List α → List (Except Category (Option α) × List α)
  | [], _ => []
  | edit :: edits, items => edit.outcome items :: trace edits (edit.outcome items).2

/-- The operation of the runtime. -/
def operation : Edit α → UniformList.Operation α (List α)
  | append a => .append a
  | insert index a => .insert index a
  | assign index a => .assign index a
  | delete index => .delete index
  | pop index => .pop index
  | remove a => .remove a
  | extend items hint => .extend items hint
  | extendFromList items => .extendFromList items
  | extendSelf => .extendSelf
  | reverse => .reverse
  | clear => .clear
  | shrinkTo n => .shrinkTo n
  | setSlice slice items => .setSlice slice items
  | delSlice slice => .delSlice slice

end Edit
end ListRuntime
