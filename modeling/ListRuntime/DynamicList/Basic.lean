import ListRuntime.UniformList.Slicing

/-!
# Dynamic lists

A `DynamicList` is a uniform list whose kind is known only at run time.  It takes dynamic values
in, promoting them to its kind where the ladder of kinds allows, and gives dynamic values out.
Questions to it use the language's `==`, which compares numbers across kinds.

* `ofValues` infers the kind of a list from its values.
* `extendValues`, `extendFrom` and `setSlice` take in values and other lists.
* `concat` widens to the common kind of both lists.
-/

set_option autoImplicit false

namespace ListRuntime

/-- A list together with the kind of its elements. -/
structure DynamicList where
  /-- The kind of the elements. -/
  kind : Kind
  /-- The list. -/
  list : UniformList kind.Carrier

namespace DynamicList

variable {σ β : Type}

/-- The elements in dynamic form. -/
def values (dynamic : DynamicList) : List Value := dynamic.list.toList.map toValue

/-- The number of elements. -/
def length (dynamic : DynamicList) : Nat := dynamic.list.length

/-- How the buffer grows. -/
def growth (dynamic : DynamicList) : Growth := dynamic.list.growth

/-- The text of the list. -/
def text (dynamic : DynamicList) : String := dynamic.list.text

/-- The elements as ones of the carrier of `kind`, if they are of this kind. -/
def itemsAs? (kind : Kind) (dynamic : DynamicList) : Option (List kind.Carrier) :=
  if same : dynamic.kind = kind then some (same ▸ dynamic.list.toList) else none

/-- Work on the list inside, whatever its kind. -/
def inside (action : (kind : Kind) → Action kind.Carrier (UniformList kind.Carrier) β) :
    Action Value DynamicList β := do
  let dynamic ← get
  Action.within toValue (fun _ ↦ dynamic.list) (fun _ list ↦ ⟨dynamic.kind, list⟩)
    (action dynamic.kind)

/-- A new dynamic list, of a new uniform one. -/
def wrap (kind : Kind) (making : Action kind.Carrier σ (UniformList kind.Carrier)) :
    Action Value σ DynamicList := do
  return ⟨kind, ← Action.within toValue id (fun _ s ↦ s) making⟩

/-! ## One element -/

/-- The element at `index`. -/
def read (dynamic : DynamicList) (index : Int64) : Except ListError Value :=
  toValue <$> dynamic.list.read index

/-- Replace the element at `index` by a value. -/
def assign (index : Int64) (value : Value) : Action Value DynamicList Unit :=
  inside fun _ ↦ do UniformList.assign index (← promote value)

/-- Delete the element at `index`. -/
def delete (index : Int64) : Action Value DynamicList Unit :=
  inside fun _ ↦ UniformList.delete index

/-- Append a value. -/
def append (value : Value) : Action Value DynamicList Unit :=
  inside fun _ ↦ do UniformList.append (← promote value)

/-- Insert a value before the element at `position`. -/
def insert (position : Int64) (value : Value) : Action Value DynamicList Unit :=
  inside fun _ ↦ do UniformList.insert position (← promote value)

/-- Take an element out, the last one by default, and hand it over. -/
def pop (index : Option Int64) : Action Value DynamicList Value :=
  inside fun _ ↦ do return toValue (← UniformList.pop index)

/-- Delete the first element equal to a value. -/
def remove (value : Value) : Action Value DynamicList Unit :=
  inside fun _ ↦ UniformList.removeWhere fun a ↦ (toValue a).equal value

/-! ## Many elements -/

/-- Release all elements. -/
def clear : Action Value DynamicList Unit := inside fun _ ↦ UniformList.clear

/-- Turn the list round. -/
def reverse : Action Value DynamicList Unit := inside fun _ ↦ UniformList.reverse

/-- Append the list to itself. -/
def extendSelf : Action Value DynamicList Unit := inside fun _ ↦ UniformList.extendSelf

/-- Append values, all of them or none: one that does not promote takes the list back. -/
def extendValues (values : List Value) : Action Value DynamicList Unit :=
  inside fun _ ↦ UniformList.tryExtend values.length (values.map promote)

/-- Append the elements of another list, which are promoted if it is of another kind. -/
def extendFrom (other : DynamicList) : Action Value DynamicList Unit :=
  inside fun kind ↦
    match other.itemsAs? kind with
    | some items => UniformList.extendFromList items
    | none => UniformList.tryExtend other.length (other.values.map promote)

/-- Replace the selected elements by those of another list.  If it is of another kind, all of them
are promoted before anything else. -/
def setSlice (slice : Slice) (other : DynamicList) : Action Value DynamicList Unit :=
  inside fun kind ↦ do
    match other.itemsAs? kind with
    | some items => UniformList.setSlice slice items
    | none => UniformList.setSlice slice (← promoteAll other.values)

/-- Delete the selected elements. -/
def delSlice (slice : Slice) : Action Value DynamicList Unit :=
  inside fun _ ↦ UniformList.delSlice slice

/-! ## New lists -/

/-- An empty list of a kind. -/
def empty (kind : Kind) (growth : Growth) : DynamicList := ⟨kind, .empty growth⟩

/-- A list of values, of their common kind.  A declared kind takes part in this, so that the list is
wider than declared if the values need it. -/
def ofValues (declared : Option Kind) (values : List Value) : Action Value σ DynamicList := do
  let kind ← unifyKinds declared values
  wrap kind (UniformList.build .standard values.length
    (UniformList.tryExtend values.length (values.map promote)))

/-- A list of values promoted to a given kind. -/
def ofPromoted (kind : Kind) (values : List Value) : Action Value σ DynamicList :=
  wrap kind do UniformList.ofList (← promoteAll values)

/-- A list of the same elements. -/
def copy (dynamic : DynamicList) : Action Value σ DynamicList :=
  wrap dynamic.kind dynamic.list.copy

/-- A list of the selected elements. -/
def slice (dynamic : DynamicList) (slice : Slice) : Action Value σ DynamicList :=
  wrap dynamic.kind (dynamic.list.slice slice)

/-- A list of the elements, a number of times over. -/
def repetition (dynamic : DynamicList) (times : Int64) : Action Value σ DynamicList :=
  wrap dynamic.kind (dynamic.list.repetition times)

/-- A list of the elements of both lists.  It is of their common kind and has the policy of the
first one. -/
def concat (dynamic other : DynamicList) : Action Value σ DynamicList :=
  match other.itemsAs? dynamic.kind with
  | some items => wrap dynamic.kind (dynamic.list.concat items)
  | none =>
    match dynamic.kind.unify? other.kind with
    | none => throw (.noCommonKind dynamic.kind other.kind)
    | some kind =>
      Action.construct values (empty kind dynamic.growth) do
        extendFrom dynamic
        extendFrom other

/-! ## Questions -/

/-- Whether some element is equal to a value. -/
def contains (dynamic : DynamicList) (value : Value) : Bool :=
  dynamic.values.any (·.equal value)

/-- How many elements are equal to a value. -/
def count (dynamic : DynamicList) (value : Value) : Nat :=
  dynamic.values.countP (·.equal value)

/-- The first position in a window whose element is equal to a value. -/
def index (dynamic : DynamicList) (value : Value) (start stop : Option Int64) :
    Except ListError Nat :=
  dynamic.list.indexWhere start stop fun a ↦ (toValue a).equal value

/-- Whether two lists have equal elements, of whatever kinds, in the same order. -/
def equal (dynamic other : DynamicList) : Bool := dynamic.values.isEqv other.values Value.equal

end DynamicList
end ListRuntime
