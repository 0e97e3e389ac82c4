import ListRuntime.Session.Command
import ListRuntime.UniformList.Slicing

/-!
# Commands to uniform lists

The operations on uniform lists as data.  An operation speaks of elements and of sequences of
elements; it is written over dynamic values and `Operand`s, and becomes one over the elements of a
list once the values are promoted and the named lists are looked up.

* `Operation` works on one list, `Origin` makes a list of elements, `Derivation` makes one of a
  list.
* Their `action`s say what they do.
* `vocabulary` is what commands about uniform lists are made of.
-/

set_option autoImplicit false

namespace ListRuntime
namespace UniformList

/-- An operation on a list, over elements `v` and sequences of elements `w`. -/
inductive Operation (v w : Type) where
  | read (index : Int64)
  | assign (index : Int64) (value : v)
  | delete (index : Int64)
  | append (value : v)
  | insert (position : Int64) (value : v)
  | pop (index : Option Int64)
  | remove (value : v)
  | clear
  | reverse
  | extendSelf
  | extendFromList (items : w)
  /-- From an iterator, which announces `hint` elements or else exactly those it has. -/
  | extend (items : w) (hint : Option Nat)
  /-- From an iterator that may fail. -/
  | tryExtend (yielded : List (Except ListError v)) (hint : Option Nat)
  | ensureCapacity (required : Nat)
  | shrinkTo (n : Nat)
  | setSlice (slice : Slice) (items : w)
  | delSlice (slice : Slice)
  | contains (value : v)
  | count (value : v)
  | index (value : v) (start stop : Option Int64)
  | equal (other : w)
  | elements
  | text
  | summary

/-- The making of a list of elements given as `w`. -/
inductive Origin (w : Type) where
  | empty (growth : Growth)
  | withCapacity (room : Nat)
  | ofList (items : w)
  /-- From an iterator, which announces `hint` elements or else exactly those it has. -/
  | ofIterator (items : w) (hint : Option Nat)

/-- The making of a list of a list, and of further elements given as `w`. -/
inductive Derivation (w : Type) where
  | copy
  | concat (other : w)
  | repetition (times : Int64)
  | slice (slice : Slice)

/-! ## Other elements, other sequences -/

variable {v w v' w' α σ : Type}

/-- Take the elements and the sequences of an operation to others, in the order they are written in.
What an iterator yields is taken one by one; a failure there is one of the iterator's. -/
def Operation.mapM {m : Type → Type} [Monad m] (value : v → Except ListError v')
    (lift : Except ListError v' → m v') (items : w → m w') : Operation v w → m (Operation v' w')
  | read i => return .read i
  | assign i a => return .assign i (← lift (value a))
  | delete i => return .delete i
  | append a => return .append (← lift (value a))
  | insert position a => return .insert position (← lift (value a))
  | pop i => return .pop i
  | remove a => return .remove (← lift (value a))
  | clear => return .clear
  | reverse => return .reverse
  | extendSelf => return .extendSelf
  | extendFromList source => return .extendFromList (← items source)
  | extend source hint => return .extend (← items source) hint
  | tryExtend yielded hint => return .tryExtend (yielded.map (· >>= value)) hint
  | ensureCapacity required => return .ensureCapacity required
  | shrinkTo n => return .shrinkTo n
  | setSlice s source => return .setSlice s (← items source)
  | delSlice s => return .delSlice s
  | contains a => return .contains (← lift (value a))
  | count a => return .count (← lift (value a))
  | index a start stop => return .index (← lift (value a)) start stop
  | equal other => return .equal (← items other)
  | elements => return .elements
  | text => return .text
  | summary => return .summary

/-- Take the sequence of an origin to another. -/
def Origin.mapM {m : Type → Type} [Monad m] (items : w → m w') : Origin w → m (Origin w')
  | empty growth => return .empty growth
  | withCapacity room => return .withCapacity room
  | ofList source => return .ofList (← items source)
  | ofIterator source hint => return .ofIterator (← items source) hint

/-- Take the sequence of a derivation to another. -/
def Derivation.mapM {m : Type → Type} [Monad m] (items : w → m w') :
    Derivation w → m (Derivation w')
  | copy => return .copy
  | concat other => return .concat (← items other)
  | repetition times => return .repetition times
  | slice s => return .slice s

/-! ## Meaning -/

variable [Element α]

open ListRuntime.Action (silently ask inquire)

/-- What an operation does. -/
def Operation.action : Operation α (List α) → Action α (UniformList α) (Answer α)
  | read i => inquire .element (·.read i)
  | assign i a => silently (UniformList.assign i a)
  | delete i => silently (UniformList.delete i)
  | append a => silently (UniformList.append a)
  | insert position a => silently (UniformList.insert position a)
  | pop i => return .element (← UniformList.pop i)
  | remove a => silently (UniformList.remove a)
  | clear => silently UniformList.clear
  | reverse => silently UniformList.reverse
  | extendSelf => silently UniformList.extendSelf
  | extendFromList items => silently (UniformList.extendFromList items)
  | extend items hint => silently (UniformList.extend (hint.getD items.length) items)
  | tryExtend yielded hint => silently (UniformList.tryExtend (hint.getD yielded.length) yielded)
  | ensureCapacity required => silently (UniformList.ensureCapacity required)
  | shrinkTo n => silently (UniformList.shrinkTo n)
  | setSlice s items => silently (UniformList.setSlice s items)
  | delSlice s => silently (UniformList.delSlice s)
  | contains a => ask fun list ↦ .truth (list.contains a)
  | count a => ask fun list ↦ .number (list.count a)
  | index a start stop => inquire .number (·.index a start stop)
  | equal other => ask fun list ↦ .truth (list.equal other)
  | elements => ask fun list ↦ .elements list.toList
  | text => ask fun list ↦ .text list.text
  | summary => ask fun list ↦ .summary list.length list.kind list.growth

/-- The list that an origin makes. -/
def Origin.action : Origin (List α) → Action α σ (UniformList α)
  | empty growth => return UniformList.empty growth
  | withCapacity room => UniformList.withCapacity room
  | ofList items => UniformList.ofList items
  | ofIterator items hint => UniformList.ofIterator (hint.getD items.length) items

/-- The list that a derivation makes of `list`. -/
def Derivation.action (list : UniformList α) : Derivation (List α) → Action α σ (UniformList α)
  | copy => list.copy
  | concat other => list.concat other
  | repetition times => list.repetition times
  | slice s => list.slice s

/-! ## The vocabulary -/

/-- Elements in a command: values to be promoted, or those that a named list holds. -/
inductive Operand where
  | values (given : List Value)
  | elementsOf (name : String)

/-- The elements that an operand stands for. -/
def Operand.elements (registry : Registry (UniformList α)) : Operand → Resolved (List α)
  | values given => Resolved.ofExcept (promoteAll given)
  | elementsOf name => return (← Resolved.named registry name).toList

/-- Commands about uniform lists.  All values in a command are promoted before anything is done. -/
def vocabulary :
    Vocabulary α (UniformList α) (Origin Operand) (Derivation Operand)
      (Operation Value Operand) where
  contents list := list.toList
  create registry origin := return (← origin.mapM (Operand.elements registry)).action
  derive registry derivation := do
    let derivation ← derivation.mapM (Operand.elements registry)
    return fun list ↦ derivation.action list
  operate registry operation :=
    return (← operation.mapM promote Resolved.ofExcept (Operand.elements registry)).action

end UniformList
end ListRuntime
