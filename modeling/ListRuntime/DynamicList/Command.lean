import ListRuntime.DynamicList.Basic
import ListRuntime.Session.Command

/-!
# Commands to dynamic lists

The operations on dynamic lists as data.  An operation may speak of another list, by its name as
it is written and as the list itself once it is looked up.

* `Operation` works on one list, `Origin` makes a list of values, `Derivation` makes one of a
  list.
* `vocabulary` is what commands about dynamic lists are made of.
-/

set_option autoImplicit false

namespace ListRuntime
namespace DynamicList

/-- An operation on a list, over other lists `l`. -/
inductive Operation (l : Type) where
  | read (index : Int64)
  | assign (index : Int64) (value : Value)
  | delete (index : Int64)
  | append (value : Value)
  | insert (position : Int64) (value : Value)
  | pop (index : Option Int64)
  | remove (value : Value)
  | clear
  | reverse
  | extendSelf
  | extendValues (values : List Value)
  | extendFrom (other : l)
  | setSlice (slice : Slice) (other : l)
  | delSlice (slice : Slice)
  | contains (value : Value)
  | count (value : Value)
  | index (value : Value) (start stop : Option Int64)
  | equal (other : l)
  | text
  | summary

/-- The making of a list of values. -/
inductive Origin where
  | empty (kind : Kind) (growth : Growth)
  | ofValues (declared : Option Kind) (values : List Value)
  | ofPromoted (kind : Kind) (values : List Value)

/-- The making of a list of a list, and of other lists `l`. -/
inductive Derivation (l : Type) where
  | copy
  | concat (other : l)
  | repetition (times : Int64)
  | slice (slice : Slice)

variable {l l' σ : Type}

/-- Take the other list of an operation to something else. -/
def Operation.mapM {m : Type → Type} [Monad m] (f : l → m l') : Operation l → m (Operation l')
  | read i => return .read i
  | assign i value => return .assign i value
  | delete i => return .delete i
  | append value => return .append value
  | insert position value => return .insert position value
  | pop i => return .pop i
  | remove value => return .remove value
  | clear => return .clear
  | reverse => return .reverse
  | extendSelf => return .extendSelf
  | extendValues values => return .extendValues values
  | extendFrom other => return .extendFrom (← f other)
  | setSlice s other => return .setSlice s (← f other)
  | delSlice s => return .delSlice s
  | contains value => return .contains value
  | count value => return .count value
  | index value start stop => return .index value start stop
  | equal other => return .equal (← f other)
  | text => return .text
  | summary => return .summary

/-- Take the other list of a derivation to something else. -/
def Derivation.mapM {m : Type → Type} [Monad m] (f : l → m l') : Derivation l → m (Derivation l')
  | copy => return .copy
  | concat other => return .concat (← f other)
  | repetition times => return .repetition times
  | slice s => return .slice s

/-! ## Meaning -/

open ListRuntime.Action (silently ask inquire)

/-- What an operation does. -/
def Operation.action : Operation DynamicList → Action Value DynamicList (Answer Value)
  | read i => inquire .element (·.read i)
  | assign i value => silently (DynamicList.assign i value)
  | delete i => silently (DynamicList.delete i)
  | append value => silently (DynamicList.append value)
  | insert position value => silently (DynamicList.insert position value)
  | pop i => return .element (← DynamicList.pop i)
  | remove value => silently (DynamicList.remove value)
  | clear => silently DynamicList.clear
  | reverse => silently DynamicList.reverse
  | extendSelf => silently DynamicList.extendSelf
  | extendValues values => silently (DynamicList.extendValues values)
  | extendFrom other => silently (DynamicList.extendFrom other)
  | setSlice s other => silently (DynamicList.setSlice s other)
  | delSlice s => silently (DynamicList.delSlice s)
  | contains value => ask fun list ↦ .truth (list.contains value)
  | count value => ask fun list ↦ .number (list.count value)
  | index value start stop => inquire .number (·.index value start stop)
  | equal other => ask fun list ↦ .truth (list.equal other)
  | text => ask fun list ↦ .text list.text
  | summary => ask fun list ↦ .summary list.length list.kind list.growth

/-- The list that an origin makes. -/
def Origin.action : Origin → Action Value σ DynamicList
  | empty kind growth => return DynamicList.empty kind growth
  | ofValues declared values => DynamicList.ofValues declared values
  | ofPromoted kind values => DynamicList.ofPromoted kind values

/-- The list that a derivation makes of `list`. -/
def Derivation.action (list : DynamicList) : Derivation DynamicList → Action Value σ DynamicList
  | copy => list.copy
  | concat other => list.concat other
  | repetition times => list.repetition times
  | slice s => list.slice s

/-- Commands about dynamic lists.  Other lists are given by their names. -/
def vocabulary :
    Vocabulary Value DynamicList Origin (Derivation String) (Operation String) where
  contents := values
  create _ origin := return origin.action
  derive registry derivation := do
    let derivation ← derivation.mapM (Resolved.named registry)
    return fun list ↦ derivation.action list
  operate registry operation := return (← operation.mapM (Resolved.named registry)).action

/-- What the host sees of hook calls on dynamic elements: those on references.  Numbers and truth
values have hooks that do nothing. -/
def observed (calls : List (HookCall Value)) : List (HookCall Reference) :=
  calls.filterMap fun call ↦
    match call.element with
    | .ref r => some ⟨call.hook, r⟩
    | _ => none

end DynamicList
end ListRuntime
