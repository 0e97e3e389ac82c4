import ListRuntime.Kind
import ListRuntime.Storage.Request

/-!
# Failures of list operations

A `ListError` says why an operation on a list failed.  Every cause belongs to a `Category`, which
decides the exception that the host raises for it and the status code that crosses the calling
convention, and has a fixed wording.

* `ListError.category` and `ListError.message` are all that a caller can observe of a failure.
* `Category.code` and `Category.ofCode?` relate categories and status codes.
-/

set_option autoImplicit false

namespace ListRuntime

/-- What kind of exception a failure becomes. -/
inductive Category where
  /-- A scalar index, or the index of a removal, is out of range. -/
  | index
  /-- A slice step of zero, a value that is not in the list, a replacement of the wrong length. -/
  | value
  /-- An element does not fit the list's kind. -/
  | type
  /-- The list would be larger than can be represented. -/
  | sizeOverflow
  /-- The allocator refused. -/
  | outOfMemory
deriving DecidableEq, Repr

namespace Category

/-- The name of the host's exception. -/
def hostName : Category → String
  | index => "IndexError"
  | value => "ValueError"
  | type => "TypeError"
  | sizeOverflow => "OverflowError"
  | outOfMemory => "MemoryError"

/-- The status code of a failure.  Zero is left for success. -/
def code : Category → Nat
  | index => 1
  | value => 2
  | type => 3
  | sizeOverflow => 4
  | outOfMemory => 5

/-- The category with a given status code. -/
def ofCode? (code : Int) : Option Category :=
  [index, value, type, sizeOverflow, outOfMemory].find? fun category ↦ category.code = code

/-- The category with a given exception name. -/
def ofHostName? (name : String) : Option Category :=
  [index, value, type, sizeOverflow, outOfMemory].find? fun category ↦ category.hostName = name

/-- Whether the failure is one of allocation. -/
def isAllocation : Category → Bool
  | sizeOverflow | outOfMemory => true
  | index | value | type => false

end Category

/-- Why a list operation failed. -/
inductive ListError where
  /-- A read outside the list. -/
  | indexOutOfRange
  /-- A write or deletion outside the list. -/
  | assignmentOutOfRange
  /-- A `pop` of an empty list. -/
  | popFromEmpty
  /-- A `pop` outside the list. -/
  | popOutOfRange
  /-- A slice with step zero. -/
  | zeroStep
  /-- An assignment to a slice with a step, of another length than the selection. -/
  | lengthMismatch (selected given : Nat)
  /-- No element to remove is equal to the value. -/
  | removeNotFound
  /-- No element in the window is equal to the value. -/
  | indexNotFound
  /-- A value of kind `value` does not go into a list of kind `list`. -/
  | notRepresentable (value list : Kind)
  /-- Two kinds promote to no common kind. -/
  | noCommonKind (left right : Kind)
  /-- There is neither a value nor a declared kind to infer a kind from. -/
  | cannotInferKind
  /-- The number of elements, before any byte is counted, exceeds a word. -/
  | countOverflow
  /-- The buffer could not be had. -/
  | allocation (cause : AllocError)
  /-- A null list or hook table came across the calling convention. -/
  | nullHandle
  /-- A failure reported by a source of elements, in its own words. -/
  | reported (category : Category) (message : String)
deriving DecidableEq, Repr

/-- The category of an allocation failure. -/
def AllocError.category : AllocError → Category
  | sizeOverflow .. => .sizeOverflow
  | outOfMemory _ => .outOfMemory

namespace ListError

/-- The category of a failure. -/
def category : ListError → Category
  | indexOutOfRange | assignmentOutOfRange | popFromEmpty | popOutOfRange => .index
  | zeroStep | lengthMismatch .. | removeNotFound | indexNotFound => .value
  | notRepresentable .. | noCommonKind .. | cannotInferKind | nullHandle => .type
  | countOverflow => .sizeOverflow
  | allocation cause => cause.category
  | reported category _ => category

/-- The wording of a failure. -/
def message : ListError → String
  | indexOutOfRange => "list index out of range"
  | assignmentOutOfRange => "list assignment index out of range"
  | popFromEmpty => "pop from empty list"
  | popOutOfRange => "pop index out of range"
  | zeroStep => "slice step cannot be zero"
  | lengthMismatch selected given =>
    "cannot resize extended list slice with step != 1 " ++
      s!"(slice has {selected} elements, replacement has {given})"
  | removeNotFound => "list.remove(x): x not in list"
  | indexNotFound => "list.index(x): x not in list"
  | notRepresentable value list =>
    "cannot store a " ++ value.name ++ " value in a list of " ++ list.name
  | noCommonKind left right =>
    "cannot unify list element kinds " ++ left.name ++ " and " ++ right.name
  | cannotInferKind => "cannot infer element kind of an empty list"
  | countOverflow => "cannot allocate list: element count overflows"
  | allocation cause => "cannot allocate list: " ++ cause.message
  | nullHandle => "list handle is null"
  | reported _ message => message

end ListError
end ListRuntime
