import ListRuntime.Foreign.ReferenceCall
import ListRuntime.Foreign.ScalarCall
import Mathlib.Logic.Function.Basic

/-!
# A thread of compiled code

There is a family of calls for each kind of elements, with lists of its own.  The failures of all
families go to one and the same error slot.

* `CallFamily` is a family of calls, and `Kind.family` the one for a kind of elements.
* `Thread` is what compiled code works with, and `Request` is all that it may ask for.
-/

set_option autoImplicit false

namespace ListRuntime

/-- A family of calls. -/
structure CallFamily where
  /-- The elements of the lists. -/
  Item : Type
  /-- The lists behind the handles. -/
  Held : Type
  /-- What compiled code has for an element. -/
  Shown : Type
  /-- The calls. -/
  Call : Type
  /-- What a call does. -/
  action : Call → Action Item (Boundary Held) (Reply Shown)

/-- The calls on lists of one type of scalars. -/
def ScalarCall.family (α : Type) [Element α] : CallFamily where
  Item := α
  Held := UniformList α
  Shown := α
  Call := ScalarCall α
  action := ScalarCall.action

/-- The calls on lists of references. -/
def ReferenceCall.family : CallFamily where
  Item := Reference
  Held := ReferenceList
  Shown := UInt64
  Call := ReferenceCall
  action := ReferenceCall.action

/-- The calls on lists of one kind of elements. -/
def Kind.family : Kind → CallFamily
  | .bool => ScalarCall.family Bool
  | .int => ScalarCall.family Int64
  | .float => ScalarCall.family Binary64
  | .ref => ReferenceCall.family

/-- What compiled code works with: the handles of each family, and one error slot for all of
them. -/
structure Thread where
  /-- The handles of each family, under names. -/
  handles (kind : Kind) : Registry (Option kind.family.Held)
  /-- The failure in the error slot. -/
  lastError : Option ListError

/-- What compiled code may ask for. -/
inductive Request where
  /-- A call of one of the families. -/
  | call (kind : Kind) (call : kind.family.Call)
  /-- The status code of the failure in the error slot. -/
  | lastCode
  /-- The wording of that failure. -/
  | lastMessage

namespace Thread

/-- A thread before its first call. -/
def start : Thread := ⟨fun _ ↦ .empty, none⟩

/-- What a family has to do with: its own handles, and the error slot of all. -/
def boundary (thread : Thread) (kind : Kind) : Boundary kind.family.Held :=
  ⟨thread.handles kind, thread.lastError⟩

/-- The thread after a family has changed its handles and the error slot. -/
def put (thread : Thread) (kind : Kind) (boundary : Boundary kind.family.Held) : Thread :=
  ⟨Function.update thread.handles kind boundary.handles, boundary.lastError⟩

/-- What a call does. -/
def run (thread : Thread) (mem : Allocator) (kind : Kind) (call : kind.family.Call) :
    Run kind.family.Item (Boundary kind.family.Held) (Reply kind.family.Shown) :=
  (kind.family.action call).run mem none (thread.boundary kind)

/-- The status code that a thread is told, which is the same for all families. -/
def lastCode (thread : Thread) : Nat := (thread.boundary .bool).lastCode

/-- The wording that a thread is told. -/
def lastMessage (thread : Thread) : String := (thread.boundary .bool).lastMessage

/-- The thread after a request.  To ask about the error slot changes nothing. -/
def next (thread : Thread) (mem : Allocator) : Request → Thread
  | .call kind call => thread.put kind (thread.run mem kind call).state
  | .lastCode | .lastMessage => thread

end Thread
end ListRuntime
