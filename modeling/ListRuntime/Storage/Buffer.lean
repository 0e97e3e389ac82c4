import ListRuntime.Storage.Request

/-!
# Buffers

A `Buffer` is a contiguous run of `capacity` slots of which a first part is filled.  It grows only
when told to, to exactly the capacity asked for, and keeps what it holds when it cannot grow.

* `Allocator` decides which representable requests are granted.
* `Layout.grow` is the capacity after growing, `Buffer.growExact` the buffer after it.
-/

set_option autoImplicit false

namespace ListRuntime

/-- An allocator, seen from outside: which requests, in bytes, it grants. -/
structure Allocator where
  /-- Whether a request of so many bytes is granted. -/
  grants : Nat → Bool

/-- The capacity of a buffer that holds no allocation.  Slots without bytes need none. -/
def Layout.initialCapacity (slot : Layout) : Nat := if slot.size = 0 then wordLimit - 1 else 0

/-- Grow from `capacity` to exactly `wanted` slots.  A smaller or equal wish changes nothing; a
larger one must be representable, and then be granted. -/
def Layout.grow (slot : Layout) (mem : Allocator) (capacity wanted : Nat) :
    Except AllocError Nat := do
  if wanted ≤ capacity then return capacity
  let block ← slot.array wanted
  if mem.grants block.size then return wanted else throw (.outOfMemory block.size)

/-- Slots of `β`, the first `items.size` of them filled. -/
structure Buffer (β : Type) where
  /-- What the filled slots hold, in order. -/
  items : Array β
  /-- How many slots there are. -/
  capacity : Nat

namespace Buffer

variable {β : Type}

/-- A buffer without an allocation. -/
def empty (slot : Layout) : Buffer β := ⟨#[], slot.initialCapacity⟩

/-- What the buffer holds, as a list. -/
def toList (buffer : Buffer β) : List β := buffer.items.toList

/-- The buffer with exactly `wanted` slots, unless it has more already. -/
def growExact (slot : Layout) (mem : Allocator) (buffer : Buffer β) (wanted : Nat) :
    Except AllocError (Buffer β) := do
  return { buffer with capacity := ← slot.grow mem buffer.capacity wanted }

/-- A new buffer of exactly `wanted` slots, all of them free. -/
def withCapacity (slot : Layout) (mem : Allocator) (wanted : Nat) : Except AllocError (Buffer β) :=
  growExact slot mem (empty slot) wanted

/-- Fill the next free slot; without one, nothing happens. -/
def push (buffer : Buffer β) (b : β) : Buffer β :=
  if buffer.items.size < buffer.capacity then { buffer with items := buffer.items.push b }
  else buffer

end Buffer
end ListRuntime
