/-!
# Allocation requests

A buffer of `count` slots of `size` bytes asks the allocator for `count * size` bytes.  Before the
allocator is asked at all, the request has to be representable: a count is a 64-bit word, and no
object may be larger than `maxObjectBytes`.

* `Layout` is the size and alignment of a slot, or of a whole buffer.
* `Layout.maxElements` is the greatest number of slots a buffer can hold.
* `requestBytes` and `Layout.array` turn a count into bytes, or say that they cannot.
-/

set_option autoImplicit false

namespace ListRuntime

/-- One more than the greatest count a machine word holds. -/
def wordLimit : Nat := Nat.pow 2 64

/-- The largest object, in bytes, that an allocator can be asked for. -/
def maxObjectBytes : Nat := Nat.pow 2 63 - 1

/-- The size and the alignment, in bytes, of a slot or of a buffer. -/
structure Layout where
  /-- How many bytes it takes. -/
  size : Nat
  /-- Its address is a multiple of this. -/
  align : Nat
deriving DecidableEq, Repr

/-- Why a buffer could not be had. -/
inductive AllocError where
  /-- The request cannot be written down: `count` slots of `size` bytes exceed the limits. -/
  | sizeOverflow (count size : Nat)
  /-- The allocator was asked for `bytes` bytes and refused. -/
  | outOfMemory (bytes : Nat)
deriving DecidableEq, Repr

/-- The wording of an allocation failure. -/
def AllocError.message : AllocError → String
  | sizeOverflow count size => s!"size of {count} elements of {size} bytes overflows"
  | outOfMemory bytes => s!"out of memory requesting {bytes} bytes"

/-- The byte size of `count` slots of `size` bytes.  It fails when the product exceeds
`maxObjectBytes`; the product is taken over the unbounded naturals, so that a product too large for
a word is refused along with it. -/
def requestBytes (count size : Nat) : Except AllocError Nat :=
  if count * size ≤ maxObjectBytes then .ok (count * size) else .error (.sizeOverflow count size)

namespace Layout

/-- What a slot must satisfy to be repeated: it has bytes, and slots one after the other are all
aligned.  Alignments are powers of two. -/
structure IsSlot (slot : Layout) : Prop where
  /-- A slot has bytes. -/
  size_pos : 0 < slot.size
  /-- The next slot is aligned too. -/
  align_dvd_size : slot.align ∣ slot.size
  /-- The alignment is a power of two. -/
  align_dvd_limit : slot.align ∣ maxObjectBytes + 1

/-- The greatest number of slots of this layout in one buffer.  Slots without bytes are limited by
the word alone. -/
def maxElements (slot : Layout) : Nat :=
  if slot.size = 0 then wordLimit - 1 else maxObjectBytes / slot.size

/-- The layout of a buffer of `count` slots.  The size must leave room for being rounded up to the
alignment without passing `maxObjectBytes`. -/
def array (slot : Layout) (count : Nat) : Except AllocError Layout := do
  let bytes ← requestBytes count slot.size
  if bytes ≤ maxObjectBytes - (slot.align - 1) then
    return ⟨bytes, slot.align⟩
  else
    throw (.sizeOverflow count slot.size)

end Layout
end ListRuntime
