import ListRuntime.Error
import ListRuntime.Index

/-!
# Slices

A `Slice` is written `start:stop:step`, any part of which may be left out.  Against a list of a
given length it resolves to a `Selection`: the positions it selects, walked from `start` by
`step`.

* `Slice.resolve` fails for a step of zero and for nothing else.
* `Selection.positions` lists the selected positions in slice order.
* `Selection.ascending` describes the same positions walked upwards, and `Selection.selects` tests
  for one of them.
-/

set_option autoImplicit false

namespace ListRuntime

/-- A slice as written. -/
structure Slice where
  start : Option Int64 := none
  stop : Option Int64 := none
  step : Option Int64 := none
deriving DecidableEq, Repr

/-- A slice against a list of known length.  When nothing is selected, `start` may be any bound; a
walk downwards may stop before position zero, at `-1`. -/
structure Selection where
  /-- The first selected position. -/
  start : Int64
  /-- Where the walk ends, in the direction of the step. -/
  stop : Int64
  /-- The distance from one selected position to the next. -/
  step : Int64
  /-- How many positions are selected. -/
  count : Nat
deriving DecidableEq, Repr

/-- The magnitude of a 64-bit number. -/
def magnitude (i : Int64) : Nat := i.toInt.natAbs

/-- How many steps of length `stride` start inside a span of `span` positions. -/
def stepsWithin (span stride : Nat) : Nat := if span = 0 then 0 else (span - 1) / stride + 1

/-- Resolve a slice against a list of `length` elements.  A negative bound counts from the end.
Walking up, bounds are clamped to `0` and `length`; walking down, to `-1` and `length - 1`.  A bound
left out is the end that the step walks away from, or towards. -/
def Slice.resolve (slice : Slice) (length : Nat) : Except ListError Selection :=
  let step := slice.step.getD 1
  if step = 0 then .error .zeroStep
  else
    let len := signedLength length
    let lower : Int64 := if step < 0 then -1 else 0
    let upper : Int64 := if step < 0 then len - 1 else len
    let clamp (bound : Int64) : Int64 :=
      if bound < 0 then max (bound + len) lower else min bound upper
    let start := (slice.start.map clamp).getD (if step < 0 then upper else lower)
    let stop := (slice.stop.map clamp).getD (if step < 0 then lower else upper)
    let span := if step < 0 then start - stop else stop - start
    .ok ⟨start, stop, step, stepsWithin span.toNatClampNeg (magnitude step)⟩

namespace Selection

/-- The `k`-th selected position, for `k < count`. -/
def position (selection : Selection) (k : Nat) : Nat :=
  (selection.start + Int64.ofNat k * selection.step).toNatClampNeg

/-- The selected positions, in slice order. -/
def positions (selection : Selection) : List Nat :=
  (List.range selection.count).map selection.position

/-- Whether the selected positions are adjacent and ascending. -/
def isContiguous (selection : Selection) : Bool := selection.step = 1

/-- The least selected position and the distance between neighbours; `(0, 1)` if nothing is
selected. -/
def ascending (selection : Selection) : Nat × Nat :=
  if selection.count = 0 then (0, 1)
  else if 0 < selection.step then (selection.position 0, magnitude selection.step)
  else (selection.position (selection.count - 1), magnitude selection.step)

/-- Whether a position is one of the selected ones. -/
def selects (selection : Selection) (position : Nat) : Bool :=
  let (first, stride) := selection.ascending
  let offset := position - first
  first ≤ position && offset % stride = 0 && offset / stride < selection.count

end Selection
end ListRuntime
