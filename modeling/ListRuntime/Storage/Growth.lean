import ListRuntime.Storage.Request

/-!
# Growth policies

When an insertion does not fit, a buffer grows to more than is needed at once, so that a run of
insertions moves its elements only a few times.  A `Growth` says by how much.

* `GrowthFactor` is the geometric factor, `Growth` adds the least capacity worth allocating.
* `Growth.nextCapacity` is the capacity to grow to.
-/

set_option autoImplicit false

namespace ListRuntime

/-- The factor by which a full buffer grows. -/
inductive GrowthFactor where
  /-- Twice the capacity. -/
  | double
  /-- One and a half times the capacity. -/
  | threeHalves
  /-- One and a quarter times the capacity. -/
  | fiveQuarters
deriving DecidableEq, Repr

/-- How many slots the factor adds to `capacity`, rounded down. -/
def GrowthFactor.extra : GrowthFactor → Nat → Nat
  | double, capacity => capacity
  | threeHalves, capacity => capacity / 2
  | fiveQuarters, capacity => capacity / 4

/-- The capacity grown by the factor.  It saturates at the greatest word. -/
def GrowthFactor.apply (factor : GrowthFactor) (capacity : Nat) : Nat :=
  min (wordLimit - 1) (capacity + factor.extra capacity)

/-- How a list's buffer grows. -/
structure Growth where
  /-- The first allocation has at least this many slots. -/
  minCapacity : Nat := 4
  /-- The factor of later ones. -/
  factor : GrowthFactor := .double
deriving DecidableEq, Repr

/-- The policy of a list that was not given one. -/
def Growth.standard : Growth := {}

/-- The capacity to grow to from `capacity` so that `required` slots fit.  A capacity that suffices
is kept.  Otherwise the geometric target is clamped to `limit`, but it never falls below
`required`: whether `required` slots can be had is for the allocation to say. -/
def Growth.nextCapacity (growth : Growth) (capacity required limit : Nat) : Nat :=
  if required ≤ capacity then capacity
  else max required (min limit (max growth.minCapacity (growth.factor.apply capacity)))

end ListRuntime
