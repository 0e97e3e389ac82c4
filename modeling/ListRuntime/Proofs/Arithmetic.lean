import ListRuntime.Proofs.Slice

/-!
# Arithmetic of positions

Positions are computed in words, and words wrap round without a sign of it.  Here the same
computations are written down over any `Arithmetic`, so that they can be done twice: in words, where
they are those of the library, and over the integers, where they come to nothing as soon as a number
on the way is none that a word holds.  They never come to nothing.

* `Arithmetic` is what positions are computed with; `Arithmetic.words` wraps round, and
  `Arithmetic.exact` is over the integers, with a check on every number.
* `Arithmetic.resolveIndex`, `clampPosition`, `resolve`, `position` and `ascending` are the
  computations, step by step.
* `words_resolveIndex` and so on say that in words they are those of the library,
  `exact_resolveIndex` and so on that over the integers they come to the same.
-/

set_option autoImplicit false

namespace ListRuntime

/-! ## Computations -/

/-- What positions are computed with: numbers, and the operations on them that may go wrong.  What
comes of an operation is said in `m`. -/
structure Arithmetic (m : Type → Type) (I : Type) where
  /-- A word as a number. -/
  ofWord : Int64 → I
  /-- A sum. -/
  add : I → I → m I
  /-- A difference. -/
  sub : I → I → m I
  /-- A product. -/
  mul : I → I → m I
  /-- A number of elements as a signed number. -/
  ofCount : Nat → m I
  /-- A signed number as a position. -/
  toPosition : I → m Nat
  /-- The magnitude of a signed number. -/
  magnitude : I → m Nat

/-- A selection whose bounds and step are numbers of some kind. -/
structure Walk (I : Type) where
  start : I
  stop : I
  step : I
  count : Nat

/-- A selection, in words as it is. -/
def Selection.inWords (selection : Selection) : Walk Int64 :=
  ⟨selection.start, selection.stop, selection.step, selection.count⟩

/-- A selection, in integers. -/
def Selection.inIntegers (selection : Selection) : Walk Int :=
  ⟨selection.start.toInt, selection.stop.toInt, selection.step.toInt, selection.count⟩

namespace Selection

variable (selection : Selection)

@[simp] theorem inIntegers_start : selection.inIntegers.start = selection.start.toInt := rfl

@[simp] theorem inIntegers_step : selection.inIntegers.step = selection.step.toInt := rfl

@[simp] theorem inIntegers_count : selection.inIntegers.count = selection.count := rfl

end Selection

namespace Arithmetic

section
variable {m : Type → Type} [Monad m] {I : Type} (arithmetic : Arithmetic m I)
variable [DecidableEq I] [LT I] [DecidableLT I] [Max I] [Min I]

/-- A length as a signed number; of one that no word holds, the greatest that does. -/
def signedLength (length : Nat) : m I := arithmetic.ofCount (min length maxObjectBytes)

/-- An index, counted from the start of the list. -/
def fromStart (index : I) (length : Nat) : m I :=
  if index < arithmetic.ofWord 0 then do arithmetic.add index (← arithmetic.signedLength length)
  else pure index

/-- The position that an index names, if there is one. -/
def resolveIndex (index : I) (length : Nat) : m (Option Nat) := do
  let resolved ← arithmetic.fromStart index length
  if resolved < arithmetic.ofWord 0 then return none
  let position ← arithmetic.toPosition resolved
  return if position < length then some position else none

/-- A bound counted from the end if it is negative, and moved between a least one and a greatest
one. -/
def clamp (len lower upper bound : I) : m I :=
  if bound < arithmetic.ofWord 0 then return max (← arithmetic.add bound len) lower
  else return min bound upper

/-- The place to insert at. -/
def clampPosition (position : I) (length : Nat) : m Nat := do
  let len ← arithmetic.signedLength length
  arithmetic.toPosition (← arithmetic.clamp len (arithmetic.ofWord 0) len position)

/-- The least and the greatest bound of a slice. -/
def limits (step len : I) : m (I × I) :=
  if step < arithmetic.ofWord 0 then
    return (arithmetic.ofWord (-1), ← arithmetic.sub len (arithmetic.ofWord 1))
  else return (arithmetic.ofWord 0, len)

/-- The distance between two bounds in the direction of a step. -/
def span (step start stop : I) : m I :=
  if step < arithmetic.ofWord 0 then arithmetic.sub start stop else arithmetic.sub stop start

/-- How many steps start within a span. -/
def count (span step : I) : m Nat :=
  if arithmetic.ofWord 0 < span then
    return stepsWithin (← arithmetic.magnitude span) (← arithmetic.magnitude step)
  else return 0

/-- What a slice selects, if its step is not zero. -/
def resolve (start stop step : Option I) (length : Nat) : m (Except ListError (Walk I)) := do
  let step := step.getD (arithmetic.ofWord 1)
  if step = arithmetic.ofWord 0 then return .error .zeroStep
  let len ← arithmetic.signedLength length
  let (lower, upper) ← arithmetic.limits step len
  let near := if step < arithmetic.ofWord 0 then upper else lower
  let start ← (start.map (arithmetic.clamp len lower upper)).getD (pure near)
  let far := if step < arithmetic.ofWord 0 then lower else upper
  let stop ← (stop.map (arithmetic.clamp len lower upper)).getD (pure far)
  let count ← arithmetic.count (← arithmetic.span step start stop) step
  return .ok ⟨start, stop, step, count⟩

/-- The `k`-th selected position. -/
def position (walk : Walk I) (k : Nat) : m Nat := do
  let offset ← arithmetic.mul (← arithmetic.ofCount k) walk.step
  arithmetic.toPosition (← arithmetic.add walk.start offset)

/-- The least selected position and the distance between neighbours. -/
def ascending (walk : Walk I) : m (Nat × Nat) := do
  if walk.count = 0 then return (0, 1)
  let stride ← arithmetic.magnitude walk.step
  let least := if arithmetic.ofWord 0 < walk.step then 0 else walk.count - 1
  return (← arithmetic.position walk least, stride)

end

/-! ## In words -/

/-- Arithmetic in words.  It wraps round, and the only position that a negative number can be is
zero. -/
def words : Arithmetic Id Int64 where
  ofWord i := i
  add i j := pure (i + j)
  sub i j := pure (i - j)
  mul i j := pure (i * j)
  ofCount n := pure (.ofNat n)
  toPosition i := pure i.toNatClampNeg
  magnitude i := pure (ListRuntime.magnitude i)

theorem words_fromStart (index : Int64) (length : Nat) : words.fromStart index length =
    pure (if index < 0 then index + ListRuntime.signedLength length else index) :=
  (apply_ite pure _ _ _).symm

theorem words_resolveIndex (index : Int64) (length : Nat) :
    words.resolveIndex index length = pure (ListRuntime.resolveIndex index length) := by
  have hneg (i : Int64) : i < 0 ↔ ¬ 0 ≤ i := by rw [lt_zero_iff, zero_le_iff]; omega
  rw [resolveIndex, words_fromStart, pure_bind, ListRuntime.resolveIndex]
  generalize (if index < 0 then index + ListRuntime.signedLength length else index) = resolved
  by_cases h : 0 ≤ resolved <;> simp [words, hneg, h]

/-- A bound, clamped in words. -/
def clamped (len lower upper bound : Int64) : Int64 :=
  if bound < 0 then max (bound + len) lower else min bound upper

theorem words_clamp (len lower upper bound : Int64) :
    words.clamp len lower upper bound = pure (clamped len lower upper bound) :=
  (apply_ite pure _ _ _).symm

theorem words_clampPosition (position : Int64) (length : Nat) :
    words.clampPosition position length = pure (ListRuntime.clampPosition position length) := by
  change words.clamp _ 0 _ position >>= words.toPosition = _
  rw [words_clamp]
  rfl

theorem words_limits (step len : Int64) : words.limits step len =
    pure (if step < 0 then -1 else 0, if step < 0 then len - 1 else len) := by
  rw [limits]
  change (if step < 0 then _ else _) = _
  split <;> rfl

theorem words_span (step start stop : Int64) : words.span step start stop =
    pure (if step < 0 then start - stop else stop - start) :=
  (apply_ite pure _ _ _).symm

/-- Nothing starts within a span that goes the wrong way. -/
theorem count_eq (span step : Int64) :
    (if 0 < span then stepsWithin (ListRuntime.magnitude span) (ListRuntime.magnitude step)
      else 0) = stepsWithin span.toNatClampNeg (ListRuntime.magnitude step) := by
  rw [ListRuntime.magnitude, Int64.toNatClampNeg]
  by_cases hpos : 0 < span.toInt
  · have habs : span.toInt.natAbs = span.toInt.toNat := by omega
    rw [if_pos ((zero_lt_iff span).2 hpos), habs]
  · have hzero : span.toInt.toNat = 0 := by omega
    rw [if_neg (mt (zero_lt_iff span).1 hpos), hzero]
    rfl

theorem words_count (span step : Int64) : words.count span step =
    pure (stepsWithin span.toNatClampNeg (ListRuntime.magnitude step)) := by
  rw [← count_eq]
  exact (apply_ite pure _ _ _).symm

/-- A bound that may be left out, in words. -/
theorem words_getD (bound : Option Int64) (len lower upper default : Int64) :
    (bound.map (words.clamp len lower upper)).getD (pure default) =
      pure ((bound.map (clamped len lower upper)).getD default) := by
  cases bound with
  | none => rfl
  | some bound => exact words_clamp len lower upper bound

theorem words_resolve (slice : Slice) (length : Nat) :
    words.resolve slice.start slice.stop slice.step length =
      pure ((slice.resolve length).map Selection.inWords) := by
  have hlength : words.signedLength length = pure (ListRuntime.signedLength length) := rfl
  have hword (i : Int64) : words.ofWord i = i := rfl
  rw [resolve, Slice.resolve]
  simp only [hword, hlength, pure_bind, words_limits]
  by_cases hzero : slice.step.getD 1 = 0
  · rw [if_pos hzero, if_pos hzero]
    rfl
  · rw [if_neg hzero, if_neg hzero]
    simp only [words_getD, words_span, words_count, pure_bind]
    rfl

theorem words_position (selection : Selection) (k : Nat) :
    words.position selection.inWords k = pure (selection.position k) := rfl

theorem words_ascending (selection : Selection) :
    words.ascending selection.inWords = pure selection.ascending := by
  rw [ascending, Selection.ascending]
  by_cases hcount : selection.count = 0
  · rw [if_pos hcount]
    exact if_pos hcount
  · rw [if_neg hcount]
    refine (if_neg hcount).trans ?_
    by_cases hup : 0 < selection.step
    · rw [if_pos hup]
      exact congrArg (fun least ↦ pure (selection.position least, _)) (if_pos hup)
    · rw [if_neg hup]
      exact congrArg (fun least ↦ pure (selection.position least, _)) (if_neg hup)

/-! ## Over the integers -/

instance (i : Int) : Decidable (FitsWord i) := inferInstanceAs (Decidable (_ ∧ _))

/-- The integer, if a signed word holds it. -/
def signed? (i : Int) : Option Int := if FitsWord i then some i else none

/-- The integer, if an unsigned word holds it. -/
def unsigned? (i : Int) : Option Nat := if 0 ≤ i ∧ i < wordLimit then some i.toNat else none

/-- Arithmetic over the integers.  What no word holds is nothing. -/
def exact : Arithmetic Option Int where
  ofWord := Int64.toInt
  add i j := signed? (i + j)
  sub i j := signed? (i - j)
  mul i j := signed? (i * j)
  ofCount n := signed? n
  toPosition := unsigned?
  magnitude i := unsigned? i.natAbs

@[simp] theorem exact_zero : exact.ofWord 0 = 0 := rfl

@[simp] theorem exact_one : exact.ofWord 1 = 1 := rfl

@[simp] theorem exact_minus_one : exact.ofWord (-1) = -1 := rfl

section
variable {i j : Int}

theorem wordLimit_eq : wordLimit = 18446744073709551616 := by decide

theorem signed?_eq (h : FitsWord i) : signed? i = some i := if_pos h

theorem exact_add (h : FitsWord (i + j)) : exact.add i j = some (i + j) := by
  simp only [exact, signed?_eq h]

theorem exact_sub (h : FitsWord (i - j)) : exact.sub i j = some (i - j) := by
  simp only [exact, signed?_eq h]

theorem exact_mul (h : FitsWord (i * j)) : exact.mul i j = some (i * j) := by
  simp only [exact, signed?_eq h]

theorem exact_ofCount {n : Nat} (h : n ≤ maxObjectBytes) : exact.ofCount n = some (n : Int) := by
  rw [maxObjectBytes_eq] at h
  have hfits : FitsWord n := ⟨by omega, by omega⟩
  simp only [exact, signed?_eq hfits]

theorem unsigned?_eq (h : 0 ≤ i) (hword : i < wordLimit) : unsigned? i = some i.toNat :=
  if_pos ⟨h, hword⟩

theorem exact_toPosition (i : Int64) (h : 0 ≤ i.toInt) :
    exact.toPosition i.toInt = some i.toNatClampNeg := by
  have hword : i.toInt < wordLimit := by
    obtain ⟨-, hhi⟩ := fitsWord_toInt i
    rw [wordLimit_eq]
    omega
  simp only [exact, unsigned?_eq h hword]
  rfl

theorem exact_toPosition_natCast {n : Nat} (h : n < wordLimit) :
    exact.toPosition n = some n := by
  simp only [exact, unsigned?_eq (Int.natCast_nonneg n) (Int.ofNat_lt.2 h), Int.toNat_natCast]

theorem exact_magnitude (i : Int64) :
    exact.magnitude i.toInt = some (ListRuntime.magnitude i) := by
  have hword : (i.toInt.natAbs : Int) < wordLimit := by
    obtain ⟨hlo, hhi⟩ := fitsWord_toInt i
    rw [wordLimit_eq]
    omega
  simp only [exact, unsigned?_eq (Int.natCast_nonneg _) hword, Int.toNat_natCast]
  rfl

end

section
variable {len lower upper : Int64}

theorem toInt_signedLength_nonneg (length : Nat) : 0 ≤ (ListRuntime.signedLength length).toInt := by
  rw [ListRuntime.signedLength, toInt_ofNat (Nat.min_le_right length maxObjectBytes)]
  exact Int.natCast_nonneg _

theorem exact_signedLength (length : Nat) :
    exact.signedLength length = some (ListRuntime.signedLength length).toInt := by
  have hle : min length maxObjectBytes ≤ maxObjectBytes := Nat.min_le_right _ _
  rw [ListRuntime.signedLength, toInt_ofNat hle]
  exact exact_ofCount hle

/-- A negative number and a length do not add up to more than a word holds. -/
theorem toInt_add_of_neg {i : Int64} (hneg : i.toInt < 0) (hlen : 0 ≤ len.toInt) :
    FitsWord (i.toInt + len.toInt) ∧ (i + len).toInt = i.toInt + len.toInt := by
  have hi := fitsWord_toInt i
  have hfits : FitsWord (i.toInt + len.toInt) :=
    ⟨by have := hi.1; omega, by have := (fitsWord_toInt len).2; omega⟩
  exact ⟨hfits, toInt_add hfits⟩

theorem exact_fromStart (index : Int64) (length : Nat) :
    exact.fromStart index.toInt length =
      some (if index < 0 then index + ListRuntime.signedLength length else index).toInt := by
  rw [fromStart, exact_signedLength, exact_zero]
  by_cases hneg : index.toInt < 0
  · obtain ⟨hfits, hsum⟩ := toInt_add_of_neg hneg (toInt_signedLength_nonneg length)
    rw [if_pos hneg, if_pos ((lt_zero_iff index).2 hneg), hsum]
    exact exact_add hfits
  · rw [if_neg hneg, if_neg (mt (lt_zero_iff index).1 hneg)]
    rfl

theorem exact_resolveIndex (index : Int64) (length : Nat) :
    exact.resolveIndex index.toInt length = some (ListRuntime.resolveIndex index length) := by
  rw [resolveIndex, exact_fromStart, ListRuntime.resolveIndex]
  generalize (if index < 0 then index + ListRuntime.signedLength length else index) = resolved
  by_cases h : resolved.toInt < 0
  · have hword : ¬ 0 ≤ resolved := by rw [zero_le_iff]; omega
    exact (if_pos h).trans (congrArg some (if_neg fun hand ↦ hword hand.1).symm)
  · have hword : 0 ≤ resolved := by rw [zero_le_iff]; omega
    refine (if_neg h).trans ?_
    rw [exact_toPosition resolved (by omega)]
    simp [hword]

theorem exact_clamp (hlen : 0 ≤ len.toInt) (bound : Int64) :
    exact.clamp len.toInt lower.toInt upper.toInt bound.toInt =
      some (clamped len lower upper bound).toInt := by
  rw [clamp, clamped, exact_zero]
  by_cases hneg : bound.toInt < 0
  · obtain ⟨hfits, hsum⟩ := toInt_add_of_neg hneg hlen
    rw [if_pos hneg, if_pos ((lt_zero_iff bound).2 hneg), exact_add hfits, toInt_max, hsum]
    rfl
  · rw [if_neg hneg, if_neg (mt (lt_zero_iff bound).1 hneg), toInt_min]
    rfl

/-- What the least and the greatest bound have to do with a length. -/
structure Limits (len lower upper : Int64) : Prop where
  nonneg : 0 ≤ len.toInt
  lower_le : lower.toInt ≤ 0
  lower_le_upper : lower.toInt ≤ upper.toInt
  le_upper : len.toInt - 1 ≤ upper.toInt
  upper_le : upper.toInt ≤ lower.toInt + len.toInt

theorem toInt_sub_one (hlen : 0 ≤ len.toInt) :
    FitsWord (len.toInt - 1) ∧ (len - 1).toInt = len.toInt - 1 := by
  obtain ⟨-, hhi⟩ := fitsWord_toInt len
  have hfits : FitsWord (len.toInt - 1) := ⟨by omega, by omega⟩
  exact ⟨hfits, toInt_sub hfits⟩

theorem limits_of_step (step : Int64) (hlen : 0 ≤ len.toInt) :
    Limits len (if step < 0 then -1 else 0) (if step < 0 then len - 1 else len) := by
  have hzero : (0 : Int64).toInt = 0 := rfl
  have hone : (-1 : Int64).toInt = -1 := rfl
  obtain ⟨-, hsub⟩ := toInt_sub_one hlen
  by_cases hdown : step < 0
  · rw [if_pos hdown, if_pos hdown]
    constructor <;> omega
  · rw [if_neg hdown, if_neg hdown]
    constructor <;> omega

theorem Limits.near_mem (h : Limits len lower upper) (step : Int64) :
    lower.toInt ≤ (if step < 0 then upper else lower).toInt ∧
      (if step < 0 then upper else lower).toInt ≤ upper.toInt := by
  have hle := h.lower_le_upper
  split <;> omega

theorem Limits.far_mem (h : Limits len lower upper) (step : Int64) :
    lower.toInt ≤ (if step < 0 then lower else upper).toInt ∧
      (if step < 0 then lower else upper).toInt ≤ upper.toInt := by
  have hle := h.lower_le_upper
  split <;> omega

theorem Limits.clamped_mem (h : Limits len lower upper) (bound : Int64) :
    lower.toInt ≤ (clamped len lower upper bound).toInt ∧
      (clamped len lower upper bound).toInt ≤ upper.toInt := by
  obtain ⟨hlen, hlower, hle, hupper, -⟩ := h
  rw [clamped]
  by_cases hneg : bound.toInt < 0
  · rw [if_pos ((lt_zero_iff bound).2 hneg), toInt_max, (toInt_add_of_neg hneg hlen).2]
    omega
  · rw [if_neg (mt (lt_zero_iff bound).1 hneg), toInt_min]
    omega

theorem exact_clampPosition (position : Int64) (length : Nat) :
    exact.clampPosition position.toInt length =
      some (ListRuntime.clampPosition position length) := by
  have hlen := toInt_signedLength_nonneg length
  rw [clampPosition, exact_signedLength]
  change exact.clamp _ (0 : Int64).toInt _ _ >>= _ = _
  rw [exact_clamp hlen]
  exact exact_toPosition _ ((limits_of_step 1 hlen).clamped_mem position).1

/-- What is chosen by the sign of the step is the same in integers. -/
theorem exact_ite (step i j : Int64) :
    (if step.toInt < exact.ofWord 0 then i.toInt else j.toInt) =
      (if step < 0 then i else j).toInt := by
  rw [exact_zero, apply_ite Int64.toInt]
  simp only [lt_zero_iff]

theorem exact_limits (step : Int64) (hlen : 0 ≤ len.toInt) : exact.limits step.toInt len.toInt =
    some ((if step < 0 then -1 else 0 : Int64).toInt,
      (if step < 0 then len - 1 else len).toInt) := by
  obtain ⟨hfits, hsub⟩ := toInt_sub_one hlen
  rw [limits, exact_one, exact_sub hfits, ← hsub, ← exact_ite, ← exact_ite]
  split <;> rfl

theorem exact_span (h : Limits len lower upper) (step : Int64) {start stop : Int64}
    (hstart : lower.toInt ≤ start.toInt ∧ start.toInt ≤ upper.toInt)
    (hstop : lower.toInt ≤ stop.toInt ∧ stop.toInt ≤ upper.toInt) :
    exact.span step.toInt start.toInt stop.toInt =
      some (if step < 0 then start - stop else stop - start).toInt := by
  obtain ⟨-, hhi⟩ := fitsWord_toInt len
  have hdistance := h.upper_le
  have hdown : FitsWord (start.toInt - stop.toInt) := ⟨by omega, by omega⟩
  have hup : FitsWord (stop.toInt - start.toInt) := ⟨by omega, by omega⟩
  rw [span, exact_zero, exact_sub hdown, exact_sub hup, ← toInt_sub hdown, ← toInt_sub hup,
    apply_ite Int64.toInt, apply_ite some]
  simp only [lt_zero_iff]

theorem exact_count (span step : Int64) : exact.count span.toInt step.toInt =
    some (stepsWithin span.toNatClampNeg (ListRuntime.magnitude step)) := by
  rw [← count_eq, count, exact_zero, exact_magnitude, exact_magnitude, apply_ite some]
  simp only [zero_lt_iff]
  rfl

theorem Limits.exact_getD (h : Limits len lower upper) (bound : Option Int64) {default : Int64}
    (hdefault : lower.toInt ≤ default.toInt ∧ default.toInt ≤ upper.toInt) :
    let reached := (bound.map (clamped len lower upper)).getD default
    ((bound.map Int64.toInt).map (exact.clamp len.toInt lower.toInt upper.toInt)).getD
        (some default.toInt) = some reached.toInt ∧
      lower.toInt ≤ reached.toInt ∧ reached.toInt ≤ upper.toInt := by
  cases bound with
  | none => exact ⟨rfl, hdefault⟩
  | some bound => exact ⟨exact_clamp h.nonneg bound, h.clamped_mem bound⟩

theorem exact_resolve (slice : Slice) (length : Nat) :
    exact.resolve (slice.start.map Int64.toInt) (slice.stop.map Int64.toInt)
        (slice.step.map Int64.toInt) length =
      some ((slice.resolve length).map Selection.inIntegers) := by
  have hstep : (slice.step.map Int64.toInt).getD 1 = (slice.step.getD 1).toInt := by
    cases slice.step <;> rfl
  have hlen := toInt_signedLength_nonneg length
  rw [resolve, Slice.resolve, exact_one, hstep, exact_signedLength]
  generalize slice.step.getD 1 = step
  generalize ListRuntime.signedLength length = len at hlen
  by_cases hzero : step = 0
  · rw [if_pos hzero]
    exact if_pos ((eq_zero_iff step).1 hzero)
  · rw [if_neg hzero]
    refine (if_neg (mt (eq_zero_iff step).2 hzero)).trans ?_
    have h := limits_of_step step hlen
    simp only [Option.bind_eq_bind, Option.bind_some, exact_limits step hlen]
    generalize (if step < 0 then -1 else 0 : Int64) = lower at h
    generalize (if step < 0 then len - 1 else len) = upper at h
    obtain ⟨hstart, hfirst⟩ := h.exact_getD slice.start (h.near_mem step)
    obtain ⟨hstop, hlast⟩ := h.exact_getD slice.stop (h.far_mem step)
    have hspan := exact_span h step hfirst hlast
    simp only [exact_ite, Option.bind_some, Option.pure_def, hstart, hstop, hspan, exact_count]
    rfl

end

section
variable {selection : Selection} {length : Nat}

/-- Neither the offset of a selected position nor the position itself is more than a word holds. -/
theorem exact_position (h : selection.Inside length) {k : Nat} (hk : k < selection.count) :
    exact.position selection.inIntegers k = some (selection.position k) := by
  obtain ⟨hlow, hhigh, hlow', hhigh'⟩ := h.offset hk
  have hcount := h.count_le
  have hlength := h.length_le
  have hlt := h.position_lt hk
  have hofCount : exact.ofCount k = some (k : Int) := exact_ofCount (by omega)
  rw [maxObjectBytes_eq] at hlength
  have hmul : exact.mul k selection.step.toInt = some (k * selection.step.toInt) :=
    exact_mul ⟨by omega, by omega⟩
  have hadd : exact.add selection.start.toInt (k * selection.step.toInt) =
      some (selection.position k : Int) := by
    rw [h.position_eq hk]
    exact exact_add ⟨by omega, by omega⟩
  have hword : selection.position k < wordLimit := by
    rw [wordLimit_eq]
    omega
  rw [position, Selection.inIntegers_start, Selection.inIntegers_step, hofCount]
  simp only [Option.bind_eq_bind, Option.bind_some]
  rw [hmul, Option.bind_some, hadd, Option.bind_some, exact_toPosition_natCast hword]

theorem exact_ascending (h : selection.Inside length) :
    exact.ascending selection.inIntegers = some selection.ascending := by
  rw [ascending, Selection.ascending, Selection.inIntegers_count, Selection.inIntegers_step,
    exact_magnitude, exact_zero]
  by_cases hcount : selection.count = 0
  · simp only [hcount, ↓reduceIte, Option.pure_def]
  · by_cases hup : 0 < selection.step
    · have hleast := exact_position h (k := 0) (by omega)
      simp only [hcount, ← zero_lt_iff, hup, ↓reduceIte, Option.bind_eq_bind, Option.bind_some,
        hleast, Option.pure_def]
    · have hleast := exact_position h (k := selection.count - 1) (by omega)
      simp only [hcount, ← zero_lt_iff, hup, ↓reduceIte, Option.bind_eq_bind, Option.bind_some,
        hleast, Option.pure_def]

/-- A list longer than any is treated as one of the greatest length. -/
theorem resolve_min (slice : Slice) (length : Nat) :
    slice.resolve (min length maxObjectBytes) = slice.resolve length := by
  have hlength : ListRuntime.signedLength (min length maxObjectBytes) =
      ListRuntime.signedLength length := by
    rw [ListRuntime.signedLength, ListRuntime.signedLength, Nat.min_assoc, Nat.min_self]
  rw [Slice.resolve, Slice.resolve, hlength]

/-- **Arithmetic of positions never wraps.**  Whatever the length, an index, a position and a slice
come to the same in words as over the integers with every number on the way checked; so do the
positions that a slice selects, of which there are no more than there are elements. -/
theorem never_wraps (length : Nat) (index : Int64) (slice : Slice) :
    words.resolveIndex index length = pure (ListRuntime.resolveIndex index length) ∧
      exact.resolveIndex index.toInt length = some (ListRuntime.resolveIndex index length) ∧
      words.clampPosition index length = pure (ListRuntime.clampPosition index length) ∧
      exact.clampPosition index.toInt length = some (ListRuntime.clampPosition index length) ∧
      words.resolve slice.start slice.stop slice.step length =
        pure ((slice.resolve length).map Selection.inWords) ∧
      exact.resolve (slice.start.map Int64.toInt) (slice.stop.map Int64.toInt)
          (slice.step.map Int64.toInt) length =
        some ((slice.resolve length).map Selection.inIntegers) ∧
      ∀ selection, slice.resolve length = .ok selection →
        selection.count ≤ length ∧
        words.ascending selection.inWords = pure selection.ascending ∧
        exact.ascending selection.inIntegers = some selection.ascending ∧
        ∀ k < selection.count,
          words.position selection.inWords k = pure (selection.position k) ∧
          exact.position selection.inIntegers k = some (selection.position k) := by
  refine ⟨words_resolveIndex index length, exact_resolveIndex index length,
    words_clampPosition index length, exact_clampPosition index length,
    words_resolve slice length, exact_resolve slice length, fun selection hresolve ↦ ?_⟩
  rw [← resolve_min] at hresolve
  have hinside := Slice.inside_of_resolve (Nat.min_le_right length maxObjectBytes) hresolve
  have hcount := hinside.count_le
  exact ⟨by omega, words_ascending selection, exact_ascending hinside,
    fun k hk ↦ ⟨words_position selection k, exact_position hinside hk⟩⟩

/-- The longest step there is, downwards, in a list longer than any. -/
theorem never_wraps_minValue :
    let slice : Slice := ⟨none, some 0, some Int64.minValue⟩
    let selection : Selection := ⟨9223372036854775806, 0, Int64.minValue, 1⟩
    slice.resolve 9223372036854775810 = .ok selection ∧
      selection.count ≤ 9223372036854775810 ∧
      exact.ascending selection.inIntegers = some selection.ascending ∧
      exact.position selection.inIntegers 0 = some (selection.position 0) := by
  intro slice selection
  have hresolve : slice.resolve 9223372036854775810 = .ok selection := by decide
  obtain ⟨-, -, -, -, -, -, h⟩ := never_wraps 9223372036854775810 Int64.minValue slice
  obtain ⟨hcount, -, hascending, hposition⟩ := h selection hresolve
  exact ⟨hresolve, hcount, hascending, (hposition 0 (by decide)).2⟩

end

end Arithmetic
end ListRuntime
