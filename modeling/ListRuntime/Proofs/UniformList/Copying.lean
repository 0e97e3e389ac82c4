import ListRuntime.Proofs.UniformList.Capacity

/-!
# What appending costs

A buffer that is full moves all its elements when it grows.  Growing by a factor makes up for that:
the elements moved by a run of appends, all in all, are no more than a fixed multiple of the
elements appended.

* `UniformList.relocations` lists where the buffer moved in a run of appends.
* `GrowthFactor.costLimit` is the multiple.
* `Paid` is what pays for it: as long as the buffer can grow freely, each slot has set something
  aside for the next move.  `Paid.grow` is the step at which the buffer moves, and
  `moved_relocations_le` is the whole run.
-/

set_option autoImplicit false

namespace ListRuntime

open ListRuntime.Action Course

/-! ## Growing pays for moving -/

/-- How often an element is moved on average, at the most. -/
def GrowthFactor.costLimit : GrowthFactor → Nat
  | double => 2
  | threeHalves => 4
  | fiveQuarters => 8

theorem GrowthFactor.costLimit_pos (factor : GrowthFactor) : 0 < factor.costLimit := by
  cases factor <;> decide

/-- Growing by the factor, and by a slot at least, is enough for the new slots to pay for the next
move. -/
theorem GrowthFactor.le_costLimit_mul (factor : GrowthFactor) {capacity next : Nat}
    (hlt : capacity < next) (happly : capacity + factor.extra capacity ≤ next) :
    factor.costLimit * capacity + next ≤ factor.costLimit * next := by
  -- where the quotient rounds down to nothing, the one slot of `hlt` is all there is
  cases factor <;> dsimp only [costLimit, extra] at happly ⊢ <;> omega

/-- Where the greatest number of slots is not reached, growing is not cut short. -/
theorem Growth.apply_le_nextCapacity (growth : Growth) {capacity required limit : Nat}
    (hlimit : limit < wordLimit) (hrequired : capacity < required)
    (hnext : growth.nextCapacity capacity required limit < limit) :
    capacity + growth.factor.extra capacity ≤ growth.nextCapacity capacity required limit := by
  rw [nextCapacity, if_neg (Nat.not_le.2 hrequired), GrowthFactor.apply] at hnext ⊢
  omega

/-- What has been moved so far is paid for by the elements, and as long as the buffer can grow
freely, so is the next move. -/
structure Paid (factor : GrowthFactor) (limit length capacity moved : Nat) : Prop where
  /-- The elements have paid for all moves. -/
  moved_le : moved ≤ factor.costLimit * length
  /-- A full buffer will have paid for the move that is due. -/
  saved : capacity < limit → moved + capacity ≤ factor.costLimit * capacity

section
variable {growth : Growth} {limit length capacity moved : Nat}

/-- An empty list owes nothing. -/
theorem paid_zero (factor : GrowthFactor) (limit capacity : Nat) :
    Paid factor limit 0 capacity 0 := by
  refine ⟨Nat.zero_le _, fun _ ↦ ?_⟩
  rw [Nat.zero_add]
  exact Nat.le_mul_of_pos_left capacity factor.costLimit_pos

/-- An element more, in a slot that is free. -/
theorem Paid.fill (h : Paid growth.factor limit length capacity moved) :
    Paid growth.factor limit (length + 1) capacity moved :=
  ⟨Nat.le_trans h.moved_le (Nat.mul_le_mul_left _ (Nat.le_succ length)), h.saved⟩

/-- An element more, for which a full buffer moves. -/
theorem Paid.grow (h : Paid growth.factor limit length length moved) (hlimit : limit < wordLimit)
    (hnext : growth.nextCapacity length (length + 1) limit ≤ limit) :
    Paid growth.factor limit (length + 1) (growth.nextCapacity length (length + 1) limit)
      (moved + length) := by
  have hlt : length < growth.nextCapacity length (length + 1) limit :=
    growth.le_nextCapacity length (length + 1) limit
  have hsaved := h.saved (Nat.lt_of_lt_of_le hlt hnext)
  refine ⟨Nat.le_trans hsaved (Nat.mul_le_mul_left _ (Nat.le_succ length)), fun hfree ↦ ?_⟩
  calc moved + length + growth.nextCapacity length (length + 1) limit
    _ ≤ growth.factor.costLimit * length + growth.nextCapacity length (length + 1) limit :=
        Nat.add_le_add_right hsaved _
    _ ≤ growth.factor.costLimit * growth.nextCapacity length (length + 1) limit :=
        growth.factor.le_costLimit_mul hlt
          (growth.apply_le_nextCapacity hlimit (Nat.lt_succ_self length) hfree)

end

/-! ## Runs of appends -/

/-- An element to append, and what its appending meets with. -/
structure Arrival (α : Type) where
  /-- The element. -/
  item : α
  /-- What can be allocated. -/
  mem : Allocator
  /-- Which of the hook calls unwinds. -/
  mishap : Mishap

/-- A buffer that moved. -/
structure Relocation where
  /-- How many slots there were. -/
  before : Nat
  /-- How many slots there are. -/
  after : Nat
deriving DecidableEq, Repr

/-- How many elements moved, all in all.  The buffer was full each time. -/
def Relocation.moved : List Relocation → Nat
  | [] => 0
  | relocation :: relocations => relocation.before + moved relocations

theorem Relocation.moved_append (first second : List Relocation) :
    moved (first ++ second) = moved first + moved second := by
  induction first with
  | nil => exact (Nat.zero_add _).symm
  | cons relocation first ih => rw [List.cons_append, moved, moved, ih, Nat.add_assoc]

namespace UniformList

variable {α : Type} [Element α]

/-- The run that appends an element. -/
def receive (list : UniformList α) (arrival : Arrival α) : Run α (UniformList α) Unit :=
  (append arrival.item).run arrival.mem arrival.mishap list

/-- All elements are appended, one after the other. -/
def ReceivesAll (list : UniformList α) : List (Arrival α) → Prop
  | [] => True
  | arrival :: arrivals => (list.receive arrival).ending = .returned () ∧
      (list.receive arrival).state.ReceivesAll arrivals

/-- The move of the buffer for an element: there is one if no slot was free, or if there are no
longer as many slots. -/
def relocation? (list : UniformList α) (arrival : Arrival α) : Option Relocation :=
  let capacity := (list.receive arrival).state.capacity
  if list.capacity ≤ list.length ∨ capacity ≠ list.capacity then some ⟨list.capacity, capacity⟩
  else none

/-- All moves of the buffer on the way. -/
def relocations (list : UniformList α) : List (Arrival α) → List Relocation
  | [] => []
  | arrival :: arrivals => (list.relocation? arrival).toList ++
      (list.receive arrival).state.relocations arrivals

/-- A list has paid for what was moved. -/
def HasPaid (list : UniformList α) (moved : Nat) : Prop :=
  Paid list.growth.factor (Element.layout α).maxElements list.length list.capacity moved

variable {list : UniformList α} {arrival : Arrival α}

theorem receive_returned (h : (list.receive arrival).ending = .returned ()) :
    ∃ roomy, list.roomForMore arrival.mem 1 = .ok roomy ∧
      (list.receive arrival).state = roomy.holding (roomy.toList ++ [arrival.item]) := by
  have hrun : list.receive arrival =
      (extendCourse arrival.mem [arrival.item] list).run arrival.mishap :=
    append_follows list arrival.item arrival.mishap
  rw [hrun] at h ⊢
  obtain ⟨hresult, hrun⟩ := of_run_returned h
  rw [hrun]
  rw [extendCourse, storeCourse] at hresult ⊢
  change (afterRoom list (list.roomForMore arrival.mem 1) _).result = _ at hresult
  change ∃ roomy, _ ∧ (afterRoom list (list.roomForMore arrival.mem 1) _).state = _
  cases hroom : list.roomForMore arrival.mem 1 with
  | ok roomy => exact ⟨roomy, rfl, rfl⟩
  | error e =>
    rw [hroom] at hresult
    cases hresult

/-- What an element that was appended has to do with the list before. -/
structure Received (list reached : UniformList α) : Prop where
  /-- The buffer is as it must be. -/
  fits : reached.Fits
  /-- There is an element more. -/
  length_eq : reached.length = list.length + 1
  /-- The policy is the same. -/
  growth_eq : reached.growth = list.growth
  /-- The capacity is what the policy says. -/
  capacity_eq : reached.capacity = list.target (list.length + 1)

theorem Fits.received (hfits : list.Fits) (h : (list.receive arrival).ending = .returned ()) :
    Received list (list.receive arrival).state := by
  obtain ⟨roomy, hroom, hstate⟩ := receive_returned h
  have hroomier := roomier_of_roomForMore hroom
  have hlength : (roomy.toList ++ [arrival.item]).length = list.length + 1 := by
    rw [List.length_append, hroomier.toList_eq, length_toList, List.length_singleton]
  have hcapacity := capacity_of_roomForMore hroom
  rw [hstate]
  exact ⟨hfits.holding_roomier hroomier (Nat.le_of_eq hlength), hlength, hroomier.growth_eq,
    hcapacity⟩

/-- Appending one element: what moves is paid for, and if something moves, there is more room. -/
theorem HasPaid.receive {moved : Nat} (hpaid : list.HasPaid moved) (hfits : list.Fits)
    (h : (list.receive arrival).ending = .returned ()) :
    (list.receive arrival).state.HasPaid
        (moved + Relocation.moved (list.relocation? arrival).toList) ∧
      ∀ relocation ∈ (list.relocation? arrival).toList, relocation.before < relocation.after := by
  obtain ⟨hreached, hlength, hgrowth, hcapacity⟩ := hfits.received h
  have hmax := hreached.capacity_le
  have hlimit : (Element.layout α).maxElements < wordLimit :=
    Nat.lt_of_le_of_lt (Layout.maxElements_le Element.isSlot) (by decide)
  rw [relocation?]
  generalize (list.receive arrival).state = reached at *
  rw [HasPaid, hgrowth, hlength]
  by_cases hfull : list.capacity ≤ list.length
  -- nothing is free, so as many elements move as there were slots
  · obtain heq : list.capacity = list.length := Nat.le_antisymm hfull hfits.length_le
    rw [HasPaid, heq] at hpaid
    rw [target, heq] at hcapacity
    rw [if_pos (Or.inl hfull), hcapacity, heq]
    rw [hcapacity] at hmax
    refine ⟨hpaid.grow hlimit hmax, fun relocation hmem ↦ ?_⟩
    obtain rfl : relocation = _ := List.mem_singleton.1 hmem
    exact list.growth.le_nextCapacity list.length (list.length + 1) _
  · have hkept : reached.capacity = list.capacity := by
      rw [hcapacity, target, Growth.nextCapacity_of_le _ _ (by omega)]
    rw [if_neg (by simp [hfull, hkept]), hkept]
    exact ⟨hpaid.fill, by simp⟩

/-- Where there is memory for all elements and no hook call unwinds, all are appended. -/
theorem receivesAll_of_affords (hfits : list.Fits) {arrivals : List (Arrival α)}
    (h : ∀ arrival ∈ arrivals,
      arrival.mishap = none ∧ arrival.mem.Affords α (list.length + arrivals.length)) :
    list.ReceivesAll arrivals := by
  induction arrivals generalizing list with
  | nil => trivial
  | cons arrival arrivals ih =>
    obtain ⟨hmishap, hmem⟩ := h arrival List.mem_cons_self
    rw [List.length_cons] at h hmem
    have hreturned : (list.receive arrival).ending = .returned () := by
      have hone : arrival.mem.Affords α (list.length + 1) := hmem.mono (by omega)
      obtain ⟨roomy, hroom⟩ := hfits.roomForMore_of_affords hone
      rw [receive, append_follows, hmishap, extendCourse, storeCourse, List.length_singleton, hroom]
      rfl
    refine ⟨hreturned, ih (hfits.received hreturned).fits fun other hother ↦ ?_⟩
    rw [(hfits.received hreturned).length_eq, Nat.add_assoc, Nat.add_comm 1]
    exact h other (List.mem_cons_of_mem _ hother)

theorem moved_relocations_le {moved : Nat} (hpaid : list.HasPaid moved) (hfits : list.Fits)
    {arrivals : List (Arrival α)} (h : list.ReceivesAll arrivals) :
    moved + Relocation.moved (list.relocations arrivals) ≤
        list.growth.factor.costLimit * (list.length + arrivals.length) ∧
      ∀ relocation ∈ list.relocations arrivals, relocation.before < relocation.after := by
  induction arrivals generalizing list moved with
  | nil => exact ⟨hpaid.moved_le, by simp [relocations]⟩
  | cons arrival arrivals ih =>
    obtain ⟨hreturned, hrest⟩ := h
    obtain ⟨hreached, hlength, hgrowth, -⟩ := hfits.received hreturned
    obtain ⟨hpaid', hstep⟩ := hpaid.receive hfits hreturned
    obtain ⟨hmoved, hrun⟩ := ih hpaid' hreached hrest
    rw [hgrowth, hlength, Nat.add_assoc list.length, Nat.add_comm 1] at hmoved
    rw [relocations, Relocation.moved_append, ← Nat.add_assoc]
    refine ⟨hmoved, fun relocation hmem ↦ ?_⟩
    rcases List.mem_append.1 hmem with hmem | hmem
    · exact hstep relocation hmem
    · exact hrun relocation hmem

/-- **Appending moves each element a few times only.**  If elements are appended to an empty list,
one after the other, what moves all in all is at most twice, four times or eight times as many as
there are elements, by the factor of the policy, whatever its least capacity; and each time
something moves, there is more room than before. -/
theorem append_moves_few (hfits : list.Fits) (hempty : list.length = 0)
    {arrivals : List (Arrival α)} (h : list.ReceivesAll arrivals) :
    Relocation.moved (list.relocations arrivals) ≤
        list.growth.factor.costLimit * arrivals.length ∧
      ∀ relocation ∈ list.relocations arrivals, relocation.before < relocation.after := by
  have hpaid : list.HasPaid 0 := by
    rw [HasPaid, hempty]
    exact paid_zero ..
  have hrun := moved_relocations_le hpaid hfits h
  rwa [hempty, Nat.zero_add, Nat.zero_add] at hrun

/-- By the smallest factor, and one slot at a time. -/
theorem append_moves_few_fiveQuarters :
    let list : UniformList Int64 := empty ⟨0, .fiveQuarters⟩
    let arrivals : List (Arrival Int64) :=
      [⟨3, .boundless, none⟩, ⟨1, .boundless, none⟩, ⟨4, .boundless, none⟩]
    list.relocations arrivals = [⟨0, 1⟩, ⟨1, 2⟩, ⟨2, 3⟩] ∧
      Relocation.moved (list.relocations arrivals) ≤ 8 * 3 := by
  intro list arrivals
  have hfits : list.Fits := fits_empty _
  have hreceives : list.ReceivesAll arrivals := by
    refine receivesAll_of_affords hfits fun arrival harrival ↦ ?_
    obtain rfl | rfl | rfl : arrival = _ ∨ arrival = _ ∨ arrival = _ := by
      simpa [arrivals] using harrival
    all_goals exact ⟨rfl, fun _ ↦ rfl, by decide⟩
  exact ⟨by decide +kernel, (append_moves_few hfits rfl hreceives).1⟩

end UniformList
end ListRuntime
