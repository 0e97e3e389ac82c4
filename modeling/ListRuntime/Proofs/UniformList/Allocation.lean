import ListRuntime.Proofs.UniformList.Capacity
import ListRuntime.Proofs.UniformList.Failure

/-!
# What becomes of requests for room

An operation that needs room for so many elements either has it, or fails in one of two ways: the
elements would be more than any buffer can have, or the allocator refuses.  Which of these it is, is
decided by the number of elements alone, taken without any bound, and neither by the policy nor by
which of the checks on the way is met first.

* `Layout.verdict` is the decision.
* `DecidedBy` says that a run ends as a verdict has it: a failure comes before anything is done, and
  otherwise the room is there.
* `Operation.needed?`, `Origin.needed?` and `Derivation.needed?` are the numbers of elements.
* `requests_decided`: all requests end as their verdict has it.
-/

set_option autoImplicit false

namespace ListRuntime

open ListRuntime.Action Course

/-! ## Verdicts -/

namespace Layout

variable {slot : Layout} {mem : Allocator} {capacity needed wanted : Nat}

/-- What becomes of a request for `needed` slots, by a buffer of `capacity` slots that would grow to
`wanted` of them.  It is an overflow if the slots needed are more than a buffer can have; otherwise
memory runs out if they are more than there are and the allocator refuses; otherwise the request is
met. -/
def verdict (slot : Layout) (mem : Allocator) (capacity needed wanted : Nat) : Option Category :=
  if slot.maxElements < needed then some .sizeOverflow
  else if capacity < needed ∧ mem.grants (wanted * slot.size) = false then some .outOfMemory
  else none

theorem verdict_of_lt (h : slot.maxElements < needed) :
    slot.verdict mem capacity needed wanted = some .sizeOverflow := if_pos h

/-- Whether it is an overflow depends on what is needed, and on nothing else. -/
theorem verdict_eq_sizeOverflow_iff :
    slot.verdict mem capacity needed wanted = some .sizeOverflow ↔ slot.maxElements < needed := by
  rw [verdict]
  split
  · next h => exact ⟨fun _ ↦ h, fun _ ↦ rfl⟩
  · next h => split <;> simp [h]

/-- What is needed is more than a word can count, and all the more than a buffer can have. -/
theorem verdict_of_wordLimit_le (hslot : slot.IsSlot) (h : wordLimit ≤ needed) :
    slot.verdict mem capacity needed wanted = some .sizeOverflow := by
  have hmax := maxElements_le hslot
  have hword : maxObjectBytes < wordLimit := by decide
  exact verdict_of_lt (by omega)

/-- Where there is memory for what is needed, the request is met, whatever the policy. -/
theorem verdict_of_affords {α : Type} [Element α] (h : mem.Affords α needed)
    (capacity wanted : Nat) :
    (Element.layout α).verdict mem capacity needed wanted = none := by
  have hgranted : ¬ (capacity < needed ∧
      mem.grants (wanted * (Element.layout α).size) = false) := by simp [h.grants]
  rw [verdict, if_neg (Nat.not_lt.2 h.le_maxElements), if_neg hgranted]

/-- A buffer grows as its verdict has it, if it would grow to no less than what is needed and, where
that can be had, to no more than a buffer can have. -/
theorem grow_verdict (mem : Allocator) (hslot : slot.IsSlot) (hneeded : needed ≤ wanted)
    (hkept : needed ≤ capacity → wanted ≤ capacity)
    (hcapacity : capacity ≤ slot.maxElements)
    (hwanted : needed ≤ slot.maxElements → wanted ≤ slot.maxElements) :
    (match slot.grow mem capacity wanted with
      | .ok _ => none
      | .error cause => some cause.category) = slot.verdict mem capacity needed wanted := by
  rw [grow_eq hslot, verdict]
  by_cases hmax : slot.maxElements < needed
  · have hlarge : ¬ wanted ≤ capacity := by omega
    have hover : slot.maxElements < wanted := by omega
    rw [if_pos hmax, if_neg hlarge, if_pos hover]
    rfl
  · have hover : ¬ slot.maxElements < wanted := by omega
    rw [if_neg hmax, if_neg hover]
    by_cases hsuffices : needed ≤ capacity
    · have hnone : ¬ (capacity < needed ∧ mem.grants (wanted * slot.size) = false) := by omega
      rw [if_pos (hkept hsuffices), if_neg hnone]
    · have hlarge : ¬ wanted ≤ capacity := by omega
      rw [if_neg hlarge]
      cases mem.grants (wanted * slot.size) with
      | true => simp
      | false => simp [Nat.not_le.1 hsuffices, AllocError.category]

/-- All checks of a request of so many slots come to the same: that of the product, that of the layout
with its rounding, and the greatest number of slots. -/
structure ChecksAgree (slot : Layout) (count : Nat) : Prop where
  /-- The bytes can be written down. -/
  requestBytes_isOk : (requestBytes count slot.size).isOk = true ↔ count ≤ slot.maxElements
  /-- There is a layout. -/
  array_isOk : (slot.array count).isOk = true ↔ count ≤ slot.maxElements
  /-- The bytes are no more than an object can have. -/
  bytes_le : count * slot.size ≤ maxObjectBytes ↔ count ≤ slot.maxElements

theorem checksAgree (hslot : slot.IsSlot) (count : Nat) : slot.ChecksAgree count := by
  refine ⟨?_, ?_, (le_maxElements_iff hslot).symm⟩
  · rw [requestBytes_eq hslot]
    split
    · next h => exact iff_of_true rfl h
    · next h => exact iff_of_false Bool.false_ne_true h
  · rw [array_eq hslot]
    split
    · next h => exact iff_of_true rfl h
    · next h => exact iff_of_false Bool.false_ne_true h

end Layout

/-- Whether a new buffer can be had is decided by the verdict, and the slots are there then. -/
def Buffer.NewDecided (β : Type) (slot : Layout) (mem : Allocator) (needed : Nat) : Prop :=
  match (Buffer.withCapacity slot mem needed : Except AllocError (Buffer β)) with
  | .ok buffer => slot.verdict mem 0 needed needed = none ∧ needed ≤ buffer.capacity
  | .error cause => slot.verdict mem 0 needed needed = some cause.category

theorem Buffer.newDecided (β : Type) {slot : Layout} (hslot : slot.IsSlot) (mem : Allocator)
    (needed : Nat) : NewDecided β slot mem needed := by
  have hverdict := Layout.grow_verdict mem hslot (Nat.le_refl needed) id (Nat.zero_le _) id
  have hgrow (capacity : Nat) (h : slot.grow mem 0 needed = .ok capacity) :
      needed ≤ capacity := by
    have heq := (Layout.of_grow hslot h).1
    omega
  simp only [NewDecided, withCapacity, growExact, empty, Layout.initialCapacity_eq hslot]
  cases h : slot.grow mem 0 needed with
  | ok capacity =>
    rw [h] at hverdict
    exact ⟨hverdict.symm, hgrow capacity h⟩
  | error cause =>
    rw [h] at hverdict
    exact hverdict.symm

/-- The category in which something failed, if it did. -/
def rejection? {β : Type} : Except ListError β → Option Category
  | .ok _ => none
  | .error e => some e.category

/-- A run ends as a verdict has it: where it says so, the run fails before it has done anything, and
otherwise the run secures what it was to secure. -/
def DecidedBy {α σ β : Type} (verdict : Option Category) (s : σ) (secured : Run α σ β → Prop)
    (run : Run α σ β) : Prop :=
  match verdict with
  | some category => ∃ e : ListError, run = ⟨[], s, .failed e⟩ ∧ e.category = category
  | none => secured run

theorem DecidedBy.of_some {α σ β : Type} {verdict : Option Category} {category : Category} {s : σ}
    {secured : Run α σ β → Prop} {run : Run α σ β} (h : DecidedBy verdict s secured run)
    (hverdict : verdict = some category) :
    ∃ e : ListError, run = ⟨[], s, .failed e⟩ ∧ e.category = category := by
  rw [hverdict] at h
  exact h

theorem DecidedBy.of_none {α σ β : Type} {verdict : Option Category} {s : σ}
    {secured : Run α σ β → Prop} {run : Run α σ β} (h : DecidedBy verdict s secured run)
    (hverdict : verdict = none) : secured run := by
  rw [hverdict] at h
  exact h

/-- A course that only fails calls no hook that could unwind. -/
theorem decidedBy_fail {α σ β : Type} {mishap : Mishap} (s : σ) (e : ListError)
    {secured : Run α σ β → Prop} :
    DecidedBy (some e.category) s secured ((Course.fail s e).run mishap) := by
  refine ⟨e, ?_, rfl⟩
  cases mishap <;> rfl

theorem DecidedBy.imp {α σ β : Type} {verdict : Option Category} {s : σ}
    {secured secured' : Run α σ β → Prop} {run : Run α σ β} (h : DecidedBy verdict s secured run)
    (himp : secured run → secured' run) : DecidedBy verdict s secured' run := by
  cases verdict with
  | some category => exact h
  | none => exact himp h

namespace UniformList

variable {α σ β : Type} {mem : Allocator} {mishap : Mishap}
variable {list : UniformList α} {needed additional : Nat} {f : Unit → β}

/-! ## Runs that have room -/

/-- There is room for `needed` elements in all. -/
def Roomy (needed : Nat) (list : UniformList α) : Prop := needed ≤ list.capacity

/-- A run that leaves room for `needed` elements, however it ends. -/
def HasRoom (needed : Nat) (run : Run α (UniformList α) β) : Prop := Roomy needed run.state

/-- Such a run that does not fail either. -/
def Succeeds (needed : Nat) (run : Run α (UniformList α) β) : Prop :=
  HasRoom needed run ∧ ∀ e, run.ending ≠ .failed e

theorem succeeds_of_ok {course : Course α (UniformList α) β} {b : β} (hok : course.result = .ok b)
    (hkeeps : course.Keeps (Roomy needed)) (mishap : Mishap) :
    Succeeds needed (course.run mishap) := by
  refine ⟨hkeeps.run mishap, fun e he ↦ ?_⟩
  have herror := (of_run_failed he).1
  rw [hok] at herror
  cases herror

/-- What goes on with room is decided by whether there is room. -/
theorem decidedBy_afterRoom {room : Except ListError (UniformList α)}
    {course : UniformList α → Course α (UniformList α) Unit}
    {secured : Run α (UniformList α) β → Prop}
    (h : ∀ roomy, room = .ok roomy → secured (((course roomy).map f).run mishap)) :
    DecidedBy (rejection? room) list secured
      (((afterRoom list room course).map f).run mishap) := by
  cases room with
  | ok roomy => exact h roomy rfl
  | error e => exact decidedBy_fail list e

variable [Element α]

/-- The verdict on a request of a list for `needed` slots. -/
def verdict (mem : Allocator) (list : UniformList α) (needed : Nat) : Option Category :=
  (Element.layout α).verdict mem list.capacity needed (list.target needed)

/-! ## Making room -/

theorem rejection?_roomFor (h : list.Fits) :
    rejection? (list.roomFor mem needed) = list.verdict mem needed := by
  have hgrow := Layout.grow_verdict mem (Element.isSlot (α := α))
    (list.growth.le_nextCapacity list.capacity needed (Element.layout α).maxElements)
    (fun hle ↦ Nat.le_of_eq (list.growth.nextCapacity_of_le _ hle)) h.capacity_le
    (list.growth.nextCapacity_le h.capacity_le)
  rw [verdict, target, ← hgrow, roomFor]
  cases (Element.layout α).grow mem list.capacity (list.growth.nextCapacity list.capacity needed
    (Element.layout α).maxElements) <;> rfl

/-- Counting the elements is one more check, which says nothing new. -/
theorem rejection?_roomForMore (h : list.Fits) :
    rejection? (list.roomForMore mem additional) = list.verdict mem (list.length + additional) := by
  rw [roomForMore]
  split
  · next hlimit => exact (Layout.verdict_of_wordLimit_le Element.isSlot hlimit).symm
  · exact rejection?_roomFor h

theorem rejection?_newRoom (growth : Growth) (room : Nat) :
    rejection? (newRoom mem growth room : Except ListError (UniformList α)) =
      (Element.layout α).verdict mem 0 room room := by
  have hgrow := Layout.grow_verdict mem (Element.isSlot (α := α)) (Nat.le_refl room)
    id (Nat.zero_le _) id
  rw [← hgrow, newRoom]
  cases (Element.layout α).grow mem 0 room <;> rfl

/-! ## Operations -/

/-- How many elements a list has to have room for so that an operation can go on: what it adds is
counted without any bound.  An operation that draws on an iterator has to have room for those that
the iterator announces. -/
def Operation.needed? (list : UniformList α) : Operation α (List α) → Option Nat
  | append _ | insert .. => some (list.length + 1)
  | extendSelf => some (list.length + list.length)
  | extendFromList items => some (list.length + items.length)
  | extend items hint => some (list.length + hint.getD items.length)
  | tryExtend yielded hint => some (list.length + hint.getD yielded.length)
  | ensureCapacity required => some required
  | setSlice slice items =>
    if slice.stride = 1 then
      some (list.length - (slice.walked list.length).length + items.length)
    else none
  | _ => none

theorem decidedBy_store (h : list.Fits) (items : List α) (put : UniformList α → List α) :
    DecidedBy (list.verdict mem (list.length + items.length)) list
      (Succeeds (list.length + items.length))
      (((storeCourse mem items put list).map f).run mishap) := by
  rw [← rejection?_roomForMore h]
  refine decidedBy_afterRoom fun roomy hroom ↦ ?_
  have hroomy : Roomy (list.length + items.length) roomy :=
    (roomier_of_roomForMore hroom).required_le
  refine succeeds_of_ok rfl (Keeps.map ?_) mishap
  exact .takeIn items hroomy hroomy

theorem decidedBy_splice (h : list.Fits) (first removed : Nat) (items : List α)
    (hneeded : needed = (list.toList.take first).length +
      (list.toList.drop (first + removed)).length + items.length) :
    DecidedBy (list.verdict mem needed) list (Succeeds needed)
      (((spliceCourse mem first removed items list).map f).run mishap) := by
  dsimp only [spliceCourse]
  rw [← hneeded]
  split
  · next hlimit =>
    rw [verdict, Layout.verdict_of_wordLimit_le Element.isSlot hlimit]
    exact decidedBy_fail list .countOverflow
  · rw [← rejection?_roomFor h]
    refine decidedBy_afterRoom fun roomy hroom ↦ ?_
    have hroomy : Roomy needed roomy := (roomier_of_roomFor hroom).required_le
    refine succeeds_of_ok rfl (Keeps.map ?_) mishap
    exact .exchange items _ hroomy hroomy hroomy

/-- Assigning to a slice of step one needs room for the new length. -/
theorem decidedBy_setSlice (h : list.Fits) {slice : Slice} (hstride : slice.stride = 1)
    (items : List α) :
    let needed := list.length - (slice.walked list.length).length + items.length
    DecidedBy (list.verdict mem needed) list (Succeeds needed)
      (((setSliceCourse mem slice items list).map f).run mishap) := by
  intro needed
  have hle := Slice.first_add_length_walked_le h.length_le_max hstride
  rw [setSliceCourse_of_contiguous h hstride]
  refine decidedBy_splice h _ _ items ?_
  rw [List.length_take, List.length_drop, length_toList]
  show list.length - (slice.walked list.length).length + items.length = _
  omega

/-- **Operations that take elements in are decided by their verdict.** -/
theorem Operation.decided (h : list.Fits) (operation : Operation α (List α))
    (hrole : operation.role ≠ .drives) (hneeded : operation.needed? list = some needed) :
    DecidedBy (list.verdict mem needed) list (Succeeds needed)
      ((operation.course mem list).run mishap) := by
  cases operation with
  | append a =>
    cases hneeded
    exact decidedBy_store h [a] _
  | insert position a =>
    cases hneeded
    exact decidedBy_store h [a] _
  | extendSelf =>
    cases hneeded
    exact list.length_toList ▸ decidedBy_store h list.toList _
  | extendFromList items =>
    cases hneeded
    exact decidedBy_store h items _
  | extend items hint => exact absurd rfl hrole
  | tryExtend yielded hint => exact absurd rfl hrole
  | ensureCapacity required =>
    cases hneeded
    rw [← rejection?_roomFor h]
    refine decidedBy_afterRoom fun roomy hroom ↦ succeeds_of_ok rfl (Keeps.map ?_) mishap
    exact .done (roomier_of_roomFor hroom).required_le
  | setSlice slice items =>
    rw [needed?] at hneeded
    split at hneeded
    · next hstride =>
      cases hneeded
      exact decidedBy_setSlice h hstride items
    · cases hneeded
  | _ => cases hneeded

/-- What an iterator announces is made room for before anything is drawn from it. -/
theorem decidedBy_tryExtend (h : list.Fits) (hint : Nat) (yielded : List (Except ListError α)) :
    DecidedBy (list.verdict mem (list.length + hint)) list (HasRoom (list.length + hint))
      (((tryExtendCourse mem hint yielded list).map f).run mishap) := by
  rw [← rejection?_roomForMore h]
  cases hroom : list.roomForMore mem hint with
  | error e =>
    rw [tryExtendCourse_of_refused yielded hroom]
    exact decidedBy_fail list e
  | ok roomy =>
    have hrequired := (roomier_of_roomForMore hroom).required_le
    -- from here on nothing gives room up, neither the elements nor the clean-up after a failure
    have happend : (appendYieldedCourse mem hint yielded list).Keeps
        (Roomy (list.length + hint)) := by
      rw [appendYieldedCourse, hroom]
      exact .forEach (fun item _ reached hreached ↦ (grown_yield item).imp fun _ hgrown ↦
        Nat.le_trans hreached hgrown.capacity_le) hrequired
    have hextend : (tryExtendCourse mem hint yielded list).Keeps
        (Roomy (list.length + hint)) := by
      refine happend.handle fun e _ ↦ ?_
      have hshrink : (shrinkCourse list.length
          (appendYieldedCourse mem hint yielded list).state).Keeps
          (Roomy (list.length + hint)) := .giveUp _ happend.state happend.state
      exact hshrink.bind fun _ _ ↦ .fail hshrink.state
    exact hextend.map.run mishap

/-- **Operations that draw on an iterator fail at once if there is no room for what it announces**,
and otherwise they have that room. -/
theorem Operation.announced_decided (h : list.Fits) (operation : Operation α (List α))
    (hrole : operation.role = .drives) (hneeded : operation.needed? list = some needed) :
    DecidedBy (list.verdict mem needed) list (HasRoom needed)
      ((operation.course mem list).run mishap) := by
  cases operation with
  | extend items hint =>
    cases hneeded
    exact decidedBy_tryExtend h _ _
  | tryExtend yielded hint =>
    cases hneeded
    exact decidedBy_tryExtend h _ yielded
  | _ => cases hrole

/-- Room can be made on its own, too. -/
theorem reserve_decided (h : list.Fits) (additional : Nat) :
    DecidedBy (list.verdict mem (list.length + additional)) list
      (Succeeds (list.length + additional)) ((reserve additional).run mem mishap list) := by
  rw [reserve_follows mem list additional mishap, ← rejection?_roomForMore h]
  cases hroom : list.roomForMore mem additional with
  | error e => exact decidedBy_fail list e
  | ok roomy =>
    have hroomy : Roomy (list.length + additional) roomy :=
      (roomier_of_roomForMore hroom).required_le
    exact succeeds_of_ok rfl (.done hroomy) mishap

/-! ## New lists -/

/-- How many elements a new list has to have room for at first. -/
def Origin.needed? : Origin (List α) → Option Nat
  | empty _ => none
  | withCapacity room => some room
  | ofList items => some items.length
  | ofIterator items hint => some (hint.getD items.length)

/-- How many elements a list that is made of a list has to have room for, counted without any
bound. -/
def Derivation.needed? (list : UniformList α) : Derivation (List α) → Option Nat
  | copy => some list.length
  | concat other => some (list.length + other.length)
  | repetition times => some (list.length * times.toInt.toNat)
  | slice written =>
    if written.stride = 0 then none else some (written.walked list.length).length

variable {s : σ} {growth : Growth}

/-- If a run makes a list, it has room for `needed` elements. -/
def MakesRoom (needed : Nat) (run : Run α σ (UniformList α)) : Prop :=
  ∀ made, run.ending = .returned made → Roomy needed made

/-- Such a run that does not fail either. -/
def Delivers (needed : Nat) (run : Run α σ (UniformList α)) : Prop :=
  MakesRoom needed run ∧ ∀ e, run.ending ≠ .failed e

/-- What is made at once is decided by the verdict on its one request. -/
theorem MakesAtOnce.decided {items : List α} {course : Allocator → Course α σ (UniformList α)}
    (h : MakesAtOnce growth needed items s course) :
    DecidedBy ((Element.layout α).verdict mem 0 needed needed) s (Delivers needed)
      ((course mem).run mishap) := by
  rw [← rejection?_newRoom growth needed]
  cases hroom : (newRoom mem growth needed : Except ListError (UniformList α)) with
  | ok start =>
    refine ⟨fun made hmade ↦ ?_, fun e he ↦ ?_⟩
    · exact Nat.le_of_eq (h.of_ok (of_run_returned hmade).1).2.2.1.symm
    · have herror := (of_run_failed he).1
      obtain ⟨stages, -, hcourse⟩ := h
      rw [hcourse, hroom] at herror
      cases herror
  | error e =>
    rw [h.course_of_refused hroom]
    exact decidedBy_fail s e

/-- **Making a list of elements is decided by its verdict.** -/
theorem Origin.decided (origin : Origin (List α)) (hdrives : origin.drives = false)
    (hneeded : origin.needed? = some needed) :
    DecidedBy ((Element.layout α).verdict mem 0 needed needed) s (Delivers needed)
      ((origin.course mem s).run mishap) := by
  cases origin with
  | empty growth => cases hneeded
  | withCapacity room =>
    cases hneeded
    exact (makesAtOnce_withCapacity needed).decided
  | ofList items =>
    cases hneeded
    exact (makesAtOnce_ofList items).decided
  | ofIterator items hint => cases hdrives

/-- A new list has at least the room that an iterator announces. -/
theorem Origin.announced_decided (origin : Origin (List α)) (hdrives : origin.drives = true)
    (hneeded : origin.needed? = some needed) :
    DecidedBy ((Element.layout α).verdict mem 0 needed needed) s (MakesRoom needed)
      ((origin.course mem s).run mishap) := by
  cases origin with
  | ofIterator items hint =>
    cases hneeded
    rw [← rejection?_newRoom .standard _, Origin.course, buildCourse]
    generalize hint.getD items.length = announced
    cases hroom : (newRoom mem .standard announced : Except ListError (UniformList α)) with
    | ok start =>
      intro made hmade
      obtain ⟨rfl, -⟩ := of_construct_ok (of_run_returned hmade).1
      have hgrown : Grown start (tryExtendCourse mem announced (items.map .ok) start).state :=
        (grown_tryExtend announced (items.map .ok)).state
      have hcapacity := hgrown.capacity_le
      rwa [(fits_of_newRoom hroom).2.2.2] at hcapacity
    | error e => exact decidedBy_fail s e
  | _ => cases hdrives

/-- What a list that is made of a list requests is what it needs, as far as a word can count it. -/
theorem Derivation.room_of_needed? (h : list.Fits) {derivation : Derivation (List α)}
    (hneeded : derivation.needed? list = some needed) :
    derivation.room list =
      if wordLimit ≤ needed then .error .countOverflow else .ok needed := by
  have hlength := h.length_le_max
  have hword : maxObjectBytes < wordLimit := by decide
  cases derivation with
  | copy =>
    cases hneeded
    exact (if_neg (by omega)).symm
  | concat other =>
    cases hneeded
    rfl
  | repetition times =>
    cases hneeded
    rfl
  | slice written =>
    rw [needed?] at hneeded
    split at hneeded
    · cases hneeded
    · next hstride =>
      rw [Derivation.room]
      cases hresolve : written.resolve list.length with
      | error e => exact absurd (Slice.resolve_eq_error_iff.1 hresolve).1 hstride
      | ok selection =>
        have hcount := (Slice.inside_of_resolve hlength hresolve).count_le
        rw [← Slice.positions_of_resolve hlength hresolve, Selection.length_positions] at hneeded
        cases hneeded
        exact (if_neg (by omega)).symm

/-- **Making a list of a list is decided by its verdict.** -/
theorem Derivation.decided (h : list.Fits) (derivation : Derivation (List α))
    (hneeded : derivation.needed? list = some needed) :
    DecidedBy ((Element.layout α).verdict mem 0 needed needed) s (Delivers needed)
      ((derivation.course mem list s).run mishap) := by
  have hroom := derivation.room_of_needed? h hneeded
  by_cases hlimit : wordLimit ≤ needed
  · rw [if_pos hlimit] at hroom
    rw [derivation.course_of_error list hroom, Layout.verdict_of_wordLimit_le Element.isSlot hlimit]
    exact decidedBy_fail s .countOverflow
  · rw [if_neg hlimit] at hroom
    exact (derivation.makesAtOnce list hroom).decided

/-! ## All requests -/

/-- **The split between overflow and lack of memory.**  Of a list in its lifetime, with whatever
policy, and of a new list, every request for room is decided by its verdict: it is an overflow exactly
if the elements needed are more than a buffer can have, whatever the policy; otherwise memory runs out
exactly if they are more than there are slots and the allocator refuses what it is asked for; and
otherwise there is room for all of them afterwards.  So it is with buffers of any slots, of which all
checks agree. -/
theorem requests_decided {list : UniformList α} (h : Reachable growth list) (mem : Allocator)
    (mishap : Mishap) (s : σ) :
    let slot := Element.layout α
    let asked (needed : Nat) : Option Category := slot.verdict mem list.capacity needed
      (growth.nextCapacity list.capacity needed slot.maxElements)
    let askedAnew (needed : Nat) : Option Category := slot.verdict mem 0 needed needed
    (∀ (operation : Operation α (List α)) (needed : Nat), operation.needed? list = some needed →
      let run := operation.action.run mem mishap list
      DecidedBy (asked needed) list (HasRoom needed) run ∧
        (operation.role ≠ .drives → DecidedBy (asked needed) list (Succeeds needed) run)) ∧
    (∀ additional : Nat, DecidedBy (asked (list.length + additional)) list
      (Succeeds (list.length + additional)) ((reserve additional).run mem mishap list)) ∧
    (∀ (origin : Origin (List α)) (needed : Nat), origin.needed? = some needed →
      let run : Run α σ (UniformList α) := origin.action.run mem mishap s
      DecidedBy (askedAnew needed) s (MakesRoom needed) run ∧
        (origin.drives = false → DecidedBy (askedAnew needed) s (Delivers needed) run)) ∧
    (∀ (derivation : Derivation (List α)) (needed : Nat), derivation.needed? list = some needed →
      DecidedBy (askedAnew needed) s (Delivers needed)
        ((derivation.action list).run mem mishap s)) ∧
    (∀ needed : Nat, asked needed = some .sizeOverflow ↔ slot.maxElements < needed) ∧
    ∀ slot : Layout, slot.IsSlot → ∀ count : Nat,
      slot.ChecksAgree count ∧ Buffer.NewDecided α slot mem count := by
  obtain ⟨hfits, rfl⟩ := h.invariant
  intro slot asked askedAnew
  refine ⟨fun operation needed hneeded ↦ ?_, fun additional ↦ reserve_decided hfits additional,
    fun origin needed hneeded ↦ ?_, fun derivation needed hneeded ↦ ?_,
    fun needed ↦ Layout.verdict_eq_sizeOverflow_iff, fun slot hslot count ↦
      ⟨Layout.checksAgree hslot count, Buffer.newDecided α hslot mem count⟩⟩
  · intro run
    have hrun : run = (operation.course mem list).run mishap :=
      operation.action_follows list mishap
    rw [hrun]
    by_cases hrole : operation.role = .drives
    · exact ⟨operation.announced_decided hfits hrole hneeded, fun hplain ↦ absurd hrole hplain⟩
    · have hdecided : DecidedBy (asked needed) list (Succeeds needed)
          ((operation.course mem list).run mishap) := operation.decided hfits hrole hneeded
      exact ⟨hdecided.imp fun hsecured ↦ hsecured.1, fun _ ↦ hdecided⟩
  · intro run
    have hrun : run = (origin.course mem s).run mishap := origin.action_follows s mishap
    rw [hrun]
    by_cases hdrives : origin.drives = true
    · refine ⟨origin.announced_decided hdrives hneeded, fun hplain ↦ ?_⟩
      rw [hdrives] at hplain
      cases hplain
    · have hdecided : DecidedBy (askedAnew needed) s (Delivers needed)
          ((origin.course mem s).run mishap) :=
        origin.decided (Bool.eq_false_iff.2 hdrives) hneeded
      exact ⟨hdecided.imp fun hsecured ↦ hsecured.1, fun _ ↦ hdecided⟩
  · rw [derivation.action_follows list s]
    exact derivation.decided hfits hneeded

/-- Three references, of sixteen bytes each.  Room for as many as a buffer can have is for the
allocator to refuse; room for one more is an overflow. -/
theorem requests_decided_at_limit :
    let full : UniformList Reference := ⟨⟨#[⟨1, 0⟩, ⟨2, 0⟩, ⟨3, 0⟩], 3⟩, .standard⟩
    let modest : Allocator := ⟨(· ≤ 1000)⟩
    let attempt (required : Nat) : Run Reference (UniformList Reference) (Answer Reference) :=
      (Operation.ensureCapacity required).action.run modest none full
    Reachable .standard full ∧
      (∃ e : ListError, attempt (maxObjectBytes / 16) = ⟨[], full, .failed e⟩ ∧
        e.category = .outOfMemory) ∧
      ∃ e : ListError, attempt (maxObjectBytes / 16 + 1) = ⟨[], full, .failed e⟩ ∧
        e.category = .sizeOverflow := by
  intro full modest attempt
  have hreturned : ((Origin.ofList [⟨1, 0⟩, ⟨2, 0⟩, ⟨3, 0⟩]).action.run modest none ()).ending =
      .returned full := rfl
  have hmade : Reachable .standard full := .made hreturned
  obtain ⟨hoperations, -⟩ := requests_decided hmade modest none ()
  have hdecided (required : Nat) : DecidedBy (verdict modest full required) full
      (HasRoom required) (attempt required) :=
    (hoperations (.ensureCapacity required) required rfl).1
  have hrefused : verdict modest full (maxObjectBytes / 16) = some .outOfMemory := by
    decide +kernel
  have hoverflow : verdict modest full (maxObjectBytes / 16 + 1) = some .sizeOverflow := by
    decide +kernel
  exact ⟨hmade, (hdecided _).of_some hrefused, (hdecided _).of_some hoverflow⟩

end UniformList
end ListRuntime
