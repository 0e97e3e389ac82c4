import ListRuntime.Proofs.Course.Basic
import ListRuntime.UniformList.Making

/-!
# Room for elements

Every operation that takes elements in makes room for them first.  Making room changes the capacity
of a list and nothing else, or it changes nothing at all; what comes of it is a function of the
list and the allocator, and calls no hooks.

* `UniformList.holding` is a list with other elements in the same buffer: all that operations do to
  a list that has room.
* `roomFor`, `roomForMore` and `newRoom` are what comes of making room.
* `UniformList.Fits` is the invariant of buffers; a list that fits is no longer than a word allows.
-/

set_option autoImplicit false

namespace ListRuntime

/-- An allocator that refuses nothing. -/
def Allocator.boundless : Allocator := ⟨fun _ ↦ true⟩

/-! ## Slots -/

namespace Layout

variable {slot : Layout} {mem : Allocator} {capacity wanted : Nat}

theorem maxElements_eq (h : slot.IsSlot) : slot.maxElements = maxObjectBytes / slot.size :=
  if_neg (Nat.ne_of_gt h.size_pos)

theorem initialCapacity_eq (h : slot.IsSlot) : slot.initialCapacity = 0 :=
  if_neg (Nat.ne_of_gt h.size_pos)

theorem maxElements_le (h : slot.IsSlot) : slot.maxElements ≤ maxObjectBytes :=
  maxElements_eq h ▸ Nat.div_le_self _ _

/-- A buffer that suffices is kept. -/
theorem grow_of_le (h : wanted ≤ capacity) : slot.grow mem capacity wanted = .ok capacity := by
  rw [grow, if_pos h]
  rfl

theorem le_maxElements_iff (h : slot.IsSlot) {count : Nat} :
    count ≤ slot.maxElements ↔ count * slot.size ≤ maxObjectBytes := by
  rw [maxElements_eq h, Nat.le_div_iff_mul_le h.size_pos]

/-- Rounding the size of a buffer up to the alignment passes no limit that the size itself does not
pass, since the limit is aligned. -/
theorem size_add_align_le (h : slot.IsSlot) {count : Nat}
    (hbytes : count * slot.size ≤ maxObjectBytes) :
    count * slot.size + slot.align ≤ maxObjectBytes + 1 := by
  obtain ⟨size, hsize⟩ := h.align_dvd_size
  obtain ⟨limit, hlimit⟩ := h.align_dvd_limit
  have hlt : count * slot.size < maxObjectBytes + 1 := by omega
  rw [hsize, hlimit, Nat.mul_left_comm] at hlt ⊢
  exact Nat.mul_le_mul_left slot.align (Nat.lt_of_mul_lt_mul_left hlt)

theorem requestBytes_eq (h : slot.IsSlot) (count : Nat) :
    requestBytes count slot.size = if count ≤ slot.maxElements then .ok (count * slot.size)
      else .error (.sizeOverflow count slot.size) := by
  simp only [requestBytes, le_maxElements_iff h]

/-- There is a layout for a buffer exactly up to the greatest number of slots. -/
theorem array_eq (h : slot.IsSlot) (count : Nat) :
    slot.array count = if count ≤ slot.maxElements then .ok ⟨count * slot.size, slot.align⟩
      else .error (.sizeOverflow count slot.size) := by
  rw [array, requestBytes_eq h]
  split
  · next hle =>
    have hbytes := (le_maxElements_iff h).1 hle
    have hround := size_add_align_le h hbytes
    change (if count * slot.size ≤ maxObjectBytes - (slot.align - 1) then _ else _) = _
    rw [if_pos (by omega)]
    rfl
  · rfl

/-- What growing comes to: a buffer that suffices is kept; otherwise the wish must be one that a
buffer can have, and the allocator must grant it. -/
theorem grow_eq (h : slot.IsSlot) :
    slot.grow mem capacity wanted =
      if wanted ≤ capacity then .ok capacity
      else if slot.maxElements < wanted then .error (.sizeOverflow wanted slot.size)
      else if mem.grants (wanted * slot.size) then .ok wanted
      else .error (.outOfMemory (wanted * slot.size)) := by
  rw [grow, array_eq h]
  split
  · rfl
  · by_cases hle : wanted ≤ slot.maxElements
    · rw [if_pos hle, if_neg (Nat.not_lt.2 hle)]
      rfl
    · rw [if_neg hle, if_pos (Nat.not_le.1 hle)]
      rfl

/-- Growing comes to exactly the capacity that is wanted, unless there is more already. -/
theorem of_grow (hslot : slot.IsSlot) {grown : Nat}
    (h : slot.grow mem capacity wanted = .ok grown) :
    grown = max capacity wanted ∧ (wanted ≤ capacity ∨ wanted ≤ slot.maxElements) := by
  rw [grow_eq hslot] at h
  split at h
  · next hle =>
    cases h
    exact ⟨(Nat.max_eq_left hle).symm, Or.inl hle⟩
  · split at h
    · cases h
    · split at h
      · cases h
        exact ⟨(Nat.max_eq_right (by omega)).symm, Or.inr (by omega)⟩
      · cases h

/-- An allocator that refuses nothing grows a buffer up to the greatest number of slots. -/
theorem grow_of_grants (hslot : slot.IsSlot) (hgrants : ∀ bytes, mem.grants bytes = true)
    (h : wanted ≤ slot.maxElements) : ∃ grown, slot.grow mem capacity wanted = .ok grown := by
  rw [grow_eq hslot]
  by_cases hle : wanted ≤ capacity
  · exact ⟨capacity, if_pos hle⟩
  · rw [if_neg hle, if_neg (Nat.not_lt.2 h), if_pos (hgrants _)]
    exact ⟨wanted, rfl⟩

/-- Whoever grants the same request lets a buffer grow to the same capacity. -/
theorem grow_of_granted (hslot : slot.IsSlot) {other : Allocator} {grown : Nat}
    (h : slot.grow mem capacity wanted = .ok grown)
    (hgrants : wanted ≤ capacity ∨ other.grants (wanted * slot.size) = true) :
    slot.grow other capacity wanted = .ok grown := by
  rw [grow_eq hslot] at h ⊢
  split at h
  · next hle => rwa [if_pos hle]
  · next hlt =>
    rw [if_neg hlt, if_pos (hgrants.resolve_left hlt)]
    split at h
    · cases h
    · next hmax =>
      rw [if_neg hmax]
      split at h
      · exact h
      · cases h

end Layout

theorem Growth.le_nextCapacity (growth : Growth) (capacity required limit : Nat) :
    required ≤ growth.nextCapacity capacity required limit := by
  rw [nextCapacity]
  split <;> omega

theorem Growth.capacity_le_nextCapacity (growth : Growth) (capacity required limit : Nat) :
    capacity ≤ growth.nextCapacity capacity required limit := by
  rw [nextCapacity]
  split <;> omega

theorem Growth.nextCapacity_of_le (growth : Growth) {capacity required : Nat} (limit : Nat)
    (h : required ≤ capacity) : growth.nextCapacity capacity required limit = capacity :=
  if_pos h

/-- No more than the limit is grown to, unless more is required. -/
theorem Growth.nextCapacity_le (growth : Growth) {capacity required limit : Nat}
    (hcapacity : capacity ≤ limit) (hrequired : required ≤ limit) :
    growth.nextCapacity capacity required limit ≤ limit := by
  rw [nextCapacity]
  split <;> omega

/-- There is memory for so many elements: the allocator refuses nothing, and a buffer can have that
many slots. -/
structure Allocator.Affords (α : Type) [Element α] (mem : Allocator) (count : Nat) : Prop where
  /-- The allocator refuses nothing. -/
  grants : ∀ bytes, mem.grants bytes = true
  /-- A buffer can have that many slots. -/
  le_maxElements : count ≤ (Element.layout α).maxElements

/-- Where there is memory for more elements, there is memory for fewer. -/
theorem Allocator.Affords.mono {α : Type} [Element α] {mem : Allocator} {count fewer : Nat}
    (h : mem.Affords α count) (hle : fewer ≤ count) : mem.Affords α fewer :=
  ⟨h.grants, Nat.le_trans hle h.le_maxElements⟩

theorem Allocator.Affords.lt_wordLimit {α : Type} [Element α] {mem : Allocator} {count : Nat}
    (h : mem.Affords α count) : count < wordLimit :=
  Nat.lt_of_le_of_lt (Nat.le_trans h.le_maxElements (Layout.maxElements_le Element.isSlot))
    (by decide)

namespace UniformList

variable {α σ β : Type}

/-! ## Elements in a buffer -/

/-- The list with other elements in its buffer. -/
def holding (list : UniformList α) (items : List α) : UniformList α :=
  { list with items := items.toArray }

section
variable (list : UniformList α) (items : List α)

@[simp] theorem toList_holding : (list.holding items).toList = items := rfl

@[simp] theorem capacity_holding : (list.holding items).capacity = list.capacity := rfl

@[simp] theorem length_holding : (list.holding items).length = items.length := rfl

@[simp] theorem holding_toList : list.holding list.toList = list := rfl

@[simp] theorem length_toList : list.toList.length = list.length := Array.length_toList

end

theorem length_eq_of_toList_eq {list other : UniformList α} (h : other.toList = list.toList) :
    other.length = list.length := by
  rw [← length_toList, h, length_toList]

/-! ## Going on with room -/

open ListRuntime.Action

/-- The course of going on with a list that has room, if it can be had. -/
def afterRoom (list : UniformList α) (room : Except ListError (UniformList α))
    (course : UniformList α → Course α (UniformList α) β) : Course α (UniformList α) β :=
  match room with
  | .ok roomy => course roomy
  | .error e => .fail list e

/-- An action that goes on after room was made. -/
theorem follows_afterRoom {mem : Allocator} {list : UniformList α}
    {first : Action α (UniformList α) Unit} {next : Action α (UniformList α) β}
    {room : Except ListError (UniformList α)}
    {course : UniformList α → Course α (UniformList α) β}
    (hfirst : first.Follows mem list (afterRoom list room (.done · ())))
    (hnext : ∀ roomy, room = .ok roomy → next.Follows mem roomy (course roomy)) :
    (first >>= fun _ ↦ next).Follows mem list (afterRoom list room course) := by
  cases room with
  | ok roomy => exact hfirst.bind_ok (hnext roomy rfl)
  | error e => exact hfirst.bind_error

variable [Element α]

/-! ## What comes of making room -/

/-- The list with room for `required` elements in all, grown by its policy. -/
def roomFor (mem : Allocator) (list : UniformList α) (required : Nat) :
    Except ListError (UniformList α) :=
  let slot := Element.layout α
  match slot.grow mem list.capacity
    (list.growth.nextCapacity list.capacity required slot.maxElements) with
  | .ok capacity => .ok { list with capacity }
  | .error cause => .error (.allocation cause)

/-- The list with room for `additional` elements more. -/
def roomForMore (mem : Allocator) (list : UniformList α) (additional : Nat) :
    Except ListError (UniformList α) :=
  if wordLimit ≤ list.length + additional then .error .countOverflow
  else list.roomFor mem (list.length + additional)

/-- An empty list with room for exactly `room` elements. -/
def newRoom (mem : Allocator) (growth : Growth) (room : Nat) : Except ListError (UniformList α) :=
  match (Element.layout α).grow mem 0 room with
  | .ok capacity => .ok ⟨⟨#[], capacity⟩, growth⟩
  | .error cause => .error (.allocation cause)

variable {mem : Allocator} {list roomy : UniformList α} {required additional : Nat}

/-- What a list and the same list with room for `required` elements have to do with each other. -/
structure Roomier (list roomy : UniformList α) (required : Nat) : Prop where
  /-- The elements are the same. -/
  toList_eq : roomy.toList = list.toList
  /-- So is the policy. -/
  growth_eq : roomy.growth = list.growth
  /-- No room is given up. -/
  capacity_le : list.capacity ≤ roomy.capacity
  /-- There is enough of it. -/
  required_le : required ≤ roomy.capacity
  /-- New room is no more than a buffer can have. -/
  le_maxElements : roomy.capacity = list.capacity ∨
    roomy.capacity ≤ (Element.layout α).maxElements

theorem roomier_of_roomFor (h : list.roomFor mem required = .ok roomy) :
    Roomier list roomy required := by
  rw [roomFor] at h
  split at h
  · next capacity hgrow =>
    cases h
    have hnext := list.growth.le_nextCapacity list.capacity required (Element.layout α).maxElements
    obtain ⟨hmax, hle⟩ := Layout.of_grow Element.isSlot hgrow
    refine ⟨rfl, rfl, ?_, ?_, ?_⟩
    all_goals
      dsimp only
      omega
  · cases h

theorem roomier_of_roomForMore (h : list.roomForMore mem additional = .ok roomy) :
    Roomier list roomy (list.length + additional) := by
  rw [roomForMore] at h
  split at h
  · cases h
  · exact roomier_of_roomFor h

/-- There is no room for more elements than a word can count. -/
theorem lt_wordLimit_of_roomForMore (h : list.roomForMore mem additional = .ok roomy) :
    list.length + additional < wordLimit := by
  rw [roomForMore] at h
  split at h
  · cases h
  · next hlt => exact Nat.not_le.1 hlt

/-- Enough room is left as it is. -/
theorem roomFor_of_le (h : required ≤ list.capacity) : list.roomFor mem required = .ok list := by
  rw [roomFor, Growth.nextCapacity_of_le _ _ h, Layout.grow_of_le (Nat.le_refl _)]

/-- So it is for more elements, as far as there is room. -/
theorem roomForMore_of_le (hlimit : list.capacity < wordLimit)
    (h : list.length + additional ≤ list.capacity) :
    list.roomForMore mem additional = .ok list := by
  rw [roomForMore, if_neg (by omega), roomFor_of_le h]

/-- Only a failure of allocation keeps a list from having room. -/
theorem isAllocation_of_roomFor {e : ListError} (h : list.roomFor mem required = .error e) :
    e.category.isAllocation := by
  rw [roomFor] at h
  split at h
  · cases h
  · next cause _ =>
    cases h
    cases cause <;> rfl

theorem isAllocation_of_roomForMore {e : ListError}
    (h : list.roomForMore mem additional = .error e) : e.category.isAllocation := by
  rw [roomForMore] at h
  split at h
  · cases h
    rfl
  · exact isAllocation_of_roomFor h

theorem isAllocation_of_newRoom {growth : Growth} {room : Nat} {e : ListError}
    (h : (newRoom mem growth room : Except ListError (UniformList α)) = .error e) :
    e.category.isAllocation := by
  rw [newRoom] at h
  split at h
  · cases h
  · next cause _ =>
    cases h
    cases cause <;> rfl

/-! ## The invariant of buffers -/

/-- The elements of a list fit into its buffer, and the buffer can exist. -/
structure Fits (list : UniformList α) : Prop where
  /-- There is a slot for each element. -/
  length_le : list.length ≤ list.capacity
  /-- The buffer is no larger than a buffer can be. -/
  capacity_le : list.capacity ≤ (Element.layout α).maxElements

/-- A list that fits is no longer than the greatest signed word. -/
theorem Fits.length_le_max (h : list.Fits) : list.length ≤ maxObjectBytes :=
  Nat.le_trans h.length_le (Nat.le_trans h.capacity_le (Layout.maxElements_le Element.isSlot))

/-- The capacity of a list that fits is a word. -/
theorem Fits.capacity_lt (h : list.Fits) : list.capacity < wordLimit :=
  Nat.lt_of_le_of_lt (Nat.le_trans h.capacity_le (Layout.maxElements_le Element.isSlot)) (by decide)

/-- Elements that there are slots for fit. -/
theorem Fits.holding_of_le (h : list.Fits) {items : List α} (hle : items.length ≤ list.capacity) :
    (list.holding items).Fits :=
  ⟨hle, h.capacity_le⟩

/-- No more elements than before fit where those before did. -/
theorem Fits.holding (h : list.Fits) {items : List α} (hle : items.length ≤ list.length) :
    (list.holding items).Fits :=
  h.holding_of_le (Nat.le_trans hle h.length_le)

/-- Elements fit where room was made for them. -/
theorem Fits.holding_roomier (h : list.Fits) (hroom : Roomier list roomy required) {items : List α}
    (hle : items.length ≤ required) : (roomy.holding items).Fits := by
  refine ⟨Nat.le_trans hle hroom.required_le, ?_⟩
  rcases hroom.le_maxElements with heq | hle
  · exact Nat.le_trans (Nat.le_of_eq heq) h.capacity_le
  · exact hle

/-- Making room keeps the invariant. -/
theorem Fits.roomier (h : list.Fits) (hroom : Roomier list roomy required) : roomy.Fits := by
  have hlength := length_eq_of_toList_eq hroom.toList_eq
  refine ⟨hlength ▸ Nat.le_trans h.length_le hroom.capacity_le, ?_⟩
  rcases hroom.le_maxElements with heq | hle
  · exact Nat.le_trans (Nat.le_of_eq heq) h.capacity_le
  · exact hle

/-- Where there is memory, room can be had. -/
theorem Fits.roomFor_of_affords (h : list.Fits) (hmem : mem.Affords α required) :
    ∃ roomy, list.roomFor mem required = .ok roomy := by
  have hnext := list.growth.nextCapacity_le h.capacity_le hmem.le_maxElements
  obtain ⟨grown, hgrow⟩ := Layout.grow_of_grants Element.isSlot hmem.grants hnext
  refine ⟨{ list with capacity := grown }, ?_⟩
  rw [roomFor, hgrow]

/-- More elements than a buffer can have are an overflow, whatever the allocator. -/
theorem Fits.category_of_roomFor (h : list.Fits)
    (hmax : (Element.layout α).maxElements < required) {e : ListError}
    (he : list.roomFor mem required = .error e) : e.category = .sizeOverflow := by
  have hcapacity := h.capacity_le
  have hnext := list.growth.le_nextCapacity list.capacity required (Element.layout α).maxElements
  rw [roomFor, Layout.grow_eq Element.isSlot, if_neg (by omega), if_pos (by omega)] at he
  cases he
  rfl

theorem Fits.roomForMore_of_affords (h : list.Fits)
    (hmem : mem.Affords α (list.length + additional)) :
    ∃ roomy, list.roomForMore mem additional = .ok roomy := by
  have hlimit := hmem.lt_wordLimit
  rw [roomForMore, if_neg (by omega)]
  exact h.roomFor_of_affords hmem

/-- Where the allocator grants it, there is room for a new list. -/
theorem newRoom_of_granted (growth : Growth) {room : Nat}
    (hmax : room ≤ (Element.layout α).maxElements)
    (hgrants : mem.grants (room * (Element.layout α).size) = true) :
    (newRoom mem growth room : Except ListError (UniformList α)) = .ok ⟨⟨#[], room⟩, growth⟩ := by
  have hgrow : (Element.layout α).grow mem 0 room = .ok room := by
    rw [Layout.grow_eq Element.isSlot, if_neg (Nat.not_lt.2 hmax), if_pos hgrants]
    split
    · next hle => rw [Nat.le_zero.1 hle]
    · rfl
  rw [newRoom, hgrow]

theorem newRoom_of_affords {room : Nat} (growth : Growth) (hmem : mem.Affords α room) :
    ∃ start, (newRoom mem growth room : Except ListError (UniformList α)) = .ok start :=
  ⟨_, newRoom_of_granted growth hmem.le_maxElements (hmem.grants _)⟩

theorem fits_empty (growth : Growth) : (empty growth : UniformList α).Fits :=
  ⟨Nat.zero_le _, by
    change (Element.layout α).initialCapacity ≤ _
    rw [Layout.initialCapacity_eq Element.isSlot]
    exact Nat.zero_le _⟩

theorem fits_of_newRoom {growth : Growth} {room : Nat}
    (h : newRoom mem growth room = .ok roomy) :
    roomy.Fits ∧ roomy.toList = [] ∧ roomy.growth = growth ∧ roomy.capacity = room := by
  rw [newRoom] at h
  split at h
  · next capacity hgrow =>
    cases h
    obtain ⟨hmax, hle⟩ := Layout.of_grow Element.isSlot hgrow
    refine ⟨⟨Nat.zero_le _, ?_⟩, rfl, rfl, ?_⟩
    all_goals
      dsimp only
      omega
  · cases h

theorem eq_of_newRoom {growth : Growth} {room : Nat} (h : newRoom mem growth room = .ok roomy) :
    roomy = ⟨⟨#[], room⟩, growth⟩ := by
  obtain ⟨-, hnil, rfl, rfl⟩ := fits_of_newRoom h
  rw [← holding_toList roomy, hnil]
  rfl

/-- Room for a new list can be had wherever the one request for it is granted. -/
theorem newRoom_of_grants {other : Allocator} {growth : Growth} {room : Nat}
    (h : newRoom mem growth room = .ok roomy)
    (hgrants : room = 0 ∨ other.grants (room * (Element.layout α).size) = true) :
    newRoom other growth room = .ok roomy := by
  rw [newRoom] at h ⊢
  split at h
  · next capacity hgrow =>
    rw [Layout.grow_of_granted Element.isSlot hgrow (hgrants.imp_left Nat.le_of_eq)]
    exact h
  · cases h

/-! ## Making room -/

theorem ensureCapacity_follows (mem : Allocator) (list : UniformList α) (required : Nat) :
    (ensureCapacity required).Follows mem list
      (afterRoom list (list.roomFor mem required) (.done · ())) := by
  refine Follows.get_bind ((Follows.of_done fun mishap ↦ run_allocator mem mishap list).bind_ok ?_)
  dsimp only [roomFor]
  cases (Element.layout α).grow mem list.capacity
      (list.growth.nextCapacity list.capacity required (Element.layout α).maxElements) with
  | ok capacity => exact .set _
  | error cause => exact .throw _

theorem reserve_follows (mem : Allocator) (list : UniformList α) (additional : Nat) :
    (reserve additional).Follows mem list
      (afterRoom list (list.roomForMore mem additional) (.done · ())) := by
  refine Follows.get_bind ?_
  dsimp only [roomForMore]
  by_cases hlimit : wordLimit ≤ list.length + additional
  · rw [if_pos hlimit, if_pos hlimit]
    exact (Follows.throw _).bind_error
  · rw [if_neg hlimit, if_neg hlimit]
    exact ensureCapacity_follows mem list _

end UniformList
end ListRuntime
