import ListRuntime.Proofs.Course.Failure
import ListRuntime.Proofs.Slice
import ListRuntime.Proofs.UniformList.Command

/-!
# Filling new lists

A new list gets its room at once, and is filled after that.  As long as what comes in does not
exceed the room, filling asks the allocator for nothing and cannot fail: what becomes of making such
a list is decided by its one request.

* `Appends` says of a way to fill a list that it puts certain elements behind the others, wherever
  there is room for them; there is one rule for each combinator of filling.
* `MakesAtOnce` says of a way to make a list that it makes one request and does not fail after it;
  `MakesAtOnce.run_eq` is its run.
-/

set_option autoImplicit false

namespace ListRuntime
namespace UniformList

open ListRuntime.Action Course

variable {α σ ι : Type}

/-! ## What goes into new lists -/

/-- The elements of a list, so many times over. -/
def repeated (list : UniformList α) (rounds : Nat) : List α :=
  (List.replicate rounds ()).flatMap fun _ ↦ list.toList

theorem length_repeated (list : UniformList α) (rounds : Nat) :
    (list.repeated rounds).length = list.length * rounds := by
  simp [repeated, List.length_flatMap, Nat.mul_comm]

/-- The elements that a slice picks out of a list. -/
def picked (list : UniformList α) (selection : Selection) : List α :=
  if selection.isContiguous then
    (list.toList.drop (selection.position 0)).take selection.count
  else list.select selection

theorem length_picked_le (list : UniformList α) (selection : Selection) :
    (list.picked selection).length ≤ selection.count := by
  rw [picked]
  split
  · exact List.length_take_le _ _
  · rw [select, ← selection.length_positions]
    exact List.length_filterMap_le _ _

/-- Of a slice of a list, there is one element for each position. -/
theorem length_picked {list : UniformList α} {selection : Selection}
    (h : selection.Inside list.length) : (list.picked selection).length = selection.count := by
  rw [picked]
  split
  · next hcontiguous =>
    have hmem := h.mem_positions_iff hcontiguous
    have hlast (hcount : 0 < selection.count) :
        selection.position 0 + selection.count - 1 < list.length :=
      h.lt_of_mem_positions ((hmem _).2 (by omega))
    rw [List.length_take, List.length_drop, length_toList]
    omega
  · have hall : ∀ position ∈ selection.positions, (list.items[position]?).isSome := by
      intro position hmem
      have hlt : position < list.items.size := h.lt_of_mem_positions hmem
      rw [Array.getElem?_eq_getElem hlt, Option.isSome_some]
    rw [select, List.filterMap_length_eq_length.2 hall, Selection.length_positions]

/-- The room that making a list of a list requests, unless it fails without any request. -/
def Derivation.room (list : UniformList α) : Derivation (List α) → Except ListError Nat
  | copy => .ok list.length
  | concat other =>
    let total := list.length + other.length
    if wordLimit ≤ total then .error .countOverflow else .ok total
  | repetition times =>
    let total := list.length * times.toNatClampNeg
    if wordLimit ≤ total then .error .countOverflow else .ok total
  | slice written => (written.resolve list.length).map Selection.count

/-- The elements of a list that is made of a list. -/
def Derivation.items (list : UniformList α) : Derivation (List α) → List α
  | copy => list.toList
  | concat other => list.toList ++ other
  | repetition times => list.repeated times.toNatClampNeg
  | slice written => ((written.resolve list.length).toOption.map list.picked).getD []

/-- There is nothing to repeat in an empty list, and nothing is repeated less than once. -/
theorem length_mul_eq_zero {list : UniformList α} {times : Int64}
    (h : times ≤ 0 ∨ list.toList = []) : list.length * times.toNatClampNeg = 0 := by
  rcases h with htimes | hnil
  · have hle : times.toInt ≤ 0 := Int64.le_iff_toInt_le.1 htimes
    rw [Int64.toNatClampNeg, Int.toNat_of_nonpos hle, Nat.mul_zero]
  · rw [← length_toList, hnil, List.length_nil, Nat.zero_mul]

variable [Element α]

/-- There is no element to spare for the room that is requested. -/
theorem Derivation.length_items {list : UniformList α} (h : list.Fits)
    {derivation : Derivation (List α)} {room : Nat}
    (hroom : derivation.room list = .ok room) :
    (derivation.items list).length = room := by
  cases derivation with
  | copy =>
    cases hroom
    exact list.length_toList
  | concat other =>
    simp only [Derivation.room] at hroom
    split at hroom
    · cases hroom
    · cases hroom
      rw [Derivation.items, List.length_append, length_toList]
  | repetition times =>
    simp only [Derivation.room] at hroom
    split at hroom
    · cases hroom
    · cases hroom
      exact list.length_repeated _
  | slice written =>
    rw [Derivation.room] at hroom
    rw [Derivation.items]
    cases hresolve : written.resolve list.length with
    | error e =>
      rw [hresolve] at hroom
      cases hroom
    | ok selection =>
      rw [hresolve] at hroom
      cases hroom
      exact length_picked (Slice.inside_of_resolve h.length_le_max hresolve)

/-! ## Filling -/

/-- Where there is room for `need` elements, filling acquires `items` in order and puts them behind
the other elements.  Its hook calls, its result and what it leaves do not depend on the allocator. -/
structure Appends (fill : Allocator → UniformList α → Course α (UniformList α) Unit) (need : Nat)
    (items : List α) : Prop where
  /-- What is needed suffices for what comes in. -/
  length_le : items.length ≤ need
  /-- Filling takes the same course whatever the allocator. -/
  course_eq : ∃ stages : UniformList α → List (Stage α (UniformList α)),
    (∀ list, (stages list).map Stage.call = items.map (⟨.acquire, ·⟩)) ∧
    ∀ mem list, list.Fits → list.length + need ≤ list.capacity →
      fill mem list = ⟨stages list, list.holding (list.toList ++ items), .ok ()⟩

variable {items more : List α} {need needMore : Nat}

/-- Storing that returns has found room, acquired what comes in, and put it into the list. -/
theorem of_store_returned {mem : Allocator} {mishap : Mishap} {list : UniformList α}
    {put : UniformList α → List α}
    (h : ((storeCourse mem items put list).run mishap).ending = .returned ()) :
    ∃ roomy : UniformList α, roomy.toList = list.toList ∧
      (storeCourse mem items put list).run mishap =
        ⟨items.map (⟨.acquire, ·⟩), roomy.holding (put roomy), .returned ()⟩ := by
  obtain ⟨hresult, hrun⟩ := of_run_returned h
  rw [hrun]
  rw [storeCourse] at hresult ⊢
  cases hroom : list.roomForMore mem items.length with
  | error e =>
    rw [hroom] at hresult
    cases hresult
  | ok roomy =>
    refine ⟨roomy, (roomier_of_roomForMore hroom).toList_eq, ?_⟩
    rw [afterRoom, Course.calls, map_call_row]

/-- Elements that there are slots for are stored. -/
theorem extendCourse_of_le {mem : Allocator} {list : UniformList α}
    (hlimit : list.length + items.length < wordLimit)
    (hroom : list.length + items.length ≤ list.capacity) :
    extendCourse mem items list =
      ⟨Stage.row .acquire items list, list.holding (list.toList ++ items), .ok ()⟩ := by
  rw [extendCourse, storeCourse, roomForMore, if_neg (Nat.not_le.2 hlimit), roomFor_of_le hroom]
  rfl

/-- In a list that fits, their number is a word. -/
theorem extendCourse_of_room {mem : Allocator} {list : UniformList α} (h : list.Fits)
    (hroom : list.length + items.length ≤ list.capacity) :
    extendCourse mem items list =
      ⟨Stage.row .acquire items list, list.holding (list.toList ++ items), .ok ()⟩ :=
  extendCourse_of_le (Nat.lt_of_le_of_lt hroom h.capacity_lt) hroom

theorem appends_extend (items : List α) : Appends (extendCourse · items) items.length items where
  length_le := Nat.le_refl _
  course_eq := ⟨Stage.row .acquire items, Course.map_call_row .acquire items,
    fun _ _ hfits hroom ↦ extendCourse_of_room hfits hroom⟩

theorem Appends.mono {fill : Allocator → UniformList α → Course α (UniformList α) Unit}
    (h : Appends fill need items) (hle : need ≤ needMore) : Appends fill needMore items := by
  obtain ⟨hlength, stages, hcalls, hfill⟩ := h
  exact ⟨Nat.le_trans hlength hle, stages, hcalls, fun mem list hfits hroom ↦
    hfill mem list hfits (by omega)⟩

/-- Nothing is appended by doing nothing. -/
theorem appends_nil : Appends (fun _ list ↦ .done list ()) 0 ([] : List α) where
  length_le := Nat.le_refl _
  course_eq := ⟨fun _ ↦ [], fun _ ↦ rfl, fun _ list _ _ ↦ by
    rw [List.append_nil, holding_toList, Course.done]⟩

theorem Appends.bind {first next : Allocator → UniformList α → Course α (UniformList α) Unit}
    (h : Appends first need items) (hnext : Appends next needMore more) :
    Appends (fun mem list ↦ (first mem list).bind fun _ ↦ next mem) (need + needMore)
      (items ++ more) := by
  obtain ⟨hle, stages, hcalls, hfirst⟩ := h
  obtain ⟨hle', later, hcalls', hlater⟩ := hnext
  refine ⟨by rw [List.length_append]; omega,
    fun list ↦ stages list ++ later (list.holding (list.toList ++ items)),
    fun list ↦ by rw [List.map_append, List.map_append, hcalls, hcalls'],
    fun mem list hfits hroom ↦ ?_⟩
  have hlength : (list.toList ++ items).length = list.length + items.length := by
    rw [List.length_append, length_toList]
  have hbetween : (list.holding (list.toList ++ items)).Fits := hfits.holding_of_le (by omega)
  rw [hfirst mem list hfits (by omega), Course.bind]
  dsimp only
  rw [hlater mem _ hbetween (by rw [length_holding, capacity_holding]; omega), Course.after,
    toList_holding, List.append_assoc]
  rfl

/-- A loop appends what its rounds append. -/
theorem appends_forEach {body : ι → Allocator → UniformList α → Course α (UniformList α) Unit}
    {contents : ι → List α} {rounds : List ι}
    (h : ∀ i ∈ rounds, Appends (body i) (contents i).length (contents i)) :
    Appends (fun mem ↦ Course.forEach (fun i ↦ body i mem) rounds)
      (rounds.flatMap contents).length (rounds.flatMap contents) := by
  induction rounds with
  | nil => exact appends_nil
  | cons i rounds ih =>
    rw [List.flatMap_cons, List.length_append]
    exact (h i List.mem_cons_self).bind (ih fun j hj ↦ h j (List.mem_cons_of_mem i hj))

theorem tryExtendCourse_of_ok {mem : Allocator} {list : UniformList α} {hint : Nat}
    {yielded : List (Except ListError α)}
    (h : (appendYieldedCourse mem hint yielded list).result = .ok ()) :
    tryExtendCourse mem hint yielded list = appendYieldedCourse mem hint yielded list := by
  rw [tryExtendCourse, Course.handle, h]

/-- So does an iterator that does not fail.  It needs the room that it announces, too. -/
theorem appends_tryExtend (hint : Nat) (items : List α) :
    Appends (fun mem ↦ tryExtendCourse mem hint (items.map .ok)) (max hint items.length) items := by
  let contents (item : Except ListError α) : List α := item.toOption.toList
  have hcontents : (items.map .ok).flatMap contents = items := by
    simp [contents, List.flatMap_map, Except.toOption]
  have hloop : Appends (fun mem ↦ Course.forEach (yieldCourse mem) (items.map .ok))
      ((items.map .ok).flatMap contents).length ((items.map .ok).flatMap contents) := by
    have hround (item : Except ListError α) (hmem : item ∈ items.map .ok) :
        Appends (fun mem ↦ yieldCourse mem item) (contents item).length (contents item) := by
      obtain ⟨a, -, rfl⟩ := List.mem_map.1 hmem
      exact appends_extend [a]
    exact appends_forEach hround
  rw [hcontents] at hloop
  -- the room that was announced is asked for, but there is that much already
  obtain ⟨-, stages, hcalls, hstages⟩ := hloop
  refine ⟨Nat.le_max_right _ _, stages, hcalls, fun mem list hfits hroom ↦ ?_⟩
  have happend : appendYieldedCourse mem hint (items.map .ok) list =
      ⟨stages list, list.holding (list.toList ++ items), .ok ()⟩ := by
    rw [appendYieldedCourse, roomForMore_of_le hfits.capacity_lt (by omega)]
    exact hstages mem list hfits (by omega)
  rw [tryExtendCourse_of_ok (by rw [happend]), happend]

/-! ## Making -/

/-- What becomes of making a list is decided by one request of room.  After that `items` are acquired
in order, and are what is in it. -/
def MakesAtOnce (growth : Growth) (room : Nat) (items : List α) (s : σ)
    (course : Allocator → Course α σ (UniformList α)) : Prop :=
  ∃ stages, stages.map Stage.call = items.map (⟨.acquire, ·⟩) ∧ ∀ mem, course mem =
    match (newRoom mem growth room : Except ListError (UniformList α)) with
    | .ok start => ⟨stages, s, .ok (start.holding items)⟩
    | .error e => .fail s e

variable {growth : Growth} {room : Nat} {s : σ}
variable {course : Allocator → Course α σ (UniformList α)}

/-- Room for a new list is all that can be missing. -/
theorem MakesAtOnce.failsEarly (h : MakesAtOnce growth room items s course) (mem : Allocator) :
    (course mem).FailsEarly s := by
  obtain ⟨stages, -, hcourse⟩ := h
  rw [hcourse]
  split
  · exact .of_ok rfl
  · exact .fail _

/-- The list that is made has the room that was requested. -/
theorem MakesAtOnce.of_ok (h : MakesAtOnce growth room items s course) {mem : Allocator}
    {made : UniformList α} (hmade : (course mem).result = .ok made) :
    made.toList = items ∧ made.growth = growth ∧ made.capacity = room ∧
      (newRoom mem growth room : Except ListError (UniformList α)).isOk := by
  obtain ⟨stages, -, hcourse⟩ := h
  rw [hcourse] at hmade
  split at hmade
  · next start hroom =>
    obtain ⟨-, -, hgrowth, hcapacity⟩ := fits_of_newRoom hroom
    cases hmade
    exact ⟨rfl, hgrowth, hcapacity, by rw [hroom]; rfl⟩
  · cases hmade

/-- Where there is room, making acquires what comes in and nothing else. -/
theorem MakesAtOnce.run_none (h : MakesAtOnce growth room items s course) {mem : Allocator}
    {start : UniformList α} (hroom : newRoom mem growth room = .ok start) :
    (course mem).run none = ⟨items.map (⟨.acquire, ·⟩), s, .returned (start.holding items)⟩ := by
  obtain ⟨stages, hcalls, hcourse⟩ := h
  rw [hcourse, hroom, ← hcalls]
  rfl

/-- Where there is none, making fails for it and does nothing. -/
theorem MakesAtOnce.course_of_refused (h : MakesAtOnce growth room items s course) {mem : Allocator}
    {e : ListError}
    (hroom : (newRoom mem growth room : Except ListError (UniformList α)) = .error e) :
    course mem = .fail s e := by
  obtain ⟨stages, -, hcourse⟩ := h
  rw [hcourse, hroom]

/-- So it comes down to the buffer, in any case. -/
theorem MakesAtOnce.run_eq (h : MakesAtOnce growth room items s course) (mem : Allocator) :
    (course mem).run none =
      match (Buffer.withCapacity (Element.layout α) mem room : Except AllocError (Buffer α)) with
      | .ok buffer => ⟨items.map (⟨.acquire, ·⟩), s,
          .returned ⟨{ buffer with items := items.toArray }, growth⟩⟩
      | .error cause => ⟨[], s, .failed (.allocation cause)⟩ := by
  have hnew := newRoom_eq (α := α) mem growth room
  cases hbuffer : (Buffer.withCapacity (Element.layout α) mem room :
      Except AllocError (Buffer α)) with
  | ok buffer =>
    rw [hbuffer] at hnew
    exact h.run_none hnew
  | error cause =>
    rw [hbuffer] at hnew
    rw [h.course_of_refused hnew]
    rfl

/-- **One request decides**: any other allocator that grants it leads to the same. -/
theorem MakesAtOnce.course_eq (h : MakesAtOnce growth room items s course) {mem other : Allocator}
    {made : UniformList α} (hmade : (course mem).result = .ok made)
    (hgrants : room = 0 ∨ other.grants (room * (Element.layout α).size) = true) :
    course other = course mem := by
  have hok := (h.of_ok hmade).2.2.2
  obtain ⟨stages, -, hcourse⟩ := h
  cases hroom : (newRoom mem growth room : Except ListError (UniformList α)) with
  | ok start => rw [hcourse, hcourse, newRoom_of_grants hroom hgrants, hroom]
  | error e =>
    rw [hroom] at hok
    cases hok

/-- What is filled into a new list with room for it comes to light. -/
theorem makesAtOnce_build {fill : Allocator → UniformList α → Course α (UniformList α) Unit}
    (h : Appends fill need items) (growth : Growth) (hroom : need ≤ room) (s : σ) :
    MakesAtOnce growth room items s fun mem ↦ buildCourse mem growth room (fill mem) s := by
  obtain ⟨-, stages, hcalls, hfill⟩ := h
  refine ⟨(stages ⟨⟨#[], room⟩, growth⟩).map (Stage.outside (·.toList) s), ?_, fun mem ↦ ?_⟩
  · rw [← hcalls ⟨⟨#[], room⟩, growth⟩, List.map_map]
    rfl
  dsimp only [buildCourse]
  cases hnew : (newRoom mem growth room : Except ListError (UniformList α)) with
  | error e => rfl
  | ok start =>
    obtain ⟨hfits, -, -, -⟩ := fits_of_newRoom hnew
    obtain rfl := eq_of_newRoom hnew
    dsimp only
    rw [hfill mem _ hfits (Nat.le_trans (Nat.le_of_eq (Nat.zero_add _)) hroom), Course.construct]
    simp [Course.after, Course.done, Buffer.toList]

/-! ## The operators -/

variable (list : UniformList α)

theorem makesAtOnce_concat (h : list.length + items.length < wordLimit) :
    MakesAtOnce list.growth (list.length + items.length) (list.toList ++ items) s fun mem ↦
      list.concatCourse mem items s := by
  have hneed : list.toList.length + items.length ≤ list.length + items.length := by
    rw [length_toList]
  have hmakes := makesAtOnce_build ((appends_extend list.toList).bind (appends_extend items))
    list.growth hneed s
  simpa only [concatCourse, if_neg (Nat.not_le.2 h)] using hmakes

/-- Nothing is made room for if there is nothing to repeat. -/
theorem makesAtOnce_nil (growth : Growth) :
    MakesAtOnce growth 0 [] s fun _ ↦ (.done s (empty growth) : Course α σ (UniformList α)) := by
  refine ⟨[], rfl, fun mem ↦ ?_⟩
  simp only [newRoom, Layout.grow_of_le (Nat.le_refl 0), empty, Buffer.empty,
    Layout.initialCapacity_eq Element.isSlot]
  rfl

theorem makesAtOnce_repetition {times : Int64}
    (h : list.length * times.toNatClampNeg < wordLimit) :
    MakesAtOnce list.growth (list.length * times.toNatClampNeg)
      (list.repeated times.toNatClampNeg) s fun mem ↦ list.repetitionCourse mem times s := by
  by_cases hnone : times ≤ 0 ∨ list.toList = []
  · have htotal := length_mul_eq_zero hnone
    have hnil : list.repeated times.toNatClampNeg = [] := by
      rw [← List.length_eq_zero_iff, length_repeated, htotal]
    simpa only [repetitionCourse, if_pos hnone, htotal, hnil] using makesAtOnce_nil list.growth
  · have hfill : Appends (fun mem ↦ Course.forEach (fun _ ↦ extendCourse mem list.toList)
        (List.replicate times.toNatClampNeg ())) (list.repeated times.toNatClampNeg).length
        (list.repeated times.toNatClampNeg) :=
      appends_forEach fun _ _ ↦ appends_extend list.toList
    have hmakes := makesAtOnce_build hfill list.growth (Nat.le_of_eq (list.length_repeated _)) s
    simpa only [repetitionCourse, if_neg hnone, if_neg (Nat.not_le.2 h)] using hmakes

theorem makesAtOnce_slice {slice : Slice} {selection : Selection}
    (hresolve : slice.resolve list.length = .ok selection) :
    MakesAtOnce list.growth selection.count (list.picked selection) s fun mem ↦
      list.sliceCourse mem slice s := by
  have hlength := list.length_picked_le selection
  have hfill : Appends (fun mem ↦ list.selectCourse mem selection)
      (max selection.count (list.picked selection).length) (list.picked selection) := by
    simp only [selectCourse, picked]
    split
    · exact (appends_extend _).mono (Nat.le_max_right _ _)
    · exact appends_tryExtend _ _
  have hmakes := makesAtOnce_build hfill list.growth (Nat.max_le.2 ⟨Nat.le_refl _, hlength⟩) s
  simpa only [sliceCourse, hresolve] using hmakes

/-- **A list is made of a list at once**, unless it cannot be made at all. -/
theorem Derivation.makesAtOnce (derivation : Derivation (List α)) {room : Nat}
    (hroom : derivation.room list = .ok room) :
    MakesAtOnce list.growth room (derivation.items list) s fun mem ↦
      derivation.course mem list s := by
  cases derivation with
  | copy =>
    cases hroom
    exact makesAtOnce_build (appends_extend list.toList) list.growth
      (Nat.le_of_eq list.length_toList) s
  | concat other =>
    simp only [Derivation.room] at hroom
    split at hroom
    · cases hroom
    · next hlt =>
      cases hroom
      exact makesAtOnce_concat list (Nat.not_le.1 hlt)
  | repetition times =>
    simp only [Derivation.room] at hroom
    split at hroom
    · cases hroom
    · next hlt =>
      cases hroom
      exact makesAtOnce_repetition list (Nat.not_le.1 hlt)
  | slice written =>
    rw [Derivation.room] at hroom
    rw [Derivation.items]
    cases hresolve : written.resolve list.length with
    | error e =>
      rw [hresolve] at hroom
      cases hroom
    | ok selection =>
      rw [hresolve] at hroom
      cases hroom
      exact makesAtOnce_slice list hresolve

/-- A list that cannot be made fails for one reason, whatever the allocator. -/
theorem Derivation.course_of_error (derivation : Derivation (List α)) {e : ListError}
    (hroom : derivation.room list = .error e) (mem : Allocator) (s : σ) :
    derivation.course mem list s = .fail s e := by
  cases derivation with
  | copy => cases hroom
  | concat other =>
    simp only [Derivation.room] at hroom
    split at hroom
    · next hlimit =>
      cases hroom
      exact if_pos hlimit
    · cases hroom
  | repetition times =>
    simp only [Derivation.room] at hroom
    split at hroom
    · next hlimit =>
      cases hroom
      have hsome : ¬ (times ≤ 0 ∨ list.toList = []) := fun hnone ↦ by
        rw [length_mul_eq_zero hnone] at hlimit
        exact absurd hlimit (by decide)
      simp only [Derivation.course, repetitionCourse, if_neg hsome, if_pos hlimit]
    · cases hroom
  | slice written =>
    rw [Derivation.room] at hroom
    cases hresolve : written.resolve list.length with
    | error e' =>
      rw [hresolve] at hroom
      cases hroom
      simp only [Derivation.course, sliceCourse, hresolve]
    | ok selection =>
      rw [hresolve] at hroom
      cases hroom

theorem makesAtOnce_withCapacity (room : Nat) :
    MakesAtOnce .standard room ([] : List α) s fun mem ↦ (Origin.withCapacity room).course mem s := by
  refine ⟨[], rfl, fun mem ↦ ?_⟩
  dsimp only [Origin.course]
  cases hroom : (newRoom mem .standard room : Except ListError (UniformList α)) with
  | ok start => rw [eq_of_newRoom hroom]; rfl
  | error e => rfl

/-- Making a list of elements takes one request, too. -/
theorem makesAtOnce_ofList (items : List α) :
    MakesAtOnce .standard items.length items s fun mem ↦ (Origin.ofList items).course mem s :=
  makesAtOnce_build (appends_extend items) .standard (Nat.le_refl _) s

end UniformList
end ListRuntime
