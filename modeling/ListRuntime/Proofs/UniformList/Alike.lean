import ListRuntime.Proofs.Session.Alike
import ListRuntime.Proofs.UniformList.Command

/-!
# Room is not seen from outside

What operations do to a list depends on its elements.  The capacity of its buffer, its policy and
what an iterator announces only decide when room is asked for, so as long as no request for room is
refused, nobody can tell from the outside what they are.

* `Same` relates lists with the same elements, `Operation.SameBut` operations that differ in what an
  iterator announces, and `Origin.SameBut` origins that also differ in the room and the policy.
* `alike_afterRoom`: asking for room parts nothing.
* `Operation.SameBut.alike`, `Origin.SameBut.alike` and `Derivation.alike`: such operations on such
  lists look alike.
-/

set_option autoImplicit false

namespace ListRuntime

namespace UniformList

open ListRuntime.Action Course

variable {α σ σ' : Type}

/-- The same elements in the same order. -/
def Same (list list' : UniformList α) : Prop := list.toList = list'.toList

theorem Same.toList_eq {list list' : UniformList α} (h : Same list list') :
    list.toList = list'.toList := h

/-- A list with the same elements differs in its capacity and its policy, if at all. -/
theorem Same.eq {list list' : UniformList α} (h : Same list list') :
    ∃ capacity growth, list' = ⟨⟨list.items, capacity⟩, growth⟩ := by
  obtain ⟨⟨items, capacity⟩, growth⟩ := list'
  exact ⟨capacity, growth, by rw [Array.toList_inj.1 h]⟩

theorem Same.length_eq {list list' : UniformList α} (h : Same list list') :
    list.length = list'.length :=
  (length_eq_of_toList_eq h.symm).symm

theorem same_holding (list list' : UniformList α) (items : List α) :
    Same (list.holding items) (list'.holding items) := rfl

/-- The same operation, whatever an iterator announces. -/
inductive Operation.SameBut {v w : Type} : Operation v w → Operation v w → Prop where
  | refl (operation : Operation v w) : SameBut operation operation
  | extend (items : w) (hint hint' : Option Nat) : SameBut (.extend items hint) (.extend items hint')
  | tryExtend (yielded : List (Except ListError v)) (hint hint' : Option Nat) :
    SameBut (.tryExtend yielded hint) (.tryExtend yielded hint')

/-- The same origin, whatever the policy, the room, and what an iterator announces. -/
inductive Origin.SameBut {w : Type} : Origin w → Origin w → Prop where
  | refl (origin : Origin w) : SameBut origin origin
  | empty (growth growth' : Growth) : SameBut (.empty growth) (.empty growth')
  | withCapacity (room room' : Nat) : SameBut (.withCapacity room) (.withCapacity room')
  | ofIterator (items : w) (hint hint' : Option Nat) :
    SameBut (.ofIterator items hint) (.ofIterator items hint')

/-! ## One element -/

section
variable {list list' : UniformList α}

theorem alike_overwrite (h : Same list list') (position : Nat) (a : α) :
    (overwriteCourse position a list).Alike Same Eq (overwriteCourse position a list') := by
  refine .returned ?_ ?_ rfl
  · simp only [List.map_append, map_call_row, h.toList_eq]
  · exact congrArg (List.set · position a) h

theorem alike_withdraw (h : Same list list') (position : Nat) :
    (withdrawCourse position list).Alike Same Eq (withdrawCourse position list') := by
  refine .returned ?_ ?_ rfl
  · rw [map_call_row, map_call_row, h.toList_eq]
  · exact congrArg (List.eraseIdx · position) h

theorem alike_shrink (h : Same list list') (n : Nat) :
    (shrinkCourse n list).Alike Same Eq (shrinkCourse n list') := by
  refine .returned ?_ ?_ rfl
  · rw [map_call_row, map_call_row, h.toList_eq]
  · exact congrArg (List.take n) h

theorem alike_atIndex {course : Nat → UniformList α → Course α (UniformList α) Unit}
    (h : Same list list')
    (hcourse : ∀ position, (course position list).Alike Same Eq (course position list'))
    (index : Int64) : (atIndex index course list).Alike Same Eq (atIndex index course list') := by
  rw [atIndex, atIndex, h.length_eq]
  split
  · exact hcourse _
  · exact .fail h _

theorem alike_remove (h : Same list list') (test : α → Bool) :
    (removeCourse test list).Alike Same Eq (removeCourse test list') := by
  rw [removeCourse, removeCourse, h.toList_eq]
  split
  · exact alike_withdraw h _
  · exact .fail h _

theorem Same.locate?_eq (h : Same list list') (index : Int64) :
    list.locate? index = list'.locate? index := by
  obtain ⟨capacity, growth, rfl⟩ := h.eq
  rfl

theorem Same.read_eq (h : Same list list') (index : Int64) : list.read index = list'.read index := by
  obtain ⟨capacity, growth, rfl⟩ := h.eq
  rfl

theorem alike_pop (h : Same list list') (index : Option Int64) :
    (popCourse index list).Alike Same Eq (popCourse index list') := by
  rw [popCourse, popCourse, h.locate?_eq, h.toList_eq]
  split
  · exact .fail h _
  · split
    · exact .done rfl rfl
    · exact .fail h _

/-! ## Answers -/

theorem alike_silent {course course' : Course α (UniformList α) Unit}
    (h : course.Alike Same Eq course') :
    (course.map fun _ ↦ (.done : Answer α)).Alike Same Answer.SameBut
      (course'.map fun _ ↦ .done) :=
  h.map fun _ _ _ ↦ .refl .done

/-- A question that may have no answer. -/
theorem alike_question {β : Type} (h : Same list list') (found : Except ListError β)
    (answer : β → Answer α) :
    (⟨[], list, found.map answer⟩ : Course α (UniformList α) (Answer α)).Alike Same Answer.SameBut
      ⟨[], list', found.map answer⟩ := by
  cases found with
  | ok b => exact .done h (.refl _)
  | error e => exact .fail h e

end

/-! ## Room -/

section
variable {mem mem' : Allocator} {list list' : UniformList α}

/-- What comes of asking for room for a list: the same elements, or a refusal. -/
def RoomOf (list : UniformList α) : Except ListError (UniformList α) → Prop
  | .ok roomy => Same roomy list
  | .error e => e.isRefusal = true

/-- **Asking for room parts nothing**, whoever asks for how much: what goes on with room is alike. -/
theorem alike_afterRoom {β : Type} {P : β → β → Prop}
    {room room' : Except ListError (UniformList α)}
    {course course' : UniformList α → Course α (UniformList α) β} (h : Same list list')
    (hroom : RoomOf list room) (hroom' : RoomOf list' room')
    (hcourse : ∀ roomy roomy', Same roomy list → Same roomy roomy' →
      (course roomy).Alike Same P (course' roomy')) :
    (afterRoom list room course).Alike Same P (afterRoom list' room' course') := by
  cases room with
  | error e => exact .refused hroom
  | ok roomy =>
    cases room' with
    | error e => exact .refused' hroom'
    | ok roomy' =>
      have hroomy : Same roomy list := hroom
      have hroomy' : Same roomy' list' := hroom'
      exact hcourse roomy roomy' hroomy (hroomy.trans (h.trans hroomy'.symm))

variable [Element α]

theorem roomOf_roomFor (mem : Allocator) (list : UniformList α) (required : Nat) :
    RoomOf list (list.roomFor mem required) := by
  rw [roomFor]
  split
  · exact rfl
  · exact rfl

theorem roomOf_roomForMore (mem : Allocator) (list : UniformList α) (additional : Nat) :
    RoomOf list (list.roomForMore mem additional) := by
  rw [roomForMore]
  split
  · exact rfl
  · exact roomOf_roomFor mem list _

theorem alike_store (h : Same list list') (items : List α) {put : UniformList α → List α}
    (hput : ∀ roomy roomy', Same roomy roomy' → put roomy = put roomy') :
    (storeCourse mem items put list).Alike Same Eq (storeCourse mem' items put list') := by
  refine alike_afterRoom h (roomOf_roomForMore _ _ _) (roomOf_roomForMore _ _ _)
    fun roomy roomy' _ hsame ↦ .returned ?_ (hput roomy roomy' hsame) rfl
  rw [map_call_row, map_call_row]

theorem alike_extend (h : Same list list') (items : List α) :
    (extendCourse mem items list).Alike Same Eq (extendCourse mem' items list') :=
  alike_store h items fun _ _ hsame ↦ congrArg (· ++ items) hsame

/-! ## Iterators -/

theorem alike_yield (h : Same list list') (item : Except ListError α) :
    (yieldCourse mem item list).Alike Same Eq (yieldCourse mem' item list') := by
  cases item with
  | ok a => exact alike_extend h [a]
  | error e => exact .fail h e

/-- What an iterator announces is not seen. -/
theorem alike_tryExtend (h : Same list list') (hint hint' : Nat)
    (yielded : List (Except ListError α)) :
    (tryExtendCourse mem hint yielded list).Alike Same Eq
      (tryExtendCourse mem' hint' yielded list') := by
  have happend : (appendYieldedCourse mem hint yielded list).Alike Same Eq
      (appendYieldedCourse mem' hint' yielded list') :=
    alike_afterRoom h (roomOf_roomForMore _ _ _) (roomOf_roomForMore _ _ _) fun _ _ _ hsame ↦
      .forEach (fun item _ _ hreached ↦ alike_yield hreached item) rfl yielded hsame
  refine happend.handle (fun e reached reached' hreached ↦ ?_) (fun _ _ ↦ rfl) fun _ _ ↦ rfl
  rw [h.length_eq]
  exact (alike_shrink hreached _).bind fun _ _ _ _ _ hrest ↦ .fail hrest e

/-! ## Slices -/

theorem alike_splice (h : Same list list') (first removed : Nat) (items : List α) :
    (spliceCourse mem first removed items list).Alike Same Eq
      (spliceCourse mem' first removed items list') := by
  dsimp only [spliceCourse]
  rw [h.toList_eq]
  split
  · exact .fail h _
  · refine alike_afterRoom h (roomOf_roomFor _ _ _) (roomOf_roomFor _ _ _) fun _ _ _ _ ↦
      .returned ?_ rfl rfl
    simp only [List.map_append, map_call_row]

theorem alike_setSlice (h : Same list list') (slice : Slice) (items : List α) :
    (setSliceCourse mem slice items list).Alike Same Eq
      (setSliceCourse mem' slice items list') := by
  rw [setSliceCourse, setSliceCourse, h.length_eq]
  split
  · exact .fail h _
  · split
    · exact alike_splice h _ _ items
    · split
      · exact .forEach (fun entry _ _ hreached ↦ alike_overwrite hreached entry.1 entry.2) rfl _ h
      · exact .fail h _

theorem alike_delSlice (h : Same list list') (slice : Slice) :
    (delSliceCourse mem slice list).Alike Same Eq (delSliceCourse mem' slice list') := by
  rw [delSliceCourse, delSliceCourse, h.length_eq]
  split
  · exact .fail h _
  · split
    · exact .done h rfl
    · split
      · exact alike_splice h _ _ []
      · rw [h.toList_eq]
        exact alike_shrink (same_holding _ _ _) _

/-! ## Operations -/

/-- **Operations on lists with the same elements look alike**, as long as no room is refused. -/
theorem Operation.SameBut.alike {operation operation' : Operation α (List α)}
    (hoperation : operation.SameBut operation') (h : Same list list') :
    (operation.course mem list).Alike Same Answer.SameBut (operation'.course mem' list') := by
  cases hoperation with
  | extend items hint hint' => exact alike_silent (alike_tryExtend h _ _ _)
  | tryExtend yielded hint hint' => exact alike_silent (alike_tryExtend h _ _ yielded)
  | refl =>
    cases operation with
    | assign i a => exact alike_silent (alike_atIndex h (alike_overwrite h · a) i)
    | delete i => exact alike_silent (alike_atIndex h (alike_withdraw h) i)
    | append a => exact alike_silent (alike_extend h [a])
    | insert position a =>
      refine alike_silent (alike_store h [a] fun roomy roomy' hsame ↦ ?_)
      rw [hsame.toList_eq, hsame.length_eq]
    | pop i => exact (alike_pop h i).map fun _ _ heq ↦ heq ▸ .refl _
    | remove a => exact alike_silent (alike_remove h _)
    | clear => exact alike_silent (alike_shrink h 0)
    | reverse => exact alike_silent (.done (congrArg List.reverse h) rfl)
    | extendSelf => exact alike_silent (h.toList_eq ▸ alike_extend h list.toList)
    | extendFromList items => exact alike_silent (alike_extend h items)
    | extend items hint => exact alike_silent (alike_tryExtend h _ _ _)
    | tryExtend yielded hint => exact alike_silent (alike_tryExtend h _ _ yielded)
    | ensureCapacity required =>
      exact alike_silent (alike_afterRoom h (roomOf_roomFor _ _ _) (roomOf_roomFor _ _ _)
        fun _ _ _ hsame ↦ .done hsame rfl)
    | shrinkTo n => exact alike_silent (alike_shrink h n)
    | setSlice s items => exact alike_silent (alike_setSlice h s items)
    | delSlice s => exact alike_silent (alike_delSlice h s)
    | summary =>
      obtain ⟨capacity, growth, rfl⟩ := h.eq
      exact .done h (.summary _ _ _ _)
    | contains a | count a | equal other | elements | text =>
      obtain ⟨capacity, growth, rfl⟩ := h.eq
      exact .done h (.refl _)
    | read i =>
      rw [course, course, h.read_eq]
      exact alike_question h _ _
    | index a start stop =>
      obtain ⟨capacity, growth, rfl⟩ := h.eq
      exact alike_question h (list.index a start stop) _

/-! ## New lists -/

variable {R : σ → σ' → Prop} {s : σ} {s' : σ'}

theorem roomOf_newRoom (mem : Allocator) (growth : Growth) (room : Nat) :
    RoomOf (empty growth : UniformList α) (newRoom mem growth room) := by
  rw [newRoom]
  split
  · exact rfl
  · exact rfl

/-- New lists without elements are made alike. -/
theorem alike_newRoom (growth growth' : Growth) (room room' : Nat) (hs : R s s') :
    (⟨[], s, newRoom mem growth room⟩ : Course α σ (UniformList α)).Alike R Same
      ⟨[], s', newRoom mem' growth' room'⟩ := by
  have hroom : RoomOf (empty growth : UniformList α) (newRoom mem growth room) :=
    roomOf_newRoom mem growth room
  have hroom' : RoomOf (empty growth' : UniformList α) (newRoom mem' growth' room') :=
    roomOf_newRoom mem' growth' room'
  revert hroom hroom'
  cases (newRoom mem growth room : Except ListError (UniformList α)) with
  | error e => exact fun hrefused _ ↦ .refused hrefused
  | ok start =>
    cases (newRoom mem' growth' room' : Except ListError (UniformList α)) with
    | error e => exact fun _ hrefused ↦ .refused' hrefused
    | ok start' => exact fun hnil hnil' ↦ .done hs (Eq.trans hnil (Eq.symm hnil'))

/-- New lists that are filled alike are made alike, whatever their policies and the room that they
are given at first. -/
theorem alike_build {growth growth' : Growth} {room room' : Nat}
    {fill fill' : UniformList α → Course α (UniformList α) Unit}
    (hfill : ∀ start start', Same start start' → (fill start).Alike Same Eq (fill' start'))
    (hs : R s s') :
    (buildCourse mem growth room fill s).Alike R Same
      (buildCourse mem' growth' room' fill' s') := by
  have hbuild {τ : Type} (mem : Allocator) (growth : Growth) (room : Nat)
      (fill : UniformList α → Course α (UniformList α) Unit) (t : τ) :
      buildCourse mem growth room fill t = (⟨[], t, newRoom mem growth room⟩ :
        Course α τ (UniformList α)).bind fun start t ↦ (fill start).construct (·.toList) t := by
    rw [buildCourse]
    cases (newRoom mem growth room : Except ListError (UniformList α)) <;> rfl
  rw [hbuild, hbuild]
  exact (alike_newRoom growth growth' room room' hs).bind fun start start' _ _ hstart ht ↦
    (hfill start start' hstart).construct (fun _ _ hsame ↦ hsame) ht

/-- **Lists that are made of the same elements are made alike.** -/
theorem Origin.SameBut.alike {origin origin' : Origin (List α)} (horigin : origin.SameBut origin')
    (hs : R s s') : (origin.course mem s).Alike R Same (origin'.course mem' s') := by
  cases horigin with
  | empty growth growth' => exact .done hs rfl
  | withCapacity room room' => exact alike_newRoom _ _ room room' hs
  | ofIterator items hint hint' => exact alike_build (fun _ _ h ↦ alike_tryExtend h _ _ _) hs
  | refl =>
    cases origin with
    | empty growth => exact .done hs rfl
    | withCapacity room => exact alike_newRoom _ _ room room hs
    | ofList items => exact alike_build (fun _ _ h ↦ alike_extend h items) hs
    | ofIterator items hint => exact alike_build (fun _ _ h ↦ alike_tryExtend h _ _ _) hs

theorem alike_select (hlist : Same list list') (selection : Selection) {start start' : UniformList α}
    (hstart : Same start start') :
    (list.selectCourse mem selection start).Alike Same Eq
      (list'.selectCourse mem' selection start') := by
  have hselect : list.select selection = list'.select selection := by
    obtain ⟨capacity, growth, rfl⟩ := hlist.eq
    rfl
  rw [selectCourse, selectCourse, hlist.toList_eq, hselect]
  split
  · exact alike_extend hstart _
  · exact alike_tryExtend hstart _ _ _

/-- **Lists that are made of lists with the same elements are made alike.** -/
theorem Derivation.alike (h : Same list list') (derivation : Derivation (List α)) (hs : R s s') :
    (derivation.course mem list s).Alike R Same (derivation.course mem' list' s') := by
  cases derivation with
  | copy => exact alike_build (fun _ _ hstart ↦ h.toList_eq ▸ alike_extend hstart _) hs
  | concat other =>
    rw [course, course, concatCourse, concatCourse, h.length_eq, h.toList_eq]
    split
    · exact .fail hs _
    · exact alike_build (fun _ _ hstart ↦ (alike_extend hstart _).bind fun _ _ _ _ _ hnext ↦
        alike_extend hnext other) hs
  | repetition times =>
    rw [course, course, repetitionCourse, repetitionCourse, h.length_eq, h.toList_eq]
    split
    · exact .done hs rfl
    · split
      · exact .fail hs _
      · exact alike_build (fun _ _ hstart ↦
          .forEach (fun _ _ _ hnext ↦ alike_extend hnext list'.toList) rfl _ hstart) hs
  | slice written =>
    rw [course, course, sliceCourse, sliceCourse, h.length_eq]
    split
    · exact .fail hs _
    · exact alike_build (fun _ _ hstart ↦ alike_select h _ hstart) hs

end

end UniformList
end ListRuntime
