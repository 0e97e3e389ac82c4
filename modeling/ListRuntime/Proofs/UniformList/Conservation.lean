import ListRuntime.Proofs.Course.Conservation
import ListRuntime.Proofs.Slice
import ListRuntime.Proofs.UniformList.Command
import ListRuntime.Proofs.UniformList.Sweep

/-!
# Conservation by operations on uniform lists

The books of every operation balance: the elements of the list, with those that the operation hands
over, are those of before, with what it acquired and without what it released.  This holds along
every course that starts from a list whose elements fit into its buffer, and every course leaves
such a list, wherever it may end.

* `UniformList.stock` counts an element in a list.
* `Operation.conserves` and `Operation.keeps_fits` are the two facts for operations; there are the
  same for origins and derivations.
-/

set_option autoImplicit false

namespace ListRuntime
namespace UniformList

open ListRuntime.Action Course

variable {α σ : Type}

/-! ## Counts -/

theorem of_locate? {list : UniformList α} {index : Int64} {position : Nat} {a : α}
    (h : list.locate? index = some (position, a)) : list.toList[position]? = some a := by
  simp only [locate?, items_getElem?, Option.bind_eq_bind, Option.bind_eq_some_iff,
    Option.pure_def, Option.some.injEq, Prod.mk.injEq] at h
  obtain ⟨_, -, _, hget, rfl, rfl⟩ := h
  exact hget

section
variable [DecidableEq α]

/-- How many slots of a list hold an element. -/
def stock (list : UniformList α) (a : α) : Int := list.toList.count a

theorem count_eraseIdx_add (items : List α) (position : Nat) (a : α) :
    (items.eraseIdx position).count a + items[position]?.toList.count a = items.count a := by
  rcases Nat.lt_or_ge position items.length with hlt | hge
  · rw [List.getElem?_eq_getElem hlt, Nat.add_comm, Option.toList_some, ← List.count_append,
      List.singleton_append]
    exact (List.getElem_cons_eraseIdx_perm hlt).count_eq a
  · rw [List.getElem?_eq_none hge, List.eraseIdx_of_length_le hge]
    rfl

theorem count_set_add {items : List α} {position : Nat} (h : position < items.length) (b a : α) :
    (items.set position b).count a + items[position]?.toList.count a =
      items.count a + [b].count a := by
  rw [List.getElem?_eq_getElem h, Option.toList_some]
  induction items generalizing position with
  | nil => cases h
  | cons c items ih =>
    cases position with
    | zero => simp only [List.set_cons_zero, List.getElem_cons_zero, List.count_cons,
        List.count_nil]; omega
    | succ position =>
      have := ih (Nat.lt_of_succ_lt_succ h)
      simp only [List.set_cons_succ, List.getElem_cons_succ, List.count_cons] at this ⊢
      omega

/-- A list is its front, the elements removed from it, and its back. -/
theorem count_take_drop (items : List α) (first removed : Nat) (a : α) :
    (items.take first).count a + ((items.drop first).take removed).count a +
      (items.drop (first + removed)).count a = items.count a := by
  rw [← List.drop_drop, Nat.add_assoc, ← List.count_append, List.take_append_drop,
    ← List.count_append, List.take_append_drop]

theorem stock_roomier [Element α] {list roomy : UniformList α} {required : Nat}
    (h : Roomier list roomy required) : roomy.stock = list.stock := by
  funext a
  rw [stock, stock, h.toList_eq]

end

/-! ## The parts of operations -/

section
variable [DecidableEq α] {mem : Allocator} {list : UniformList α}

theorem conserves_overwrite {position : Nat} (h : position < list.length) (b : α) :
    (overwriteCourse position b list).Conserves stock nothing list.stock := by
  have hset := count_set_add (list.length_toList ▸ h) b
  refine .exchange [b] list.toList[position]?.toList (fun a ↦ Int.le_refl _) (fun a ↦ ?_)
    fun a ↦ ?_
  all_goals
    have := hset a
    simp only [stock, toList_holding, nothing]
    omega

theorem conserves_withdraw (position : Nat) :
    (withdrawCourse position list).Conserves stock nothing list.stock := by
  refine .giveUp list.toList[position]?.toList (fun a ↦ ?_) fun a ↦ ?_
  all_goals
    have := count_eraseIdx_add list.toList position a
    simp only [stock, toList_holding, nothing]
    omega

theorem conserves_shrink (n : Nat) :
    (shrinkCourse n list).Conserves stock nothing list.stock := by
  refine .giveUp (list.toList.drop n) (fun a ↦ ?_) fun a ↦ ?_
  all_goals
    have : (list.toList.take n).count a + (list.toList.drop n).count a = list.toList.count a := by
      rw [← List.count_append, List.take_append_drop]
    simp only [stock, toList_holding, nothing]
    omega

theorem conserves_atIndex {course : Nat → UniformList α → Course α (UniformList α) Unit}
    (h : ∀ position, position < list.length →
      (course position list).Conserves stock nothing list.stock) (index : Int64) :
    (atIndex index course list).Conserves stock nothing list.stock := by
  rw [atIndex]
  split
  · next position hposition => exact h position (lt_of_resolveIndex hposition)
  · exact .fail fun _ ↦ rfl

theorem conserves_remove (test : α → Bool) :
    (removeCourse test list).Conserves stock nothing list.stock := by
  rw [removeCourse]
  split
  · exact conserves_withdraw _
  · exact .fail fun _ ↦ rfl

theorem conserves_pop (index : Option Int64) :
    (popCourse index list).Conserves stock (fun b a ↦ ([b].count a : Int)) list.stock := by
  rw [popCourse]
  split
  · exact .fail fun _ ↦ rfl
  · split
    · next position b hlocate =>
      refine .done fun a ↦ ?_
      have := count_eraseIdx_add list.toList position a
      rw [of_locate? hlocate] at this
      simp only [stock, toList_holding, Option.toList_some] at this ⊢
      omega
    · exact .fail fun _ ↦ rfl

/-- An operation that says nothing hands nothing over. -/
theorem Operation.conserves_silently {course : Course α (UniformList α) Unit}
    (operation : Operation α (List α)) (h : course.Conserves stock nothing list.stock) :
    (course.map fun _ ↦ .done).Conserves stock
      (fun answer a ↦ ((operation.given answer).count a : Int)) list.stock :=
  h.map fun _ _ ↦ by rw [given_done]; rfl

end

/-! ## The invariant of buffers -/

section
variable [Element α] {mem : Allocator} {list : UniformList α}

theorem keeps_overwrite (h : list.Fits) (position : Nat) (b : α) :
    (overwriteCourse position b list).Keeps fun after ↦
      after.Fits ∧ after.length = list.length := by
  have hset : (list.toList.set position b).length = list.length := by simp
  have hchanged := h.holding (Nat.le_of_eq hset)
  exact .exchange [b] _ ⟨h, rfl⟩ ⟨hchanged, hset⟩ ⟨hchanged, hset⟩

theorem keeps_withdraw (h : list.Fits) (position : Nat) :
    (withdrawCourse position list).Keeps Fits := by
  have hchanged := h.holding (list.length_toList ▸ List.length_eraseIdx_le list.toList position)
  exact .giveUp _ hchanged hchanged

theorem keeps_shrink (h : list.Fits) (n : Nat) : (shrinkCourse n list).Keeps Fits := by
  have hchanged := h.holding (list.length_toList ▸ List.length_take_le' n list.toList)
  exact .giveUp _ hchanged hchanged

theorem keeps_atIndex (h : list.Fits)
    {course : Nat → UniformList α → Course α (UniformList α) Unit}
    (hcourse : ∀ position, (course position list).Keeps Fits) (index : Int64) :
    (atIndex index course list).Keeps Fits := by
  rw [atIndex]
  split
  · exact hcourse _
  · exact .fail h

theorem keeps_remove (h : list.Fits) (test : α → Bool) :
    (removeCourse test list).Keeps Fits := by
  rw [removeCourse]
  split
  · exact keeps_withdraw h _
  · exact .fail h

theorem keeps_pop (h : list.Fits) (index : Option Int64) :
    (popCourse index list).Keeps Fits := by
  rw [popCourse]
  split
  · exact .fail h
  · split
    · exact .done (h.holding (list.length_toList ▸ List.length_eraseIdx_le ..))
    · exact .fail h

/-- What goes on with room keeps the invariant if it needs no more room than was made. -/
theorem keeps_afterRoom {β : Type} (h : list.Fits) {room : Except ListError (UniformList α)}
    {course : UniformList α → Course α (UniformList α) β} {required : Nat}
    (hroom : ∀ roomy, room = .ok roomy → Roomier list roomy required)
    (hcourse : ∀ roomy, Roomier list roomy required → (course roomy).Keeps Fits) :
    (afterRoom list room course).Keeps Fits := by
  cases room with
  | ok roomy => exact hcourse roomy (hroom roomy rfl)
  | error e => exact .fail h

/-- Storing needs room for the elements that come in. -/
theorem keeps_store (h : list.Fits) (items : List α) {put : UniformList α → List α}
    (hput : ∀ roomy : UniformList α, roomy.toList = list.toList →
      (put roomy).length = list.length + items.length) :
    (storeCourse mem items put list).Keeps Fits := by
  refine keeps_afterRoom h (fun _ ↦ roomier_of_roomForMore) fun roomy hroom ↦ ?_
  exact .takeIn items (h.roomier hroom)
    (h.holding_roomier hroom (Nat.le_of_eq (hput roomy hroom.toList_eq)))

theorem keeps_extend (h : list.Fits) (items : List α) : (extendCourse mem items list).Keeps Fits :=
  keeps_store h items fun roomy heq ↦ by simp [heq]

theorem keeps_yield (h : list.Fits) (item : Except ListError α) :
    (yieldCourse mem item list).Keeps Fits := by
  cases item with
  | ok a => exact keeps_extend h [a]
  | error e => exact .fail h

theorem keeps_tryExtend (h : list.Fits) (hint : Nat) (yielded : List (Except ListError α)) :
    (tryExtendCourse mem hint yielded list).Keeps Fits := by
  have happend : (appendYieldedCourse mem hint yielded list).Keeps Fits :=
    keeps_afterRoom h (fun _ ↦ roomier_of_roomForMore) fun roomy hroom ↦
      .forEach (fun item _ _ hfits ↦ keeps_yield hfits item) (h.roomier hroom)
  refine happend.handle fun e _ ↦ ?_
  have hshrink := keeps_shrink happend.state list.length
  exact hshrink.bind fun _ _ ↦ .fail hshrink.state

theorem keeps_splice (h : list.Fits) (first removed : Nat) (items : List α) :
    (spliceCourse mem first removed items list).Keeps Fits := by
  dsimp only [spliceCourse]
  split
  · exact .fail h
  · refine keeps_afterRoom h (fun _ ↦ roomier_of_roomFor) fun roomy hroom ↦ ?_
    refine .exchange items _ (h.roomier hroom) (h.holding_roomier hroom ?_)
      (h.holding_roomier hroom ?_)
    · omega
    · simp only [List.length_append]
      omega

theorem keeps_setSlice (h : list.Fits) (slice : Slice) (items : List α) :
    (setSliceCourse mem slice items list).Keeps Fits := by
  rw [setSliceCourse]
  split
  · exact .fail h
  · split
    · exact keeps_splice h _ _ items
    · split
      · exact .forEach (fun entry _ _ hfits ↦ (keeps_overwrite hfits entry.1 entry.2).imp
          fun _ hafter ↦ hafter.1) h
      · exact .fail h

theorem keeps_delSlice (h : list.Fits) (slice : Slice) :
    (delSliceCourse mem slice list).Keeps Fits := by
  rw [delSliceCourse]
  split
  · exact .fail h
  · next selection _ =>
    split
    · exact .done h
    · split
      · exact keeps_splice h _ _ []
      · have hlength : (sweep list.toList selection).order.length = list.length := by
          rw [(order_sweep_perm list.toList selection).length_eq, length_toList]
        exact keeps_shrink (h.holding (Nat.le_of_eq hlength)) _

/-- **Every operation keeps the invariant of buffers**, wherever it may end. -/
theorem Operation.keeps_fits (h : list.Fits) (operation : Operation α (List α)) :
    (operation.course mem list).Keeps Fits := by
  cases operation with
  | read i | contains a | count a | index a start stop | equal other | elements | text
  | summary => exact .still h
  | assign i a => exact (keeps_atIndex h (fun position ↦ (keeps_overwrite h position a).imp
      fun _ hafter ↦ hafter.1) i).map
  | delete i => exact (keeps_atIndex h (keeps_withdraw h) i).map
  | append a => exact (keeps_extend h [a]).map
  | insert position a =>
    refine (keeps_store h [a] fun roomy heq ↦ ?_).map
    rw [List.length_insertIdx_of_le_length, heq]
    · rfl
    · rw [length_toList]
      exact clampPosition_le position _
  | pop i => exact (keeps_pop h i).map
  | remove a => exact (keeps_remove h _).map
  | clear => exact (keeps_shrink h 0).map
  | reverse => exact .done (h.holding (Nat.le_of_eq (by simp)))
  | extendSelf => exact (keeps_extend h list.toList).map
  | extendFromList items => exact (keeps_extend h items).map
  | extend items hint => exact (keeps_tryExtend h _ _).map
  | tryExtend yielded hint => exact (keeps_tryExtend h _ yielded).map
  | ensureCapacity required =>
    exact (keeps_afterRoom h (fun _ ↦ roomier_of_roomFor) fun _ hroom ↦
      .done (h.roomier hroom)).map
  | shrinkTo n => exact (keeps_shrink h n).map
  | setSlice s items => exact (keeps_setSlice h s items).map
  | delSlice s => exact (keeps_delSlice h s).map

end

/-! ## Conservation -/

section
variable [Element α] [DecidableEq α] {mem : Allocator} {list : UniformList α}

theorem conserves_afterRoom {β : Type} {given : β → α → Int}
    {room : Except ListError (UniformList α)}
    {course : UniformList α → Course α (UniformList α) β} {required : Nat}
    (hroom : ∀ roomy, room = .ok roomy → Roomier list roomy required)
    (hcourse : ∀ roomy, Roomier list roomy required →
      (course roomy).Conserves stock given roomy.stock) :
    (afterRoom list room course).Conserves stock given list.stock := by
  cases room with
  | ok roomy => exact stock_roomier (hroom roomy rfl) ▸ hcourse roomy (hroom roomy rfl)
  | error e => exact .fail fun _ ↦ rfl

theorem conserves_store (items : List α) {put : UniformList α → List α}
    (hput : ∀ roomy : UniformList α, roomy.toList = list.toList → ∀ a,
      (put roomy).count a = roomy.toList.count a + items.count a) :
    (storeCourse mem items put list).Conserves stock nothing list.stock := by
  refine conserves_afterRoom (fun _ ↦ roomier_of_roomForMore) fun roomy hroom ↦ ?_
  refine .takeIn items (fun a ↦ Int.le_refl _) fun a ↦ ?_
  have := hput roomy hroom.toList_eq a
  simp only [stock, toList_holding, nothing]
  omega

theorem conserves_extend (items : List α) :
    (extendCourse mem items list).Conserves stock nothing list.stock :=
  conserves_store items fun _ _ _ ↦ List.count_append

theorem conserves_yield (item : Except ListError α) :
    (yieldCourse mem item list).Conserves stock nothing list.stock := by
  cases item with
  | ok a => exact conserves_extend [a]
  | error e => exact .fail fun _ ↦ rfl

theorem conserves_tryExtend (hint : Nat) (yielded : List (Except ListError α)) :
    (tryExtendCourse mem hint yielded list).Conserves stock nothing list.stock := by
  have happend : (appendYieldedCourse mem hint yielded list).Conserves stock nothing list.stock :=
    conserves_afterRoom (fun _ ↦ roomier_of_roomForMore) fun roomy _ ↦
      .forEach (P := fun _ ↦ True) (fun _ _ _ _ ↦ ⟨fun _ _ ↦ trivial, trivial⟩)
        (fun item _ _ _ ↦ conserves_yield item) trivial
  exact happend.handle fun e _ ↦ (conserves_shrink list.length).bind fun _ _ ↦
    .fail fun a ↦ by simp [nothing]

theorem conserves_splice (first removed : Nat) (items : List α) :
    (spliceCourse mem first removed items list).Conserves stock nothing list.stock := by
  dsimp only [spliceCourse]
  split
  · exact .fail fun _ ↦ rfl
  · refine conserves_afterRoom (fun _ ↦ roomier_of_roomFor) fun roomy hroom ↦ ?_
    have hparts (a : α) := count_take_drop list.toList first removed a
    rw [stock_roomier hroom]
    refine .exchange items _ (fun a ↦ ?_) (fun a ↦ ?_) fun a ↦ ?_
    · exact Int.le_of_eq (congrFun (stock_roomier hroom) a)
    all_goals
      have := hparts a
      simp only [stock, toList_holding, nothing, List.count_append]
      omega

theorem conserves_setSlice (h : list.Fits) (slice : Slice) (items : List α) :
    (setSliceCourse mem slice items list).Conserves stock nothing list.stock := by
  rw [setSliceCourse]
  split
  · exact .fail fun _ ↦ rfl
  · next selection hresolve =>
    have hinside := Slice.inside_of_resolve h.length_le_max hresolve
    split
    · exact conserves_splice _ _ items
    · split
      · -- the length stays the same, so the positions are those of the list all the way
        refine .forEach (P := fun after ↦ after.Fits ∧ after.length = list.length)
          (fun entry _ after hafter ↦ ?_) (fun entry hmem after hafter ↦ ?_) ⟨h, rfl⟩
        · exact hafter.2 ▸ keeps_overwrite hafter.1 entry.1 entry.2
        · have hposition := hinside.lt_of_mem_positions (List.of_mem_zip hmem).1
          exact conserves_overwrite (hafter.2 ▸ hposition) entry.2
      · exact .fail fun _ ↦ rfl

theorem conserves_delSlice (slice : Slice) :
    (delSliceCourse mem slice list).Conserves stock nothing list.stock := by
  rw [delSliceCourse]
  split
  · exact .fail fun _ ↦ rfl
  · next selection _ =>
    split
    · exact .done fun a ↦ by simp [nothing]
    · split
      · exact conserves_splice _ _ []
      · have hstock : (list.holding (sweep list.toList selection).order).stock = list.stock := by
          funext a
          simp only [stock, toList_holding, (order_sweep_perm list.toList selection).count_eq]
        exact hstock ▸ conserves_shrink _

/-- **The books of every operation balance.** -/
theorem Operation.conserves (h : list.Fits) (operation : Operation α (List α)) :
    (operation.course mem list).Conserves stock
      (fun answer a ↦ ((operation.given answer).count a : Int)) list.stock := by
  cases operation with
  | read i => exact .still fun a ↦ by cases list.read i <;> simp [handed, Except.map, given, role]
  | index a start stop =>
    exact .still fun b ↦ by cases list.index a start stop <;> simp [handed, Except.map, given, role]
  | contains a | count a | equal other | elements | text | summary =>
    exact .done fun b ↦ by simp [given, role]
  | assign i a =>
    exact conserves_silently _ (conserves_atIndex (fun _ hlt ↦ conserves_overwrite hlt a) i)
  | delete i =>
    exact conserves_silently _ (conserves_atIndex (fun position _ ↦ conserves_withdraw position) i)
  | append a => exact conserves_silently _ (conserves_extend [a])
  | insert position a =>
    refine conserves_silently _ (conserves_store [a] fun roomy heq b ↦ ?_)
    have hclamp : clampPosition position roomy.length ≤ roomy.toList.length := by
      rw [length_toList]
      exact clampPosition_le position _
    rw [(List.perm_insertIdx a _ hclamp).count_eq, ← List.singleton_append, List.count_append,
      Nat.add_comm]
  | pop i => exact (conserves_pop i).map fun _ _ ↦ rfl
  | remove a => exact conserves_silently _ (conserves_remove _)
  | clear => exact conserves_silently _ (conserves_shrink 0)
  | reverse => exact conserves_silently _ (.done fun a ↦ by simp [stock, nothing])
  | extendSelf => exact conserves_silently _ (conserves_extend list.toList)
  | extendFromList items => exact conserves_silently _ (conserves_extend items)
  | extend items hint => exact conserves_silently _ (conserves_tryExtend _ _)
  | tryExtend yielded hint => exact conserves_silently _ (conserves_tryExtend _ yielded)
  | ensureCapacity required =>
    exact conserves_silently _ (conserves_afterRoom (fun _ ↦ roomier_of_roomFor) fun _ _ ↦
      .done fun a ↦ by simp [nothing])
  | shrinkTo n => exact conserves_silently _ (conserves_shrink n)
  | setSlice s items => exact conserves_silently _ (conserves_setSlice h s items)
  | delSlice s => exact conserves_silently _ (conserves_delSlice s)

end

/-! ## New lists -/

section
variable [Element α] [DecidableEq α] {mem : Allocator} {list : UniformList α} {s : σ}

/-- What is to be known of a course that makes a list. -/
structure Making (s : σ) (course : Course α σ (UniformList α)) : Prop where
  /-- Its books balance: it acquires what the new list holds. -/
  conserves : ∀ held : σ → α → Int, course.Conserves held stock (held s)
  /-- Wherever it ends, the state outside is as before. -/
  keeps : course.Keeps (· = s)
  /-- The new list satisfies the invariant of buffers. -/
  fits : ∀ made, course.result = .ok made → made.Fits

theorem Making.fail (e : ListError) : Making s (.fail s e : Course α σ (UniformList α)) where
  conserves _ := .fail fun _ ↦ rfl
  keeps := .fail rfl
  fits _ h := by cases h

/-- A list without elements costs nothing. -/
theorem Making.of_nil {result : Except ListError (UniformList α)}
    (h : ∀ made, result = .ok made → made.Fits ∧ made.toList = []) :
    Making s ⟨[], s, result⟩ where
  conserves held := .still fun a ↦ by
    cases result with
    | ok made => simp [handed, stock, (h made rfl).2]
    | error e => simp [handed]
  keeps := .still rfl
  fits made hmade := (h made hmade).1

/-- What is built is paid for by filling it. -/
theorem making_build {growth : Growth} {room : Nat}
    {fill : UniformList α → Course α (UniformList α) Unit}
    (hconserves : ∀ start, start.Fits → (fill start).Conserves stock nothing start.stock)
    (hkeeps : ∀ start, start.Fits → (fill start).Keeps Fits) :
    Making s (buildCourse mem growth room fill s) := by
  rw [buildCourse]
  split
  · next start hroom =>
    obtain ⟨hfits, hnil, -, -⟩ := fits_of_newRoom hroom
    have hstock : start.stock = fun _ ↦ 0 := by
      funext a
      simp [stock, hnil]
    refine ⟨fun held ↦ .construct (hstock ▸ hconserves start hfits), .construct rfl, ?_⟩
    intro made hmade
    obtain ⟨rfl, -⟩ := of_construct_ok hmade
    exact (hkeeps start hfits).state
  · exact .fail _

theorem Origin.making (origin : Origin (List α)) : Making s (origin.course mem s) := by
  cases origin with
  | empty growth =>
    refine .of_nil fun made hmade ↦ ?_
    cases hmade
    exact ⟨fits_empty growth, rfl⟩
  | withCapacity room =>
    refine .of_nil fun made hmade ↦ ?_
    obtain ⟨hfits, hnil, -, -⟩ := fits_of_newRoom hmade
    exact ⟨hfits, hnil⟩
  | ofList items =>
    exact making_build (fun _ _ ↦ conserves_extend items) fun _ h ↦ keeps_extend h items
  | ofIterator items hint =>
    exact making_build (fun _ _ ↦ conserves_tryExtend _ _) fun _ h ↦ keeps_tryExtend h _ _

theorem making_concat (items : List α) : Making s (list.concatCourse mem items s) := by
  dsimp only [concatCourse]
  split
  · exact .fail _
  · refine making_build (fun start _ ↦ ?_) fun start hstart ↦ ?_
    · refine (conserves_extend list.toList).bind fun _ _ ↦ ?_
      simpa [nothing] using conserves_extend items
    · have hfirst : (extendCourse mem list.toList start).Keeps Fits := keeps_extend hstart _
      exact hfirst.bind fun _ _ ↦ keeps_extend hfirst.state items

theorem making_repetition (times : Int64) : Making s (list.repetitionCourse mem times s) := by
  dsimp only [repetitionCourse]
  split
  · refine .of_nil fun made hmade ↦ ?_
    cases hmade
    exact ⟨fits_empty list.growth, rfl⟩
  · split
    · exact .fail _
    · refine making_build (fun start _ ↦ ?_) fun start hstart ↦ ?_
      · exact .forEach (P := fun _ ↦ True) (fun _ _ _ _ ↦ ⟨fun _ _ ↦ trivial, trivial⟩)
          (fun _ _ _ _ ↦ conserves_extend list.toList) trivial
      · exact .forEach (fun _ _ _ hfits ↦ keeps_extend hfits list.toList) hstart

theorem making_slice (slice : Slice) : Making s (list.sliceCourse mem slice s) := by
  rw [sliceCourse]
  split
  · exact .fail _
  · next selection _ =>
    refine making_build (fun start _ ↦ ?_) fun start hstart ↦ ?_
    all_goals
      rw [selectCourse]
      split
    · exact conserves_extend _
    · exact conserves_tryExtend _ _
    · exact keeps_extend hstart _
    · exact keeps_tryExtend hstart _ _

theorem Derivation.making (derivation : Derivation (List α)) :
    Making s (derivation.course mem list s) := by
  cases derivation with
  | copy => exact making_build (fun _ _ ↦ conserves_extend _) fun _ h ↦ keeps_extend h _
  | concat other => exact making_concat other
  | repetition times => exact making_repetition times
  | slice written => exact making_slice written

end
end UniformList
end ListRuntime
