import ListRuntime.Proofs.UniformList.Conservation
import ListRuntime.Proofs.UniformList.Filling
import ListRuntime.Proofs.UniformList.Slicing

/-!
# The lifetime of a uniform list

A list is made of elements or of another list, and after that it is changed by operations, any of
which may fail or be cut short by a hook that unwinds.

* `UniformList.Reachable` holds of the lists that all this can lead to.
* `SameBuffer` and `Grown` are what operations leave of the buffer and the policy of a list; which
  operations leave the buffer as it is can be told from `Operation.fixesRoom`.
* `Reachable.fits` and `Reachable.growth_eq` are the invariants: elements have slots, and the policy
  is the one that the list was made with.
-/

set_option autoImplicit false

namespace ListRuntime
namespace UniformList

open ListRuntime.Action Course

variable {α σ : Type}

/-! ## Buffers -/

/-- The same buffer and the same policy, whatever the elements. -/
def SameBuffer (before after : UniformList α) : Prop := ∃ items, after = before.holding items

theorem SameBuffer.refl (list : UniformList α) : SameBuffer list list := ⟨list.toList, rfl⟩

theorem SameBuffer.holding {list after : UniformList α} (h : SameBuffer list after)
    (items : List α) : SameBuffer list (after.holding items) := by
  obtain ⟨_, rfl⟩ := h
  exact ⟨items, rfl⟩

/-- The same policy, and no room is given up. -/
structure Grown (before after : UniformList α) : Prop where
  /-- The policy is the same. -/
  growth_eq : after.growth = before.growth
  /-- No room is given up. -/
  capacity_le : before.capacity ≤ after.capacity

theorem Grown.refl (list : UniformList α) : Grown list list := ⟨rfl, Nat.le_refl _⟩

theorem Grown.trans {one two three : UniformList α} (h : Grown one two) (h' : Grown two three) :
    Grown one three :=
  ⟨h'.growth_eq.trans h.growth_eq, Nat.le_trans h.capacity_le h'.capacity_le⟩

theorem Grown.holding {before after : UniformList α} (h : Grown before after) (items : List α) :
    Grown before (after.holding items) :=
  ⟨h.growth_eq, h.capacity_le⟩

theorem SameBuffer.grown {before after : UniformList α} (h : SameBuffer before after) :
    Grown before after := by
  obtain ⟨_, rfl⟩ := h
  exact (Grown.refl before).holding _

/-- Whether an operation leaves the buffer as it is.  The others may have to make room. -/
def Operation.fixesRoom {v w : Type} : Operation v w → Bool
  | append _ | insert .. | extendSelf | extendFromList _ | extend .. | tryExtend ..
  | ensureCapacity _ => false
  | setSlice slice _ => slice.stride ≠ 1
  | _ => true

/-! ## Operations that leave the buffer as it is -/

section
variable {list after : UniformList α}

theorem buffer_overwrite (h : SameBuffer list after) (position : Nat) (a : α) :
    (overwriteCourse position a after).Keeps (SameBuffer list) :=
  .exchange [a] _ h (h.holding _) (h.holding _)

theorem buffer_withdraw (list : UniformList α) (position : Nat) :
    (withdrawCourse position list).Keeps (SameBuffer list) :=
  .giveUp _ ((SameBuffer.refl list).holding _) ((SameBuffer.refl list).holding _)

theorem buffer_shrink (h : SameBuffer list after) (n : Nat) :
    (shrinkCourse n after).Keeps (SameBuffer list) :=
  .giveUp _ (h.holding _) (h.holding _)

theorem buffer_atIndex {course : Nat → UniformList α → Course α (UniformList α) Unit}
    (h : ∀ position, (course position list).Keeps (SameBuffer list)) (index : Int64) :
    (atIndex index course list).Keeps (SameBuffer list) := by
  rw [atIndex]
  split
  · exact h _
  · exact .fail (.refl list)

theorem buffer_remove (list : UniformList α) (test : α → Bool) :
    (removeCourse test list).Keeps (SameBuffer list) := by
  rw [removeCourse]
  split
  · exact buffer_withdraw list _
  · exact .fail (.refl list)

theorem buffer_pop (list : UniformList α) (index : Option Int64) :
    (popCourse index list).Keeps (SameBuffer list) := by
  rw [popCourse]
  split
  · exact .fail (.refl list)
  · split
    · exact .done ((SameBuffer.refl list).holding _)
    · exact .fail (.refl list)

variable [Element α] {mem : Allocator}

theorem buffer_setSlice (h : list.Fits) {slice : Slice} (hstride : slice.stride ≠ 1)
    (items : List α) : (setSliceCourse mem slice items list).Keeps (SameBuffer list) := by
  by_cases hzero : slice.stride = 0
  · rw [setSliceCourse_of_zero hzero]
    exact .fail (.refl list)
  · rw [setSliceCourse_of_stepped h hzero hstride]
    split
    · exact .forEach (fun entry _ _ hsame ↦ buffer_overwrite hsame entry.1 entry.2) (.refl list)
    · exact .fail (.refl list)

theorem buffer_delSlice (h : list.Fits) (slice : Slice) :
    (delSliceCourse mem slice list).Keeps (SameBuffer list) := by
  by_cases hzero : slice.stride = 0
  · rw [delSliceCourse_of_zero hzero]
    exact .fail (.refl list)
  · obtain ⟨released, -, hcourse⟩ := delSliceCourse_eq h hzero
    rw [hcourse]
    exact .giveUp released ((SameBuffer.refl list).holding _) ((SameBuffer.refl list).holding _)

/-- **Operations that take nothing in leave the buffer as it is**, wherever they end. -/
theorem Operation.keeps_buffer (h : list.Fits) (operation : Operation α (List α))
    (hfixes : operation.fixesRoom = true) :
    (operation.course mem list).Keeps (SameBuffer list) := by
  cases operation with
  | append _ | insert _ _ | extendSelf | extendFromList _ | extend _ _ | tryExtend _ _
  | ensureCapacity _ => cases hfixes
  | read i | contains a | count a | index a start stop | equal other | elements | text
  | summary => exact .still (.refl list)
  | assign i a => exact (buffer_atIndex (fun position ↦
      buffer_overwrite (.refl list) position a) i).map
  | delete i => exact (buffer_atIndex (buffer_withdraw list) i).map
  | pop i => exact (buffer_pop list i).map
  | remove a => exact (buffer_remove list _).map
  | clear => exact (buffer_shrink (.refl list) 0).map
  | reverse => exact .done ((SameBuffer.refl list).holding _)
  | shrinkTo n => exact (buffer_shrink (.refl list) n).map
  | setSlice s items => exact (buffer_setSlice h (by simpa [fixesRoom] using hfixes) items).map
  | delSlice s => exact (buffer_delSlice h s).map

/-! ## Operations that make room -/

theorem grown_afterRoom {β : Type} {room : Except ListError (UniformList α)}
    {course : UniformList α → Course α (UniformList α) β} {required : Nat}
    (hroom : ∀ roomy, room = .ok roomy → Roomier list roomy required)
    (hcourse : ∀ roomy, Grown list roomy → (course roomy).Keeps (Grown list)) :
    (afterRoom list room course).Keeps (Grown list) := by
  cases room with
  | ok roomy =>
    have hroomier := hroom roomy rfl
    exact hcourse roomy ⟨hroomier.growth_eq, hroomier.capacity_le⟩
  | error e => exact .fail (.refl list)

theorem grown_store (items : List α) (put : UniformList α → List α) :
    (storeCourse mem items put list).Keeps (Grown list) :=
  grown_afterRoom (fun _ ↦ roomier_of_roomForMore) fun _ hgrown ↦
    .takeIn items hgrown (hgrown.holding _)

theorem grown_yield (item : Except ListError α) :
    (yieldCourse mem item list).Keeps (Grown list) := by
  cases item with
  | ok a => exact grown_store [a] _
  | error e => exact .fail (.refl list)

theorem grown_tryExtend (hint : Nat) (yielded : List (Except ListError α)) :
    (tryExtendCourse mem hint yielded list).Keeps (Grown list) := by
  have happend : (appendYieldedCourse mem hint yielded list).Keeps (Grown list) :=
    grown_afterRoom (fun _ ↦ roomier_of_roomForMore) fun roomy hgrown ↦
      .forEach (fun item _ _ hreached ↦ (grown_yield item).imp fun _ ↦ hreached.trans) hgrown
  refine happend.handle fun e _ ↦ ?_
  have hshrink : (shrinkCourse list.length
      (appendYieldedCourse mem hint yielded list).state).Keeps (Grown list) :=
    .giveUp _ (happend.state.holding _) (happend.state.holding _)
  exact hshrink.bind fun _ _ ↦ .fail hshrink.state

theorem grown_splice (first removed : Nat) (items : List α) :
    (spliceCourse mem first removed items list).Keeps (Grown list) := by
  dsimp only [spliceCourse]
  split
  · exact .fail (.refl list)
  · exact grown_afterRoom (fun _ ↦ roomier_of_roomFor) fun _ hgrown ↦
      .exchange items _ hgrown (hgrown.holding _) (hgrown.holding _)

/-- **No operation gives room up or changes the policy**, wherever it ends. -/
theorem Operation.keeps_grown (h : list.Fits) (operation : Operation α (List α)) :
    (operation.course mem list).Keeps (Grown list) := by
  by_cases hfixes : operation.fixesRoom = true
  · exact (operation.keeps_buffer h hfixes).imp fun _ hsame ↦ hsame.grown
  · cases operation with
    | append a => exact (grown_store [a] _).map
    | insert position a => exact (grown_store [a] _).map
    | extendSelf => exact (grown_store list.toList _).map
    | extendFromList items => exact (grown_store items _).map
    | extend items hint => exact (grown_tryExtend _ _).map
    | tryExtend yielded hint => exact (grown_tryExtend _ yielded).map
    | ensureCapacity required =>
      exact (grown_afterRoom (fun _ ↦ roomier_of_roomFor) fun _ hgrown ↦ .done hgrown).map
    | setSlice s items =>
      have hstride : s.stride = 1 := by simpa [fixesRoom] using hfixes
      refine Keeps.map ?_
      rw [setSliceCourse_of_contiguous h hstride]
      exact grown_splice _ _ items
    | _ => exact absurd rfl hfixes

end

/-! ## Lifetimes -/

variable [Element α]

/-- The policy that a list is made with. -/
def Origin.growth {w : Type} : Origin w → Growth
  | empty growth => growth
  | _ => .standard

/-- Lists that can come up in the life of a list that was made with a policy.  Whatever is done may
be given any allocator and may be cut short by any mishap. -/
inductive Reachable : Growth → UniformList α → Prop where
  /-- A list is made of elements. -/
  | made {origin : Origin (List α)} {mem : Allocator} {mishap : Mishap} {list : UniformList α}
      (h : (origin.action.run mem mishap ()).ending = .returned list) :
      Reachable origin.growth list
  /-- A list is made of a list, of which it takes the policy. -/
  | derived {growth : Growth} {source : UniformList α} (hsource : Reachable growth source)
      {derivation : Derivation (List α)} {mem : Allocator} {mishap : Mishap} {list : UniformList α}
      (h : ((derivation.action source).run mem mishap ()).ending = .returned list) :
      Reachable growth list
  /-- A list is changed, or an attempt at that is made. -/
  | changed {growth : Growth} {list : UniformList α} (hlist : Reachable growth list)
      (operation : Operation α (List α)) (mem : Allocator) (mishap : Mishap) :
      Reachable growth (operation.action.run mem mishap list).state
  /-- An element is removed by a test of the caller's, as dynamic lists do it. -/
  | removed {growth : Growth} {list : UniformList α} (hlist : Reachable growth list)
      (test : α → Bool) (mem : Allocator) (mishap : Mishap) :
      Reachable growth ((removeWhere test).run mem mishap list).state

variable {mem : Allocator} {s : σ}

theorem growth_of_build {growth : Growth} {room : Nat} {made : UniformList α}
    {fill : UniformList α → Course α (UniformList α) Unit}
    (hfill : ∀ start, (fill start).Keeps (Grown start))
    (h : (buildCourse mem growth room fill s).result = .ok made) : made.growth = growth := by
  rw [buildCourse] at h
  split at h
  · next start hroom =>
    obtain ⟨-, -, hgrowth, -⟩ := fits_of_newRoom hroom
    obtain ⟨rfl, -⟩ := of_construct_ok h
    exact (hfill start).state.growth_eq.trans hgrowth
  · cases h

theorem Origin.growth_of_course {origin : Origin (List α)} {made : UniformList α}
    (h : (origin.course mem s).result = .ok made) : made.growth = origin.growth := by
  cases origin with
  | empty growth =>
    cases h
    rfl
  | withCapacity room =>
    obtain ⟨-, -, hgrowth, -⟩ := fits_of_newRoom h
    exact hgrowth
  | ofList items => exact growth_of_build (fun _ ↦ grown_store items _) h
  | ofIterator items hint => exact growth_of_build (fun _ ↦ grown_tryExtend _ _) h

theorem Derivation.growth_of_course {list made : UniformList α} {derivation : Derivation (List α)}
    (h : (derivation.course mem list s).result = .ok made) : made.growth = list.growth := by
  cases hroom : derivation.room list with
  | ok room => exact ((derivation.makesAtOnce list hroom).of_ok h).2.1
  | error e =>
    rw [derivation.course_of_error list hroom mem s] at h
    cases h

/-- **The invariants of a lifetime.** -/
theorem Reachable.invariant {growth : Growth} {list : UniformList α} (h : Reachable growth list) :
    list.Fits ∧ list.growth = growth := by
  classical
  induction h with
  | made hmade =>
    rw [Origin.action_follows _ ()] at hmade
    have hresult := (of_run_returned hmade).1
    exact ⟨(Origin.making _).fits _ hresult, Origin.growth_of_course hresult⟩
  | derived _ hmade ih =>
    rw [Derivation.action_follows _ _ ()] at hmade
    have hresult := (of_run_returned hmade).1
    exact ⟨(Derivation.making _).fits _ hresult,
      (Derivation.growth_of_course hresult).trans ih.2⟩
  | changed _ operation mem mishap ih =>
    obtain ⟨hfits, hgrowth⟩ := ih
    rw [operation.action_follows _ mishap]
    exact ⟨(operation.keeps_fits hfits).run mishap,
      ((operation.keeps_grown hfits).run mishap).growth_eq.trans hgrowth⟩
  | @removed _ list _ test mem mishap ih =>
    obtain ⟨hfits, hgrowth⟩ := ih
    rw [removeWhere_follows list test mishap]
    exact ⟨(keeps_remove hfits test).run mishap,
      ((buffer_remove list test).run mishap).grown.growth_eq.trans hgrowth⟩

/-- In a lifetime, all elements have slots. -/
theorem Reachable.fits {growth : Growth} {list : UniformList α} (h : Reachable growth list) :
    list.Fits := h.invariant.1

/-- In a lifetime, the policy does not change. -/
theorem Reachable.growth_eq {growth : Growth} {list : UniformList α} (h : Reachable growth list) :
    list.growth = growth := h.invariant.2

end UniformList
end ListRuntime
