import ListRuntime.Proofs.UniformList.Course

/-!
# Courses of making lists

A new list is filled where nobody sees it.  The state outside is the same at every stage of such a
course, and what an unwinding or a failure gives up is what was filled so far.

* `buildCourse` is the one course behind all new lists; `concatCourse`, `repetitionCourse` and
  `sliceCourse` say which room is made and what it is filled with.
-/

set_option autoImplicit false

namespace ListRuntime
namespace UniformList

open ListRuntime.Action

variable {α σ : Type} {mem : Allocator} [Element α]

/-! ## New lists -/

/-- Make room for a new list, and fill it in a place of its own. -/
def buildCourse (mem : Allocator) (growth : Growth) (room : Nat)
    (fill : UniformList α → Course α (UniformList α) Unit) (s : σ) : Course α σ (UniformList α) :=
  match newRoom mem growth room with
  | .ok start => (fill start).construct (·.toList) s
  | .error e => .fail s e

/-- The room of a new list is a new buffer. -/
theorem newRoom_eq (mem : Allocator) (growth : Growth) (room : Nat) :
    (newRoom mem growth room : Except ListError (UniformList α)) =
      match Buffer.withCapacity (Element.layout α) mem room with
      | .ok buffer => .ok { buffer with growth }
      | .error cause => .error (.allocation cause) := by
  have hempty : (Buffer.empty (Element.layout α) : Buffer α).capacity = 0 :=
    Layout.initialCapacity_eq Element.isSlot
  simp only [Buffer.withCapacity, Buffer.growExact, hempty, newRoom]
  cases (Element.layout α).grow mem 0 room <;> rfl

/-- A new list without elements. -/
theorem fresh_follows (growth : Growth) (room : Nat) (s : σ) :
    (fresh growth room : Action α σ (UniformList α)).Follows mem s
      ⟨[], s, newRoom mem growth room⟩ := by
  refine (Follows.of_done fun mishap ↦ run_allocator mem mishap s).bind_done ?_
  rw [newRoom_eq]
  cases (Buffer.withCapacity (Element.layout α) mem room : Except AllocError (Buffer α)) with
  | ok buffer => exact .pure _
  | error cause => exact .throw _

theorem build_follows {growth : Growth} {room : Nat} {fill : Action α (UniformList α) Unit}
    {fillCourse : UniformList α → Course α (UniformList α) Unit}
    (hfill : ∀ list, fill.Follows mem list (fillCourse list)) (s : σ) :
    (build growth room fill).Follows mem s (buildCourse mem growth room fillCourse s) := by
  have hfresh : (fresh growth room : Action α σ (UniformList α)).Follows mem s
      ⟨[], s, newRoom mem growth room⟩ := fresh_follows growth room s
  rw [buildCourse]
  cases hroom : (newRoom mem growth room : Except ListError (UniformList α)) with
  | ok start => exact (hroom ▸ hfresh).bind_done (hfill start).construct
  | error e => exact (hroom ▸ hfresh).bind_error

/-! ## The operators -/

variable (list : UniformList α)

/-- Make a list of the elements of one list and then those of another. -/
def concatCourse (mem : Allocator) (items : List α) (s : σ) : Course α σ (UniformList α) :=
  let total := list.length + items.length
  if wordLimit ≤ total then .fail s .countOverflow
  else buildCourse mem list.growth total (fun start ↦
    (extendCourse mem list.toList start).bind fun _ ↦ extendCourse mem items) s

/-- Make a list of the elements of a list, a number of times over. -/
def repetitionCourse (mem : Allocator) (times : Int64) (s : σ) : Course α σ (UniformList α) :=
  let rounds := times.toNatClampNeg
  let total := list.length * rounds
  if times ≤ 0 ∨ list.toList = [] then .done s (empty list.growth)
  else if wordLimit ≤ total then .fail s .countOverflow
  else buildCourse mem list.growth total
    (Course.forEach (fun _ ↦ extendCourse mem list.toList) (List.replicate rounds ())) s

/-- Fill a new list with the selected elements. -/
def selectCourse (mem : Allocator) (selection : Selection) :
    UniformList α → Course α (UniformList α) Unit :=
  if selection.isContiguous then
    extendCourse mem ((list.toList.drop (selection.position 0)).take selection.count)
  else tryExtendCourse mem selection.count ((list.select selection).map .ok)

/-- Make a list of the selected elements. -/
def sliceCourse (mem : Allocator) (slice : Slice) (s : σ) : Course α σ (UniformList α) :=
  match slice.resolve list.length with
  | .error e => .fail s e
  | .ok selection => buildCourse mem list.growth selection.count (list.selectCourse mem selection) s

variable (s : σ)

theorem concat_follows (items : List α) :
    (list.concat items).Follows mem s (list.concatCourse mem items s) := by
  rw [concat, concatCourse]
  dsimp only
  split
  · exact (Follows.throw _).bind_error
  · exact build_follows (fun start ↦ (extendFromList_follows start list.toList).bind fun _ _ ↦
      extendFromList_follows _ items) s

theorem repetition_follows (times : Int64) :
    (list.repetition times).Follows mem s (list.repetitionCourse mem times s) := by
  have hempty : list.items.isEmpty = true ↔ list.toList = [] := by simp [Buffer.toList]
  rw [repetition, repetitionCourse]
  simp only [hempty]
  by_cases hnone : times ≤ 0 ∨ list.toList = []
  · rw [if_pos hnone, if_pos hnone]
    exact .pure _
  · rw [if_neg hnone, if_neg hnone]
    split
    · exact (Follows.throw _).bind_error
    · exact build_follows (fun start ↦ Follows.forEach
        (fun _ list' ↦ extendFromList_follows list' list.toList) _ start) s

theorem slice_follows (slice : Slice) :
    (list.slice slice).Follows mem s (list.sliceCourse mem slice s) := by
  rw [UniformList.slice, sliceCourse]
  have hresolve : (liftM (slice.resolve list.length) :
      Action α σ Selection).Follows mem s ⟨[], s, slice.resolve list.length⟩ :=
    Follows.ofExcept _
  cases hresult : slice.resolve list.length with
  | error e => exact (hresult ▸ hresolve).bind_error
  | ok selection =>
    refine (hresult ▸ hresolve).bind_done (build_follows (fun start ↦ ?_) s)
    rw [selectCourse]
    split
    · exact extendFromList_follows start _
    · exact tryExtend_follows start _ _

end UniformList
end ListRuntime
