import ListRuntime.Proofs.UniformList.Room
import ListRuntime.UniformList.Slicing

/-!
# Courses of operations on uniform lists

The course of every operation in closed form: which hook calls it makes and in which states, what it
leaves and what comes of it.  Whatever is to be known of an operation can be read off here, whether
all its calls return or one of them unwinds.

* The courses are functions of the list (`extendCourse`, `spliceCourse` and so on), and for each of
  them there is one theorem that the operation follows it.
* Loops keep the shape of loops, as `Course.forEach`.
-/

set_option autoImplicit false

namespace ListRuntime
namespace UniformList

open ListRuntime.Action

variable {α σ : Type} {mem : Allocator}

/-! ## One element -/

/-- Acquire `a`, put it in the place of the element at `position`, and release that one. -/
def overwriteCourse (position : Nat) (a : α) (list : UniformList α) :
    Course α (UniformList α) Unit :=
  let changed := list.holding (list.toList.set position a)
  ⟨Stage.row .acquire [a] list ++ Stage.row .release list.toList[position]?.toList changed,
    changed, .ok ()⟩

/-- Unlink the element at `position`, then release it. -/
def withdrawCourse (position : Nat) (list : UniformList α) : Course α (UniformList α) Unit :=
  let changed := list.holding (list.toList.eraseIdx position)
  ⟨Stage.row .release list.toList[position]?.toList changed, changed, .ok ()⟩

/-- Keep the first `n` elements, then release the others. -/
def shrinkCourse (n : Nat) (list : UniformList α) : Course α (UniformList α) Unit :=
  let changed := list.holding (list.toList.take n)
  ⟨Stage.row .release (list.toList.drop n) changed, changed, .ok ()⟩

theorem items_getElem? (list : UniformList α) (position : Nat) :
    list.items[position]? = list.toList[position]? := Array.getElem?_toList.symm

theorem eq_holding (list : UniformList α) {slots : Array α} {items : List α}
    (h : slots.toList = items) : { list with items := slots } = list.holding items := by
  rw [← h]
  rfl

theorem overwrite_follows (list : UniformList α) (position : Nat) (a : α) :
    (overwrite position a).Follows mem list (overwriteCourse position a list) := by
  have hput : (modifyGet fun list ↦ (list.items[position]?,
      { list with items := list.items.setIfInBounds position a }) :
        Action α (UniformList α) (Option α)).Follows mem list
      (.done (list.holding (list.toList.set position a)) list.toList[position]?) := by
    refine (Follows.modifyGet _).of_eq ?_
    rw [items_getElem?, eq_holding list Array.toList_setIfInBounds]
    rfl
  exact ((Follows.callAll .acquire [a]).bind_ok (hput.bind_done (.callAll .release _))).of_eq rfl

theorem withdraw_follows (list : UniformList α) (position : Nat) :
    (withdraw position).Follows mem list (withdrawCourse position list) := by
  have htake : (modifyGet fun list ↦ (list.items[position]?,
      { list with items := list.items.eraseIdxIfInBounds position }) :
        Action α (UniformList α) (Option α)).Follows mem list
      (.done (list.holding (list.toList.eraseIdx position)) list.toList[position]?) := by
    refine (Follows.modifyGet _).of_eq ?_
    rw [items_getElem?, eq_holding list Array.toList_eraseIdxIfInBounds]
    rfl
  exact (htake.bind_done (.callAll .release _)).of_eq rfl

theorem shrinkTo_follows (list : UniformList α) (n : Nat) :
    (shrinkTo n).Follows mem list (shrinkCourse n list) := by
  have hset : (set { list with items := list.items.take n } :
      Action α (UniformList α) PUnit).Follows mem list
      (.done (list.holding (list.toList.take n)) ()) := by
    rw [← eq_holding list (show (list.items.take n).toList = list.toList.take n by
      simp [Buffer.toList])]
    exact .set _
  exact (Follows.get_bind (hset.bind_done (.callAll .release _))).of_eq rfl

/-- Cutting off nothing does nothing. -/
theorem shrinkCourse_of_le {n : Nat} {list : UniformList α} (h : list.length ≤ n) :
    shrinkCourse n list = .done list () := by
  rw [← length_toList] at h
  rw [shrinkCourse, List.drop_of_length_le h, List.take_of_length_le h]
  rfl

/-! ## Operations on one element -/

/-- Go on at the position of an index, if there is one. -/
def atIndex (index : Int64) (course : Nat → UniformList α → Course α (UniformList α) Unit)
    (list : UniformList α) : Course α (UniformList α) Unit :=
  match resolveIndex index list.length with
  | some position => course position list
  | none => .fail list .assignmentOutOfRange

/-- Hand an element over, and unlink it. -/
def popCourse (index : Option Int64) (list : UniformList α) : Course α (UniformList α) α :=
  if list.toList = [] then .fail list .popFromEmpty
  else match list.locate? (index.getD (-1)) with
    | some (position, a) => .done (list.holding (list.toList.eraseIdx position)) a
    | none => .fail list .popOutOfRange

/-- Withdraw the first element that passes `test`. -/
def removeCourse (test : α → Bool) (list : UniformList α) : Course α (UniformList α) Unit :=
  match list.toList.findIdx? test with
  | some position => withdrawCourse position list
  | none => .fail list .removeNotFound

theorem pop_follows (list : UniformList α) (index : Option Int64) :
    (pop index).Follows mem list (popCourse index list) := by
  refine Follows.get_bind ?_
  have hempty : list.items.isEmpty = true ↔ list.toList = [] := by simp [Buffer.toList]
  rw [popCourse]
  by_cases hnil : list.toList = []
  · rw [if_pos hnil, if_pos (hempty.2 hnil)]
    exact (Follows.throw _).bind_error
  · rw [if_neg hnil, if_neg (mt hempty.1 hnil)]
    dsimp only
    cases list.locate? (index.getD (-1)) with
    | none => exact .throw _
    | some found =>
      obtain ⟨position, a⟩ := found
      dsimp only
      rw [← eq_holding list Array.toList_eraseIdxIfInBounds]
      exact (Follows.set _).bind_done (.pure _)

theorem removeWhere_follows (list : UniformList α) (test : α → Bool) :
    (removeWhere test).Follows mem list (removeCourse test list) := by
  refine Follows.get_bind ?_
  rw [removeCourse]
  cases list.toList.findIdx? test with
  | some position => exact withdraw_follows list position
  | none => exact .throw _

theorem reverse_follows (list : UniformList α) :
    reverse.Follows mem list (.done (list.holding list.toList.reverse) ()) := by
  rw [← eq_holding list Array.toList_reverse]
  exact .modify _

theorem assign_follows (list : UniformList α) (index : Int64) (a : α) :
    (assign index a).Follows mem list (atIndex index (overwriteCourse · a) list) := by
  refine Follows.get_bind ?_
  rw [atIndex]
  cases resolveIndex index list.length with
  | some position => exact overwrite_follows list position a
  | none => exact .throw _

theorem delete_follows (list : UniformList α) (index : Int64) :
    (delete index).Follows mem list (atIndex index withdrawCourse list) := by
  refine Follows.get_bind ?_
  rw [atIndex]
  cases resolveIndex index list.length with
  | some position => exact withdraw_follows list position
  | none => exact .throw _

variable [Element α]

/-- Make room for elements, acquire them, then put them into the list. -/
def storeCourse (mem : Allocator) (items : List α) (put : UniformList α → List α)
    (list : UniformList α) : Course α (UniformList α) Unit :=
  afterRoom list (list.roomForMore mem items.length) fun roomy ↦
    ⟨Stage.row .acquire items roomy, roomy.holding (put roomy), .ok ()⟩

/-- Whatever makes room, acquires elements and then puts them into the list, does no more. -/
theorem store_follows (list : UniformList α) (items : List α) {put : UniformList α → List α}
    {change : UniformList α → UniformList α}
    (hput : ∀ roomy, change roomy = roomy.holding (put roomy)) :
    (do reserve items.length; acquireAll items; modify change :
      Action α (UniformList α) Unit).Follows mem list (storeCourse mem items put list) := by
  refine follows_afterRoom (reserve_follows mem list items.length) fun roomy _ ↦ ?_
  rw [← hput]
  refine ((Follows.callAll .acquire items).bind_ok (.modify change)).of_eq ?_
  simp [Course.after, Course.done]

/-- Store elements behind the others. -/
def extendCourse (mem : Allocator) (items : List α) :
    UniformList α → Course α (UniformList α) Unit :=
  storeCourse mem items (·.toList ++ items)

theorem append_follows (list : UniformList α) (a : α) :
    (append a).Follows mem list (extendCourse mem [a] list) :=
  store_follows list [a] fun roomy ↦ eq_holding roomy (Array.toList_push ..)

theorem insert_follows (list : UniformList α) (position : Int64) (a : α) :
    (insert position a).Follows mem list
      (storeCourse mem [a] (fun roomy ↦
        roomy.toList.insertIdx (clampPosition position roomy.length) a) list) :=
  store_follows list [a] fun _ ↦ rfl

/-! ## Operations on many elements -/

theorem extendFromList_follows (list : UniformList α) (items : List α) :
    (extendFromList items).Follows mem list (extendCourse mem items list) :=
  store_follows list items fun roomy ↦ eq_holding roomy Array.toList_appendList

theorem extendSelf_follows (list : UniformList α) :
    extendSelf.Follows mem list (extendCourse mem list.toList list) := by
  refine Follows.get_bind ?_
  rw [extendCourse, storeCourse, length_toList]
  refine follows_afterRoom (reserve_follows mem list list.length) fun roomy hroom ↦
    Follows.get_bind ?_
  -- making room may have moved the elements, but has changed none of them
  have hsame : roomy.toList = list.toList := (roomier_of_roomForMore hroom).toList_eq
  have hitems : (roomy.items ++ roomy.items.take list.length).toList =
      roomy.toList ++ roomy.toList := by
    rw [← length_eq_of_toList_eq hsame]
    simp [Buffer.toList, length]
  rw [← hsame, ← eq_holding roomy hitems]
  refine ((Follows.callAll .acquire roomy.toList).bind_ok (.modify _)).of_eq ?_
  simp [Course.after, Course.done]

/-- Append what an iterator yields, up to the first failure. -/
def yieldCourse (mem : Allocator) (item : Except ListError α) (list : UniformList α) :
    Course α (UniformList α) Unit :=
  match item with
  | .ok a => extendCourse mem [a] list
  | .error e => .fail list e

/-- Make the room that an iterator announces, and append what it yields. -/
def appendYieldedCourse (mem : Allocator) (hint : Nat) (yielded : List (Except ListError α))
    (list : UniformList α) : Course α (UniformList α) Unit :=
  afterRoom list (list.roomForMore mem hint) (Course.forEach (yieldCourse mem) yielded)

/-- The same, and after a failure cut off what was appended. -/
def tryExtendCourse (mem : Allocator) (hint : Nat) (yielded : List (Except ListError α))
    (list : UniformList α) : Course α (UniformList α) Unit :=
  (appendYieldedCourse mem hint yielded list).handle fun e reached ↦
    (shrinkCourse list.length reached).bind fun _ rest ↦ .fail rest e

theorem appendYielded_follows (list : UniformList α) (hint : Nat)
    (yielded : List (Except ListError α)) :
    (appendYielded hint yielded).Follows mem list (appendYieldedCourse mem hint yielded list) := by
  refine follows_afterRoom (reserve_follows mem list hint) fun roomy _ ↦
    Follows.forEach (fun item list ↦ ?_) yielded roomy
  cases item with
  | ok a => exact (Follows.ofExcept (.ok a)).bind_done (append_follows list a)
  | error e => exact (Follows.ofExcept (.error e)).bind_error

theorem tryExtend_follows (list : UniformList α) (hint : Nat)
    (yielded : List (Except ListError α)) :
    (tryExtend hint yielded).Follows mem list (tryExtendCourse mem hint yielded list) :=
  Follows.get_bind ((appendYielded_follows list hint yielded).tryCatch fun e _ ↦
    (shrinkTo_follows _ list.length).bind fun _ _ ↦ .throw e)

/-! ## Slices -/

/-- Make room, acquire the incoming elements, cut the list off before the outgoing ones, release
those, and put the incoming ones and the back of the list in their place. -/
def spliceCourse (mem : Allocator) (first removed : Nat) (items : List α) (list : UniformList α) :
    Course α (UniformList α) Unit :=
  let front := list.toList.take first
  let departing := (list.toList.drop first).take removed
  let back := list.toList.drop (first + removed)
  let total := front.length + back.length + items.length
  if wordLimit ≤ total then .fail list .countOverflow
  else afterRoom list (list.roomFor mem total) fun roomy ↦
    ⟨Stage.row .acquire items roomy ++ Stage.row .release departing (roomy.holding front),
      roomy.holding (front ++ items ++ back), .ok ()⟩

theorem splice_follows (list : UniformList α) (first removed : Nat) (items : List α) :
    (splice first removed items).Follows mem list (spliceCourse mem first removed items list) := by
  refine Follows.get_bind ?_
  dsimp only [spliceCourse]
  split
  · exact (Follows.throw _).bind_error
  · refine follows_afterRoom (ensureCapacity_follows mem list _) fun roomy _ ↦ ?_
    refine ((Follows.callAll .acquire items).bind_ok ((Follows.modify _).bind_done
      ((Follows.callAll .release _).bind_ok (.modify _)))).of_eq ?_
    simp [Course.after, Course.done, holding]

/-- Assign to a slice: splice a contiguous one, overwrite the positions of any other. -/
def setSliceCourse (mem : Allocator) (slice : Slice) (items : List α) (list : UniformList α) :
    Course α (UniformList α) Unit :=
  match slice.resolve list.length with
  | .error e => .fail list e
  | .ok selection =>
    if selection.isContiguous then
      spliceCourse mem selection.start.toNatClampNeg selection.count items list
    else if selection.count = items.length then
      Course.forEach (fun entry : Nat × α ↦ overwriteCourse entry.1 entry.2)
        (selection.positions.zip items) list
    else .fail list (.lengthMismatch selection.count items.length)

theorem setSlice_follows (list : UniformList α) (slice : Slice) (items : List α) :
    (setSlice slice items).Follows mem list (setSliceCourse mem slice items list) := by
  refine Follows.get_bind ?_
  rw [setSliceCourse]
  have hresolve : (liftM (slice.resolve list.length) :
      Action α (UniformList α) Selection).Follows mem list ⟨[], list, slice.resolve list.length⟩ :=
    Follows.ofExcept _
  cases hresult : slice.resolve list.length with
  | error e => exact (hresult ▸ hresolve).bind_error
  | ok selection =>
    refine (hresult ▸ hresolve).bind_done ?_
    dsimp only
    split
    · exact splice_follows list _ _ items
    · split
      · exact Follows.forEach (fun entry list ↦ overwrite_follows list entry.1 entry.2) _ list
      · exact .throw _

/-- A swept list: the elements that stay, and behind them those that go. -/
def Sweep.order (swept : Sweep α) : List α := swept.kept.reverse ++ swept.doomed.toArray.toList

/-- Delete a slice: splice a contiguous one, sweep any other and cut off what goes. -/
def delSliceCourse (mem : Allocator) (slice : Slice) (list : UniformList α) :
    Course α (UniformList α) Unit :=
  match slice.resolve list.length with
  | .error e => .fail list e
  | .ok selection =>
    if selection.count = 0 then .done list ()
    else if selection.isContiguous then
      spliceCourse mem (selection.position 0) selection.count [] list
    else
      let swept := sweep list.toList selection
      shrinkCourse swept.kept.length (list.holding swept.order)

theorem delSlice_follows (list : UniformList α) (slice : Slice) :
    (delSlice slice).Follows mem list (delSliceCourse mem slice list) := by
  refine Follows.get_bind ?_
  rw [delSliceCourse]
  have hresolve : (liftM (slice.resolve list.length) :
      Action α (UniformList α) Selection).Follows mem list ⟨[], list, slice.resolve list.length⟩ :=
    Follows.ofExcept _
  cases hresult : slice.resolve list.length with
  | error e => exact (hresult ▸ hresolve).bind_error
  | ok selection =>
    refine (hresult ▸ hresolve).bind_done ?_
    dsimp only
    split
    · exact .pure ()
    · split
      · exact splice_follows list _ _ []
      · have hset : (set { list with items :=
            (sweep list.toList selection).kept.reverse.toArray ++
              (sweep list.toList selection).doomed.toArray } :
              Action α (UniformList α) PUnit).Follows mem list
            (.done (list.holding (sweep list.toList selection).order) ()) := by
          have horder : ((sweep list.toList selection).kept.reverse.toArray ++
              (sweep list.toList selection).doomed.toArray).toList =
                (sweep list.toList selection).order := by simp [Sweep.order]
          rw [← eq_holding list horder]
          exact .set _
        exact hset.bind_done (shrinkTo_follows _ _)

end UniformList
end ListRuntime
