import Mathlib.Data.List.Perm.Basic
import Mathlib.Order.Bounds.Basic
import ListRuntime.Proofs.Course.Failure
import ListRuntime.Proofs.UniformList.Course

/-!
# Searches

A list can be asked whether an element is in it, how often, and where; and an element can be
removed.  Each of these looks for itself, and they must not come to different answers.

* `occurrences` are the positions in a window whose elements pass a test.
* `Searching` gathers the four ways to look for an element in a list of any sort, and
  `Searching.Agrees` says what they have to do with one another.
* `firstWithin?_eq_some_iff` is the search in a window, and `Searching.agrees` derives all from what
  each search is by itself.
* `UniformList.searching` are the searches with the equality of the elements.
-/

set_option autoImplicit false

namespace ListRuntime

/-! ## The first occurrence -/

section
variable {ε : Type} {items : List ε} {test : ε → Bool}

/-- The positions from `start` up to before `stop` whose elements pass `test`.  The bounds are moved
into the list; one left out is the list's own. -/
def occurrences (items : List ε) (test : ε → Bool) (start stop : Option Int64) : Set Nat :=
  {position | (start.map (clampPosition · items.length)).getD 0 ≤ position ∧
    position < (stop.map (clampPosition · items.length)).getD items.length ∧
    ∃ a, items[position]? = some a ∧ test a = true}

/-- Mapped elements are looked at through the map. -/
theorem occurrences_map {α : Type} (f : α → ε) (items : List α) (start stop : Option Int64) :
    occurrences (items.map f) test start stop =
      occurrences items (fun a ↦ test (f a)) start stop := by
  ext position
  simp [occurrences]

theorem findIdx?_eq_some_iff {position : Nat} : items.findIdx? test = some position ↔
    IsLeast {position | ∃ a, items[position]? = some a ∧ test a = true} position := by
  rw [List.findIdx?_eq_some_iff_getElem]
  constructor
  · rintro ⟨hlt, hpasses, hbefore⟩
    refine ⟨⟨_, List.getElem?_eq_getElem hlt, hpasses⟩, fun other hother ↦ Nat.le_of_not_lt ?_⟩
    intro hearlier
    obtain ⟨a, ha, hpasses'⟩ := hother
    obtain ⟨hlt', rfl⟩ := List.getElem?_eq_some_iff.1 ha
    exact hbefore other hearlier hpasses'
  · rintro ⟨⟨a, ha, hpasses⟩, hleast⟩
    obtain ⟨hlt, rfl⟩ := List.getElem?_eq_some_iff.1 ha
    refine ⟨hlt, hpasses, fun other hearlier hpasses' ↦ ?_⟩
    exact Nat.not_le.2 hearlier (hleast ⟨_, List.getElem?_eq_getElem (by omega), hpasses'⟩)

/-- In a window, the first occurrence is counted from where the window begins. -/
theorem findIdx?_window (first last : Nat) {position : Nat} :
    (((items.take last).drop first).findIdx? test).map (first + ·) = some position ↔
      IsLeast {position | first ≤ position ∧ position < last ∧
        ∃ a, items[position]? = some a ∧ test a = true} position := by
  have hmem (i : Nat) : (∃ a, ((items.take last).drop first)[i]? = some a ∧ test a = true) ↔
      first + i < last ∧ ∃ a, items[first + i]? = some a ∧ test a = true := by
    rw [List.getElem?_drop, List.getElem?_take]
    by_cases hlt : first + i < last
    · simp [hlt]
    · simp [hlt]
  simp only [Option.map_eq_some_iff, findIdx?_eq_some_iff, hmem]
  constructor
  · rintro ⟨i, ⟨⟨hlt, hpasses⟩, hleast⟩, rfl⟩
    refine ⟨⟨Nat.le_add_right first i, hlt, hpasses⟩, fun other hother ↦ ?_⟩
    obtain ⟨hle, hlt', hpasses'⟩ := hother
    obtain ⟨j, rfl⟩ := Nat.le.dest hle
    exact Nat.add_le_add_left (hleast ⟨hlt', hpasses'⟩) first
  · rintro ⟨⟨hle, hlt, hpasses⟩, hleast⟩
    obtain ⟨i, rfl⟩ := Nat.le.dest hle
    refine ⟨i, ⟨⟨hlt, hpasses⟩, fun j hj ↦ ?_⟩, rfl⟩
    exact Nat.le_of_add_le_add_left (hleast ⟨Nat.le_add_right first j, hj⟩)

/-- Without bounds, all occurrences count. -/
theorem isLeast_occurrences_iff {position : Nat} :
    IsLeast (occurrences items test none none) position ↔ items.findIdx? test = some position := by
  have hall : occurrences items test none none =
      {position | ∃ a, items[position]? = some a ∧ test a = true} := by
    ext i
    refine ⟨fun h ↦ h.2.2, fun h ↦ ⟨Nat.zero_le i, ?_, h⟩⟩
    obtain ⟨a, ha, -⟩ := h
    exact (List.getElem?_eq_some_iff.1 ha).1
  rw [hall, findIdx?_eq_some_iff]

/-- There is a first occurrence if something occurs. -/
theorem exists_findIdx?_iff :
    (∃ position, items.findIdx? test = some position) ↔ 0 < items.countP test := by
  rw [← Option.isSome_iff_exists, List.findIdx?_isSome, List.any_eq_true, List.countP_pos_iff]

/-- Without its first occurrence, there is one less. -/
theorem countP_eraseIdx {position : Nat} (h : items.findIdx? test = some position) :
    (items.eraseIdx position).countP test + 1 = items.countP test := by
  obtain ⟨hlt, hpasses, -⟩ := List.findIdx?_eq_some_iff_getElem.1 h
  rw [← (List.getElem_cons_eraseIdx_perm hlt).countP_eq test, List.countP_cons_of_pos hpasses]

end

/-! ## Agreement -/

/-- The ways there are to look for an element in a list. -/
structure Searching (ε σ : Type) where
  /-- What is looked at. -/
  items : σ → List ε
  /-- What is looked for. -/
  test : ε → Bool
  /-- Whether there is one. -/
  contains : σ → Bool
  /-- How many there are. -/
  count : σ → Nat
  /-- The first one in a window. -/
  index : σ → Option Int64 → Option Int64 → Except ListError Nat
  /-- Remove the first one. -/
  remove : Action ε σ Unit

namespace Searching

variable {ε σ : Type}

/-- What the answers have to do with one another. -/
structure Agrees (searching : Searching ε σ) (s : σ) : Prop where
  /-- The index is the least position in the window. -/
  index_eq_ok_iff (start stop : Option Int64) (position : Nat) :
    searching.index s start stop = .ok position ↔
      IsLeast (occurrences (searching.items s) searching.test start stop) position
  /-- What the list contains is counted. -/
  contains_iff : searching.contains s = true ↔ 0 < searching.count s
  /-- What is counted has an index. -/
  count_pos_iff : 0 < searching.count s ↔ ∃ position, searching.index s none none = .ok position
  /-- What has an index can be removed. -/
  removes_iff (mem : Allocator) : (searching.remove.run mem none s).ending = .returned () ↔
    ∃ position, searching.index s none none = .ok position
  /-- What is removed is what the index says, and nothing else. -/
  removed (mem : Allocator) (mishap : Mishap)
    (h : (searching.remove.run mem mishap s).ending = .returned ()) :
    ∃ position, searching.index s none none = .ok position ∧
      searching.items (searching.remove.run mem mishap s).state =
        (searching.items s).eraseIdx position ∧
      searching.count (searching.remove.run mem mishap s).state + 1 = searching.count s

/-- What each search is by itself. -/
structure Sound (searching : Searching ε σ) : Prop where
  contains_eq (s : σ) : searching.contains s = (searching.items s).any searching.test
  count_eq (s : σ) : searching.count s = (searching.items s).countP searching.test
  index_eq_ok_iff (s : σ) (start stop : Option Int64) (position : Nat) :
    searching.index s start stop = .ok position ↔
      IsLeast (occurrences (searching.items s) searching.test start stop) position
  removes (s : σ) (mem : Allocator) :
    (searching.remove.run mem none s).ending = .returned () ↔
      ∃ position, (searching.items s).findIdx? searching.test = some position
  removed (s : σ) (mem : Allocator) (mishap : Mishap)
    (h : (searching.remove.run mem mishap s).ending = .returned ()) :
    ∃ position, (searching.items s).findIdx? searching.test = some position ∧
      searching.items (searching.remove.run mem mishap s).state =
        (searching.items s).eraseIdx position

/-- **Searches agree** if each of them is sound. -/
theorem Sound.agrees {searching : Searching ε σ} (h : searching.Sound) (s : σ) :
    searching.Agrees s := by
  have hindex (position : Nat) : searching.index s none none = .ok position ↔
      (searching.items s).findIdx? searching.test = some position := by
    rw [h.index_eq_ok_iff, isLeast_occurrences_iff]
  refine ⟨h.index_eq_ok_iff s, ?_, ?_, fun mem ↦ ?_, fun mem mishap hreturned ↦ ?_⟩
  · rw [h.contains_eq, h.count_eq, List.any_eq_true, List.countP_pos_iff]
  · simp only [hindex, h.count_eq, exists_findIdx?_iff]
  · simp only [hindex, h.removes]
  · obtain ⟨position, hposition, hitems⟩ := h.removed s mem mishap hreturned
    refine ⟨position, (hindex position).2 hposition, hitems, ?_⟩
    rw [h.count_eq, hitems, h.count_eq, countP_eraseIdx hposition]

end Searching

namespace UniformList

variable {α ε : Type} {list : UniformList α} {test : α → Bool}

/-! ## Uniform lists -/

theorem indexWhere_eq_ok_iff (start stop : Option Int64) (position : Nat) :
    list.indexWhere start stop test = .ok position ↔
      IsLeast (occurrences list.toList test start stop) position := by
  rw [occurrences, length_toList, ← findIdx?_window, indexWhere, firstWithin?]
  generalize Option.map _ (List.findIdx? test _) = found
  cases found <;> simp

/-- A removal that finds nothing fails. -/
theorem run_removeWhere_of_none (h : list.toList.findIdx? test = none) (mem : Allocator)
    (mishap : Mishap) :
    (removeWhere test).run mem mishap list = ⟨[], list, .failed .removeNotFound⟩ := by
  rw [removeWhere_follows list test mishap, removeCourse, h]
  exact Course.run_of_spares (.fail list .removeNotFound) fun k _ ↦ Nat.zero_le k

/-- A removal unlinks what it finds, and returns unless the release of that element unwinds. -/
theorem run_removeWhere_of_some {position : Nat}
    (h : list.toList.findIdx? test = some position) (mem : Allocator) (mishap : Mishap) :
    let run := (removeWhere test).run mem mishap list
    run.state = list.holding (list.toList.eraseIdx position) ∧
      (run.ending = .returned () ↔ mishap.Spares 1) ∧ ∀ e, run.ending ≠ .failed e := by
  intro run
  obtain ⟨hlt, -⟩ := List.findIdx?_eq_some_iff_getElem.1 h
  have hrun : run = (withdrawCourse position list).run mishap := by
    rw [← show removeCourse test list = withdrawCourse position list by rw [removeCourse, h]]
    exact removeWhere_follows list test mishap
  have hlength : (withdrawCourse position list).stages.length = 1 := by
    simp [withdrawCourse, List.getElem?_eq_getElem hlt]
  rw [hrun]
  rcases mishap.spares_or_strikes 1 with hspared | ⟨k, hk, rfl⟩
  · rw [Course.run_of_spares _ (hlength ▸ hspared)]
    exact ⟨rfl, iff_of_true rfl hspared, fun e h ↦ by cases h⟩
  · rw [Course.run_of_lt _ (hlength ▸ hk)]
    refine ⟨?_, iff_of_false (fun h ↦ by cases h) fun hspared ↦ ?_, fun e h ↦ by cases h⟩
    · simp [withdrawCourse, Stage.row]
    · exact Nat.not_le.2 hk (hspared k rfl)

theorem removeWhere_returns_iff (mem : Allocator) :
    ((removeWhere test).run mem none list).ending = .returned () ↔
      ∃ position, list.toList.findIdx? test = some position := by
  cases hfound : list.toList.findIdx? test with
  | none => simp [run_removeWhere_of_none hfound]
  | some position =>
    obtain ⟨-, hreturned, -⟩ := run_removeWhere_of_some hfound mem none
    exact iff_of_true (hreturned.2 (Mishap.spares_none 1)) ⟨position, rfl⟩

theorem removeWhere_returned {mem : Allocator} {mishap : Mishap}
    (h : ((removeWhere test).run mem mishap list).ending = .returned ()) :
    ∃ position, list.toList.findIdx? test = some position ∧
      ((removeWhere test).run mem mishap list).state =
        list.holding (list.toList.eraseIdx position) := by
  cases hfound : list.toList.findIdx? test with
  | none =>
    rw [run_removeWhere_of_none hfound] at h
    cases h
  | some position => exact ⟨position, rfl, (run_removeWhere_of_some hfound mem mishap).1⟩

variable [Element α]

/-- The searches for elements equal to `a`. -/
def searching (a : α) : Searching α (UniformList α) where
  items := (·.toList)
  test := (Element.equal · a)
  contains := (·.contains a)
  count := (·.count a)
  index list := list.index a
  remove := remove a

theorem sound_searching (a : α) : (searching a).Sound where
  contains_eq _ := rfl
  count_eq _ := rfl
  index_eq_ok_iff _ := indexWhere_eq_ok_iff
  removes _ := removeWhere_returns_iff
  removed list mem mishap h := by
    obtain ⟨position, hposition, hstate⟩ := removeWhere_returned h
    exact ⟨position, hposition, congrArg (·.toList) hstate⟩

end UniformList
end ListRuntime
