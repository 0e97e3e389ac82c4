import ListRuntime.DynamicList.Basic
import ListRuntime.Proofs.Inference
import ListRuntime.Proofs.UniformList.Search

/-!
# Searches in dynamic lists

A dynamic list is searched with the language's `==`, which compares numbers across kinds.  Its
searches agree with one another as those of a uniform list do, and for a value of the list's own
kind they are those of the uniform list inside.

* `run_inside` is work on the list inside, as a run.
* `DynamicList.searching` are the searches for a value.
* `equal_toValue` says that the two equalities are one on elements of one kind.
* `searches_agree` is all of it, for uniform and for dynamic lists.
-/

set_option autoImplicit false

namespace ListRuntime

/-- Elements are equal if they are as values. -/
theorem equal_toValue {kind : Kind} (a b : kind.Carrier) :
    (toValue a).equal (toValue b) = Element.equal a b := by
  cases kind <;> rfl

/-- A value of a kind is an element. -/
theorem exists_toValue {value : Value} {kind : Kind} (h : value.kind = kind) :
    ∃ a : kind.Carrier, toValue a = value := by
  subst h
  cases value <;> exact ⟨_, rfl⟩

namespace DynamicList

open ListRuntime.Action UniformList

variable {β : Type} (mem : Allocator) (mishap : Mishap) (dynamic : DynamicList)

/-- The run of the list inside, in dynamic values. -/
def outside (run : Run dynamic.kind.Carrier (UniformList dynamic.kind.Carrier) β) :
    Run Value DynamicList β :=
  ⟨run.calls.map (HookCall.map toValue), ⟨dynamic.kind, run.state⟩, run.ending.map toValue⟩

theorem run_inside (action : (kind : Kind) → Action kind.Carrier (UniformList kind.Carrier) β) :
    (inside action).run mem mishap dynamic =
      dynamic.outside ((action dynamic.kind).run mem mishap dynamic.list) := by
  rw [inside, run_bind_returned (run_get mem mishap dynamic), run_within rfl]
  simp [outside, Run.following]

theorem outside_returned_iff
    {run : Run dynamic.kind.Carrier (UniformList dynamic.kind.Carrier) β} {b : β} :
    (dynamic.outside run).ending = .returned b ↔ run.ending = .returned b := by
  obtain ⟨calls, list, b' | e | call⟩ := run <;> simp [outside, Ending.map]

theorem outside_failed_iff
    {run : Run dynamic.kind.Carrier (UniformList dynamic.kind.Carrier) β} {e : ListError} :
    (dynamic.outside run).ending = .failed e ↔ run.ending = .failed e := by
  obtain ⟨calls, list, b | e' | call⟩ := run <;> simp [outside, Ending.map]

/-- The searches for elements equal to a value. -/
def searching (value : Value) : Searching Value DynamicList where
  items := values
  test := (·.equal value)
  contains := (·.contains value)
  count := (·.count value)
  index dynamic := dynamic.index value
  remove := remove value

theorem sound_searching (value : Value) : (searching value).Sound where
  contains_eq _ := rfl
  count_eq _ := rfl
  index_eq_ok_iff dynamic start stop position := by
    change dynamic.list.indexWhere start stop (fun a ↦ (toValue a).equal value) = .ok position ↔
      IsLeast (occurrences (dynamic.list.toList.map toValue) (·.equal value) start stop) position
    rw [occurrences_map]
    exact indexWhere_eq_ok_iff start stop position
  removes dynamic mem := by
    change ((remove value).run mem none dynamic).ending = .returned () ↔
      ∃ position, (dynamic.list.toList.map toValue).findIdx? (·.equal value) = some position
    rw [remove, run_inside, outside_returned_iff, removeWhere_returns_iff, List.findIdx?_map]
    rfl
  removed dynamic mem mishap h := by
    change ((remove value).run mem mishap dynamic).ending = .returned () at h
    change ∃ position,
      (dynamic.list.toList.map toValue).findIdx? (·.equal value) = some position ∧
        ((remove value).run mem mishap dynamic).state.values = dynamic.values.eraseIdx position
    rw [remove, run_inside, outside_returned_iff] at h
    obtain ⟨position, hposition, hstate⟩ := removeWhere_returned h
    refine ⟨position, List.findIdx?_map.trans hposition, ?_⟩
    rw [remove, run_inside, outside, hstate, values, values, List.eraseIdx_map]
    rfl

/-- The searches for an element are those of the uniform list. -/
theorem searches_toValue (a : dynamic.kind.Carrier) :
    dynamic.contains (toValue a) = dynamic.list.contains a ∧
      dynamic.count (toValue a) = dynamic.list.count a ∧
      (∀ start stop, dynamic.index (toValue a) start stop = dynamic.list.index a start stop) ∧
      ∀ mem mishap, (remove (toValue a)).run mem mishap dynamic =
        dynamic.outside ((UniformList.remove a).run mem mishap dynamic.list) := by
  have htest : (fun b : dynamic.kind.Carrier ↦ (toValue b).equal (toValue a)) =
      (Element.equal · a) := funext fun b ↦ equal_toValue b a
  refine ⟨?_, ?_, fun start stop ↦ ?_, fun mem mishap ↦ ?_⟩
  · rw [contains, values, List.any_map, UniformList.contains, ← htest]
    rfl
  · rw [count, values, List.countP_map, UniformList.count, ← htest]
    rfl
  · rw [index, htest, UniformList.index]
  · rw [remove, run_inside, UniformList.remove, htest]

/-- **Searches agree with one another**, in uniform lists with the equality of their elements and in
dynamic lists with the language's.  The index is the least position in the window whose element is
equal; the list contains what it counts at least once, what has an index and what can be removed;
and what is removed is the element at the index, so that one less is counted.  For a value of its
own kind a dynamic list answers what the uniform list inside does. -/
theorem searches_agree :
    (∀ (α : Type) [Element α] (a : α) (list : UniformList α),
      (UniformList.searching a).Agrees list) ∧
    (∀ (value : Value) (dynamic : DynamicList), (searching value).Agrees dynamic) ∧
    ∀ (value : Value) (dynamic : DynamicList), value.kind = dynamic.kind →
      ∃ a : dynamic.kind.Carrier, promote value = .ok a ∧
        dynamic.contains value = dynamic.list.contains a ∧
        dynamic.count value = dynamic.list.count a ∧
        (∀ start stop, dynamic.index value start stop = dynamic.list.index a start stop) ∧
        ∀ mem mishap, (remove value).run mem mishap dynamic =
          dynamic.outside ((UniformList.remove a).run mem mishap dynamic.list) := by
  refine ⟨fun α _ a list ↦ (UniformList.sound_searching a).agrees list,
    fun value dynamic ↦ (sound_searching value).agrees dynamic, fun value dynamic hkind ↦ ?_⟩
  obtain ⟨a, rfl⟩ := exists_toValue hkind
  exact ⟨a, promote_toValue a, dynamic.searches_toValue a⟩

/-- Doubles: one that is no number, a positive zero, and one. -/
theorem searches_agree_on_doubles :
    let dynamic : DynamicList :=
      ⟨.float, ⟨⟨#[(⟨0x7FF8000000000000⟩ : Binary64), ⟨0⟩, ⟨0x3FF0000000000000⟩], 3⟩, .standard⟩⟩
    let negativeZero : Value := .float ⟨0x8000000000000000⟩
    negativeZero.kind = dynamic.kind ∧
      (∃ a : dynamic.kind.Carrier, promote negativeZero = .ok a ∧
        dynamic.count negativeZero = dynamic.list.count a) ∧
      dynamic.index negativeZero none none = .ok 1 ∧
      IsLeast (occurrences dynamic.values (·.equal (.int 1)) (some (-1)) none) 2 := by
  intro dynamic negativeZero
  obtain ⟨-, hdynamic, hown⟩ := searches_agree
  have hkind : negativeZero.kind = dynamic.kind := rfl
  obtain ⟨a, hpromote, -, hcount, -⟩ := hown negativeZero dynamic hkind
  have hone : (searching (.int 1)).index dynamic (some (-1)) none = .ok 2 := by decide +kernel
  exact ⟨hkind, ⟨a, hpromote, hcount⟩, by decide +kernel,
    ((hdynamic (.int 1) dynamic).index_eq_ok_iff _ _ _).1 hone⟩

end DynamicList
end ListRuntime
