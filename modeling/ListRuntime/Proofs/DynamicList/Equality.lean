import Mathlib.Data.List.Forall2
import ListRuntime.Proofs.DynamicList.Search
import ListRuntime.Proofs.Value

/-!
# Equal dynamic lists

Lists are compared element by element with the language's `==`, so lists of different kinds can be
equal.  No search can then tell them apart: it looks at an element only through `==`, and equal
elements are equal to the same values.  NaN is no exception.  A list with a NaN in it equals no
list, itself included, but two lists that are equal have none.

* `equal_iff_forall₂` is equality element by element.
* `answers_eq`: the answers to whether each element equals a value are all that a search gets to see,
  and equal lists have the same.
* `remove_of_equal` is what becomes of equal lists by a removal.
* `equal_indistinguishable` puts the searches together.
-/

set_option autoImplicit false

namespace ListRuntime

/-! ## Element by element -/

section
variable {α : Type} {R : α → α → Bool}

theorem isEqv_iff_forall₂ {items others : List α} :
    items.isEqv others R = true ↔ List.Forall₂ (fun a b ↦ R a b = true) items others := by
  induction items generalizing others with
  | nil => cases others <;> simp [List.isEqv]
  | cons a items ih => cases others <;> simp [List.isEqv, ih]

theorem isEqv_comm (hcomm : ∀ a b, R a b = R b a) (items others : List α) :
    items.isEqv others R = others.isEqv items R := by
  induction items generalizing others with
  | nil => cases others <;> rfl
  | cons a items ih =>
    cases others with
    | nil => rfl
    | cons b others => rw [List.isEqv, List.isEqv, hcomm, ih]

theorem forall₂_trans {S : α → α → Prop} (htrans : ∀ {a b c}, S a b → S b c → S a c)
    {items others more : List α} (h : List.Forall₂ S items others) (h' : List.Forall₂ S others more) :
    List.Forall₂ S items more := by
  induction h generalizing more with
  | nil => exact h'
  | cons hab _ ih =>
    cases h' with
    | cons hbc hrest => exact .cons (htrans hab hbc) (ih hrest)

/-- What is erased at one position in both leaves the others as they were compared. -/
theorem forall₂_eraseIdx {S : α → α → Prop} {items others : List α}
    (h : List.Forall₂ S items others) (position : Nat) :
    List.Forall₂ S (items.eraseIdx position) (others.eraseIdx position) := by
  rw [List.eraseIdx_eq_take_drop_succ, List.eraseIdx_eq_take_drop_succ]
  exact List.rel_append (List.forall₂_take position h) (List.forall₂_drop (position + 1) h)

end

/-! ## Searches by their answers -/

namespace UniformList

/-- A search in a window depends on the answers to its test alone. -/
theorem firstWithin?_congr {α β : Type} {list : UniformList α} {other : UniformList β}
    {test : α → Bool} {test' : β → Bool} (h : list.toList.map test = other.toList.map test')
    (start stop : Option Int64) :
    list.firstWithin? start stop test = other.firstWithin? start stop test' := by
  have hlength : list.length = other.length := by
    simpa using congrArg List.length h
  have hwindow (first last : Nat) : ((list.toList.take last).drop first).findIdx? test =
      ((other.toList.take last).drop first).findIdx? test' := by
    have hid := congrArg (fun answers ↦ ((answers.take last).drop first).findIdx? id) h
    simpa only [← List.map_take, ← List.map_drop, List.findIdx?_map, Function.id_comp] using hid
  rw [firstWithin?, firstWithin?, hlength, hwindow]

end UniformList

namespace DynamicList

open ListRuntime.Action UniformList

variable {a b c : DynamicList}

/-- Lists are equal if their elements are, one by one. -/
theorem equal_iff_forall₂ :
    a.equal b = true ↔ List.Forall₂ (fun x y ↦ x.equal y = true) a.values b.values :=
  isEqv_iff_forall₂

theorem equal_comm (a b : DynamicList) : a.equal b = b.equal a :=
  isEqv_comm Value.equal_comm a.values b.values

theorem equal_trans (h : a.equal b = true) (h' : b.equal c = true) : a.equal c = true := by
  rw [equal_iff_forall₂] at h h' ⊢
  exact forall₂_trans (S := fun x y : Value ↦ x.equal y = true) Value.equal_trans h h'

/-- **Equal lists give the same answers**, position by position, to the question whether the element
there is equal to a value. -/
theorem answers_eq (h : a.equal b = true) (value : Value) :
    a.values.map (·.equal value) = b.values.map (·.equal value) := by
  have hsame := (equal_iff_forall₂.1 h).imp fun x y hxy ↦ Value.equal_congr hxy value
  rw [← List.forall₂_eq_eq_eq, List.forall₂_map_left_iff, List.forall₂_map_right_iff]
  exact hsame

theorem contains_eq_of_equal (h : a.equal b = true) (value : Value) :
    a.contains value = b.contains value := by
  have hany := congrArg (List.any · id) (answers_eq h value)
  rwa [List.any_map, List.any_map] at hany

theorem count_eq_of_equal (h : a.equal b = true) (value : Value) :
    a.count value = b.count value := by
  have hcount := congrArg (List.countP id) (answers_eq h value)
  rwa [List.countP_map, List.countP_map] at hcount

/-- The answers, asked of the elements inside. -/
theorem answers_inside (h : a.equal b = true) (value : Value) :
    a.list.toList.map (fun x ↦ (toValue x).equal value) =
      b.list.toList.map (fun y ↦ (toValue y).equal value) := by
  simpa only [values, List.map_map, Function.comp_def] using answers_eq h value

theorem index_eq_of_equal (h : a.equal b = true) (value : Value) (start stop : Option Int64) :
    a.index value start stop = b.index value start stop := by
  rw [index, index, indexWhere, indexWhere, firstWithin?_congr (answers_inside h value)]

/-- What is left after a removal from the one is equal to what is left after one from the other, and
they end alike. -/
theorem remove_of_equal (h : a.equal b = true) (value : Value) (mem mem' : Allocator)
    (mishap mishap' : Mishap) :
    let run := (remove value).run mem mishap a
    let run' := (remove value).run mem' mishap' b
    run.state.equal run'.state = true ∧
      (∀ e, run.ending = .failed e ↔ run'.ending = .failed e) ∧
      (mishap = mishap' → (run.ending = .returned () ↔ run'.ending = .returned ())) := by
  intro run run'
  have hfirst := congrArg (List.findIdx? id) (answers_inside h value)
  rw [List.findIdx?_map, List.findIdx?_map, Function.id_comp, Function.id_comp] at hfirst
  have hrun : run = a.outside _ := run_inside mem mishap a _
  have hrun' : run' = b.outside _ := run_inside mem' mishap' b _
  rw [hrun, hrun', outside_returned_iff, outside_returned_iff]
  simp only [outside_failed_iff]
  cases hfound : b.list.toList.findIdx? fun y ↦ (toValue y).equal value with
  | none =>
    rw [hfound] at hfirst
    rw [run_removeWhere_of_none hfirst, run_removeWhere_of_none hfound]
    exact ⟨h, fun e ↦ by simp only [Ending.failed.injEq], fun _ ↦ by simp only [reduceCtorEq]⟩
  | some position =>
    rw [hfound] at hfirst
    obtain ⟨hstate, hreturned, hfailed⟩ := run_removeWhere_of_some hfirst mem mishap
    obtain ⟨hstate', hreturned', hfailed'⟩ := run_removeWhere_of_some hfound mem' mishap'
    refine ⟨?_, fun e ↦ iff_of_false (hfailed e) (hfailed' e), fun hmishap ↦ ?_⟩
    · have herased := forall₂_eraseIdx (equal_iff_forall₂.1 h) position
      rw [values, values, List.eraseIdx_map, List.eraseIdx_map] at herased
      rw [equal_iff_forall₂, outside, outside, hstate, hstate']
      exact herased
    · rw [hreturned, hreturned', hmishap]

/-- **Equal lists are indistinguishable to searches.**  Equality of lists of any kinds is symmetric
and transitive.  Two lists that are equal contain the same values, count each of them the same number
of times, and find it at the same index in every window or in neither list.  A removal fails on both
or on neither, returns from both or from neither if the same call unwinds or none does, and leaves
lists that are equal again, however it ends. -/
theorem equal_indistinguishable :
    (∀ a b : DynamicList, a.equal b = b.equal a) ∧
    (∀ a b c : DynamicList, a.equal b = true → b.equal c = true → a.equal c = true) ∧
    ∀ a b : DynamicList, a.equal b = true → ∀ value : Value,
      a.contains value = b.contains value ∧
      a.count value = b.count value ∧
      (∀ start stop, a.index value start stop = b.index value start stop) ∧
      ∀ mem mem' mishap mishap',
        let run := (remove value).run mem mishap a
        let run' := (remove value).run mem' mishap' b
        run.state.equal run'.state = true ∧
          (∀ e, run.ending = .failed e ↔ run'.ending = .failed e) ∧
          (mishap = mishap' → (run.ending = .returned () ↔ run'.ending = .returned ())) :=
  ⟨equal_comm, fun _ _ _ ↦ equal_trans, fun _ _ h value ↦ ⟨contains_eq_of_equal h value,
    count_eq_of_equal h value, index_eq_of_equal h value, remove_of_equal h value⟩⟩

/-- A list of truth values, one of words and one of doubles, the last with a negative zero. -/
theorem equal_indistinguishable_across_kinds :
    let truths : DynamicList := ⟨.bool, ⟨⟨#[true, false], 2⟩, .standard⟩⟩
    let words : DynamicList := ⟨.int, ⟨⟨#[(1 : Int64), (0 : Int64)], 4⟩, .standard⟩⟩
    let doubles : DynamicList :=
      ⟨.float, ⟨⟨#[(⟨0x3FF0000000000000⟩ : Binary64), ⟨0x8000000000000000⟩], 2⟩, .standard⟩⟩
    truths.equal words = true ∧ words.equal doubles = true ∧ truths.equal doubles = true ∧
      truths.index (.int 0) (some 1) none = .ok 1 ∧
      doubles.index (.int 0) (some 1) none = .ok 1 ∧
      ((remove (.float ⟨0⟩)).run .boundless none truths).state.equal
        ((remove (.float ⟨0⟩)).run .boundless none doubles).state = true := by
  intro truths words doubles
  obtain ⟨-, htrans, hsearches⟩ := equal_indistinguishable
  have hwords : truths.equal words = true := by decide +kernel
  have hdoubles : words.equal doubles = true := by decide +kernel
  have hequal := htrans _ _ _ hwords hdoubles
  have hindex : truths.index (.int 0) (some 1) none = .ok 1 := by decide +kernel
  obtain ⟨-, -, hsame, -⟩ := hsearches _ _ hequal (.int 0)
  obtain ⟨-, -, -, hremoved⟩ := hsearches _ _ hequal (.float ⟨0⟩)
  exact ⟨hwords, hdoubles, hequal, hindex, (hsame _ _).symm.trans hindex,
    (hremoved .boundless .boundless none none).1⟩

end DynamicList
end ListRuntime
