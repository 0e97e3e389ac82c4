import ListRuntime.Proofs.DynamicList.Failure

/-!
# Lists of values

A list that is made of values is of the narrowest kind that all of them promote to, and what it
holds is what they promote to.  Since the kind is known before the first value is stored, no value is
refused: there may be no such kind, or no memory, and nothing else can go wrong.

* `result_ofValues` is what comes of it in closed form, once a kind is inferred.
* `unifyKinds_values`: the values of a list say what kind it is of, so that the list can be made again
  of them.
* `ofValues_narrowest` puts inference and making together.
-/

set_option autoImplicit false

namespace ListRuntime
namespace DynamicList

open ListRuntime.Action Course

variable {σ : Type} {declared : Option Kind} {values : List Value}

/-! ## The values of a list -/

/-- The values of a list are all of its kind. -/
theorem kind_of_mem_values {dynamic : DynamicList} {value : Value} (h : value ∈ dynamic.values) :
    value.kind = dynamic.kind := by
  obtain ⟨a, -, rfl⟩ := List.mem_map.1 h
  exact kind_toValue a

/-- They promote to the elements that they were taken from. -/
theorem map_promote_values (dynamic : DynamicList) :
    dynamic.values.map promote = dynamic.list.toList.map .ok := by
  rw [values, List.map_map]
  exact List.map_congr_left fun a _ ↦ promote_toValue a

/-- They promote to any kind that the list's own promotes to. -/
theorem promoted_values {dynamic : DynamicList} {kind : Kind} (h : dynamic.kind.promotesTo kind) :
    ∃ items : List kind.Carrier, dynamic.values.map promote = items.map .ok :=
  promoted_of_promotesTo fun _ hmem ↦ (kind_of_mem_values hmem).symm ▸ h

@[simp] theorem length_values (dynamic : DynamicList) : dynamic.values.length = dynamic.length := by
  rw [values, List.length_map, UniformList.length_toList]
  rfl

/-- **The values of a list say what kind it is of.** -/
theorem unifyKinds_values (dynamic : DynamicList) :
    unifyKinds (some dynamic.kind) dynamic.values = .ok dynamic.kind := by
  refine unifyKinds_eq_ok_iff.2 ⟨fun known hmem ↦ ?_, fun other hall ↦ ?_⟩
  · rcases List.mem_cons.1 hmem with rfl | hmem
    · exact Kind.promotesTo_refl _
    · obtain ⟨value, hvalue, rfl⟩ := List.mem_map.1 hmem
      rw [kind_of_mem_values hvalue]
      exact Kind.promotesTo_refl _
  · exact hall _ List.mem_cons_self

/-! ## Making a list -/

/-- Without a kind there is no list. -/
theorem course_ofValues_of_error {e : ListError} (h : unifyKinds declared values = .error e)
    (mem : Allocator) (s : σ) : (Origin.ofValues declared values).course mem s = .fail s e := by
  rw [Origin.course, h]
  rfl

/-- Once there is a kind, room for the values is all that can be missing. -/
theorem result_ofValues {kind : Kind} {items : List kind.Carrier}
    (hkind : unifyKinds declared values = .ok kind) (hitems : values.map promote = items.map .ok)
    (mem : Allocator) (s : σ) :
    ((Origin.ofValues declared values).course mem s).result =
      match (Element.layout kind.Carrier).grow mem 0 values.length with
      | .ok capacity => .ok ⟨kind, ⟨⟨items.toArray, capacity⟩, .standard⟩⟩
      | .error cause => .error (.allocation cause) := by
  obtain ⟨stages, -, hmakes⟩ := makesAtOnce_values hitems s
  have hbuild := hmakes mem
  dsimp only [UniformList.newRoom] at hbuild
  rw [Origin.course, hkind, Course.bind]
  dsimp only
  rw [result_after, hbuild]
  cases (Element.layout kind.Carrier).grow mem 0 values.length <;> rfl

section
variable {mem : Allocator} {mishap : Mishap} {s : σ}

theorem run_ofValues (declared : Option Kind) (values : List Value) (mem : Allocator)
    (mishap : Mishap) (s : σ) :
    (ofValues declared values : Action Value σ DynamicList).run mem mishap s =
      ((Origin.ofValues declared values).course mem s).run mishap :=
  (Origin.ofValues declared values).action_follows s mishap

/-- Making a list of values fails because there is no kind or because there is no room. -/
theorem ending_ofValues_failed_iff {e : ListError} :
    ((ofValues declared values : Action Value σ DynamicList).run mem mishap s).ending = .failed e ↔
      unifyKinds declared values = .error e ∨ ∃ kind cause,
        unifyKinds declared values = .ok kind ∧
        (Element.layout kind.Carrier).grow mem 0 values.length = .error cause ∧
        e = .allocation cause := by
  -- a failure comes before the first hook call, so that no mishap is in time to hide it
  have hresult : (((Origin.ofValues declared values).course mem s).run mishap).ending = .failed e ↔
      ((Origin.ofValues declared values).course mem s).result = .error e := by
    refine ⟨fun h ↦ (of_run_failed h).1, fun h ↦ ?_⟩
    rw [(Origin.ofValues declared values).failsEarly.run_of_error h]
  rw [run_ofValues, hresult]
  cases hkind : unifyKinds declared values with
  | error e' => simp [course_ofValues_of_error hkind, Course.fail]
  | ok kind =>
    obtain ⟨items, hitems⟩ := promoted_of_unifyKinds hkind
    rw [result_ofValues hkind hitems]
    cases hgrow : (Element.layout kind.Carrier).grow mem 0 values.length <;>
      simp [hgrow, eq_comm]

/-- What is made of values is of the kind that was inferred, and holds what they promote to. -/
theorem of_ending_ofValues_returned {made : DynamicList}
    (h : ((ofValues declared values : Action Value σ DynamicList).run mem mishap s).ending =
      .returned made) :
    unifyKinds declared values = .ok made.kind ∧
      values.map promote = made.list.toList.map .ok := by
  rw [run_ofValues] at h
  have hresult := (of_run_returned h).1
  cases hkind : unifyKinds declared values with
  | error e =>
    rw [course_ofValues_of_error hkind] at hresult
    cases hresult
  | ok kind =>
    obtain ⟨items, hitems⟩ := promoted_of_unifyKinds hkind
    rw [result_ofValues hkind hitems] at hresult
    split at hresult
    · cases hresult
      exact ⟨rfl, hitems⟩
    · cases hresult

end

/-- A list that is made of the values of another one is that list, as far as there is room. -/
theorem remade_of_values (dynamic : DynamicList) (mem : Allocator) (s : σ) :
    let run := (ofValues (some dynamic.kind) dynamic.values : Action Value σ DynamicList).run
      mem none s
    (∃ cause, (Element.layout dynamic.kind.Carrier).grow mem 0 dynamic.length = .error cause ∧
      run.ending = .failed (.allocation cause)) ∨
    ∃ list : UniformList dynamic.kind.Carrier,
      run.ending = .returned ⟨dynamic.kind, list⟩ ∧ list.toList = dynamic.list.toList := by
  intro run
  have hresult := result_ofValues (unifyKinds_values dynamic) (map_promote_values dynamic) mem s
  have hending : run.ending = ((Origin.ofValues (some dynamic.kind) dynamic.values).course
      mem s).ending := congrArg Run.ending (run_ofValues _ _ mem none s)
  rw [length_values] at hresult
  rw [hending, Course.ending, hresult]
  cases hgrow : (Element.layout dynamic.kind.Carrier).grow mem 0 dynamic.length with
  | error cause => exact Or.inl ⟨cause, rfl, rfl⟩
  | ok capacity => exact Or.inr ⟨_, rfl, rfl⟩

/-- **Inference finds the narrowest kind, and making a list of it is total.**  A kind is inferred
exactly if something is known and it is not both of a reference and of a number; it is the narrowest
one that all that is known promotes to, in whatever order the values come, and all of them promote to
it.  So making a list of values fails for want of a kind or of memory, never because a value cannot be
stored; otherwise the list is of that kind and holds what the values promote to, one by one.  The
values of a list make that list again. -/
theorem ofValues_narrowest :
    (∀ (declared : Option Kind) (values : List Value),
      let known := knownKinds declared values
      ((∃ kind, unifyKinds declared values = .ok kind) ↔
        known ≠ [] ∧ ¬ (.ref ∈ known ∧ ∃ kind ∈ known, kind ≠ .ref)) ∧
      (∀ kind, unifyKinds declared values = .ok kind ↔ Kind.IsNarrowest known kind) ∧
      (∀ others, values.Perm others →
        (unifyKinds declared others).toOption = (unifyKinds declared values).toOption) ∧
      (∀ kind, unifyKinds declared values = .ok kind →
        ∀ value ∈ values, ∃ a : kind.Carrier, promote value = .ok a) ∧
      ∀ (mem : Allocator) (mishap : Mishap) (s : σ),
        let run := (ofValues declared values : Action Value σ DynamicList).run mem mishap s
        (∀ e, run.ending = .failed e ↔ unifyKinds declared values = .error e ∨
          ∃ kind cause, unifyKinds declared values = .ok kind ∧
            (Element.layout kind.Carrier).grow mem 0 values.length = .error cause ∧
            e = .allocation cause) ∧
        (∀ kind kind', run.ending ≠ .failed (.notRepresentable kind kind')) ∧
        (mishap = none → ∀ call, run.ending ≠ .unwound call) ∧
        ∀ made, run.ending = .returned made → unifyKinds declared values = .ok made.kind ∧
          values.map promote = made.list.toList.map .ok) ∧
    ∀ (dynamic : DynamicList) (mem : Allocator) (s : σ),
      let run := (ofValues (some dynamic.kind) dynamic.values : Action Value σ DynamicList).run
        mem none s
      (∃ cause, (Element.layout dynamic.kind.Carrier).grow mem 0 dynamic.length = .error cause ∧
        run.ending = .failed (.allocation cause)) ∨
      ∃ list : UniformList dynamic.kind.Carrier,
        run.ending = .returned ⟨dynamic.kind, list⟩ ∧ list.toList = dynamic.list.toList := by
  refine ⟨fun declared values ↦ ⟨exists_unifyKinds_iff, fun kind ↦ unifyKinds_eq_ok_iff,
    fun others hperm ↦ ?_, fun kind hkind value hmem ↦ ?_, fun mem mishap s ↦
    ⟨fun e ↦ ending_ofValues_failed_iff, fun kind kind' hfailed ↦ ?_, ?_,
      fun made ↦ of_ending_ofValues_returned⟩⟩, remade_of_values⟩
  · refine toOption_unifyKinds_eq fun known ↦ ?_
    simp only [knownKinds, List.mem_append, (hperm.map Value.kind).mem_iff]
  · have hnarrowest := isNarrowest_of_unifyKinds hkind
    exact promotes_of_promotesTo (hnarrowest.promotesTo value.kind
      (List.mem_append_right _ (List.mem_map_of_mem hmem)))
  · rcases ending_ofValues_failed_iff.1 hfailed with herror | ⟨_, cause, -, -, hcause⟩
    · rcases of_unifyKinds_error herror with hcannot | ⟨left, right, hcommon⟩
      · cases hcannot
      · cases hcommon
    · cases hcause
  · rintro rfl call
    rw [run_ofValues]
    exact ending_ne_unwound _ call

/-- A number before a truth value: they make a list of numbers, as they do the other way round. -/
theorem ofValues_narrowest_mixed :
    (unifyKinds none [.bool true, .int 2]).toOption = some .int ∧
      ((ofValues none [.int 2, .bool true] : Action Value Unit DynamicList).run
        .boundless none ()).ending =
          .returned ⟨.int, ⟨⟨#[(2 : Int64), (1 : Int64)], 2⟩, .standard⟩⟩ ∧
      ([.int 2, .bool true].map promote : List (Except ListError Int64)) =
        [(2 : Int64), (1 : Int64)].map .ok := by
  have hspec := (ofValues_narrowest (σ := Unit)).1 none [.int 2, .bool true]
  obtain ⟨-, -, hperm, -, hmaking⟩ := hspec
  obtain ⟨-, -, -, hmade⟩ := hmaking .boundless none ()
  have hreturned : ((ofValues none [.int 2, .bool true] : Action Value Unit DynamicList).run
      .boundless none ()).ending =
        .returned ⟨.int, ⟨⟨#[(2 : Int64), (1 : Int64)], 2⟩, .standard⟩⟩ := rfl
  exact ⟨hperm _ (.swap _ _ _), hreturned, (hmade _ hreturned).2⟩

end DynamicList
end ListRuntime
