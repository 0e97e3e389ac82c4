import ListRuntime.Proofs.DynamicList.Failure
import ListRuntime.Proofs.UniformList.Capacity

/-!
# The capacity of dynamic lists

A dynamic list has the storage of the uniform list inside.  Lists that are made of values, and of two
lists of one kind, have not a slot to spare either.

* `madeTight_wrap` carries `MadeTight` over from uniform lists.
* `capacity_follows_policy` is all that is to be known of the capacity of a list in its lifetime.
-/

set_option autoImplicit false

namespace ListRuntime

open ListRuntime.Action

namespace DynamicList

variable {σ : Type}

/-- The storage of a dynamic list. -/
def extent (dynamic : DynamicList) : Extent := dynamic.list.extent

/-- The run of making a uniform list, seen as one of making a dynamic list. -/
def wrapRun (kind : Kind) (run : Run kind.Carrier σ (UniformList kind.Carrier)) :
    Run Value σ DynamicList where
  calls := run.calls.map (·.map toValue)
  state := run.state
  ending :=
    match run.ending with
    | .returned list => .returned ⟨kind, list⟩
    | .failed e => .failed e
    | .unwound call => .unwound (call.map toValue)

theorem run_wrap (kind : Kind) (making : Action kind.Carrier σ (UniformList kind.Carrier))
    (mem : Allocator) (mishap : Mishap) (s : σ) :
    (wrap kind making).run mem mishap s = wrapRun kind (making.run mem mishap s) := by
  rcases hrun : making.run mem mishap s with ⟨calls, s', ending⟩
  have hwithin : (within toValue id (fun _ s ↦ s) making :
      Action Value σ (UniformList kind.Carrier)).run mem mishap s =
      ⟨calls.map (·.map toValue), s', ending.map toValue⟩ := run_within hrun
  cases ending with
  | returned list =>
    refine (run_bind_returned hwithin).trans ?_
    simp [Run.following, wrapRun]
  | failed e => exact run_bind_failed hwithin
  | unwound call => exact run_bind_unwound hwithin

/-- A dynamic list has no slot to spare if the uniform list inside has none. -/
theorem madeTight_wrap {kind : Kind} {growth : Growth}
    {making : Action kind.Carrier σ (UniformList kind.Carrier)}
    (h : MadeTight UniformList.extent growth making) :
    MadeTight extent growth (wrap kind making) := by
  intro mem mishap s made hmade
  rw [run_wrap] at hmade ⊢
  rcases hrun : making.run mem mishap s with ⟨calls, s', ending⟩
  rw [hrun] at hmade
  cases ending with
  | failed e => cases hmade
  | unwound call => cases hmade
  | returned list =>
    obtain rfl : (⟨kind, list⟩ : DynamicList) = made := by simpa [wrapRun] using hmade
    obtain ⟨hcapacity, hgrowth, hother⟩ := h mem mishap s list (by rw [hrun])
    refine ⟨hcapacity, hgrowth, fun other hgrants ↦ ?_⟩
    rw [run_wrap, hother other hgrants, hrun]

/-- **A list of values has not a slot to spare.** -/
theorem madeTight_ofValues (declared : Option Kind) (values : List Value) :
    MadeTight extent .standard (ofValues declared values : Action Value σ DynamicList) := by
  cases hkind : unifyKinds declared values with
  | error e =>
    intro mem mishap s made hmade
    rw [ofValues, hkind] at hmade
    cases hmade
  | ok kind =>
    obtain ⟨items, hitems⟩ := promoted_of_unifyKinds hkind
    have htight : MadeTight UniformList.extent .standard (UniformList.build .standard values.length
        (UniformList.tryExtend values.length (values.map promote)) :
          Action kind.Carrier σ (UniformList kind.Carrier)) :=
      UniformList.madeTight_of_makesAtOnce
        (fun _ s ↦ UniformList.build_follows
          (fun list ↦ UniformList.tryExtend_follows list _ _) s)
        (makesAtOnce_values hitems) (length_of_promoted hitems)
    have hwrap : (ofValues declared values : Action Value σ DynamicList) =
        wrap kind (UniformList.build .standard values.length
          (UniformList.tryExtend values.length (values.map promote))) := by
      rw [ofValues, hkind]
      exact pure_bind kind _
    exact hwrap ▸ madeTight_wrap htight

/-- **So it is with two lists of one kind**, the first of which says the policy. -/
theorem madeTight_concat {dynamic other : DynamicList} (hfits : dynamic.list.Fits)
    (hkind : other.kind = dynamic.kind) :
    MadeTight extent dynamic.growth (dynamic.concat other : Action Value σ DynamicList) := by
  rw [concat, itemsAs?, dif_pos hkind]
  exact madeTight_wrap (UniformList.Derivation.madeTight hfits (.concat _))

end DynamicList

/-- **The capacity law.**  In the lifetime of a list that was made with a policy, whatever allocators
and mishaps there are: the elements have slots, no more slots than a buffer can have, and the policy
stays.  Operations that store elements and succeed leave exactly the capacity that the policy says
for the new length, operations that take nothing in leave the capacity as it is, and no run ever gives
room up.  What is made of the list has not a slot to spare, by a single allocation, and takes its
policy; and so it is with lists of elements and of values, and of two dynamic lists of one kind. -/
theorem capacity_follows_policy {α σ : Type} [Element α] {growth : Growth} {list : UniformList α}
    (h : UniformList.Reachable growth list) :
    let limit := (Element.layout α).maxElements
    (list.length ≤ list.capacity ∧ list.capacity ≤ limit ∧ list.growth = growth) ∧
    (∀ (operation : UniformList.Operation α (List α)) (mem : Allocator) (mishap : Mishap),
      let run := operation.action.run mem mishap list
      (operation.stores = true → ∀ answer, run.ending = .returned answer →
        run.state.capacity = growth.nextCapacity list.capacity run.state.length limit) ∧
      (operation.fixesRoom = true → run.state.capacity = list.capacity)) ∧
    (∀ attempts : List (UniformList.Attempt α), list.capacity ≤ (list.after attempts).capacity) ∧
    (∀ derivation : UniformList.Derivation (List α),
      MadeTight UniformList.extent growth
        (derivation.action list : Action α σ (UniformList α))) ∧
    (∀ items : List α, MadeTight UniformList.extent .standard
      (UniformList.ofList items : Action α σ (UniformList α))) ∧
    (∀ (declared : Option Kind) (values : List Value), MadeTight DynamicList.extent .standard
      (DynamicList.ofValues declared values : Action Value σ DynamicList)) ∧
    (∀ dynamic other : DynamicList, UniformList.Reachable dynamic.growth dynamic.list →
      other.kind = dynamic.kind → MadeTight DynamicList.extent dynamic.growth
        (dynamic.concat other : Action Value σ DynamicList)) := by
  intro limit
  obtain ⟨hfits, rfl⟩ := h.invariant
  refine ⟨⟨hfits.length_le, hfits.capacity_le, rfl⟩, fun operation mem mishap ↦ ?_,
    fun attempts ↦ (UniformList.grown_after hfits attempts).capacity_le,
    fun derivation ↦ derivation.madeTight hfits, UniformList.Origin.madeTight_ofList,
    DynamicList.madeTight_ofValues, fun _ _ hreachable hkind ↦
      DynamicList.madeTight_concat hreachable.fits hkind⟩
  intro run
  have hrun : run = (operation.course mem list).run mishap :=
    operation.action_follows list mishap
  rw [hrun]
  refine ⟨fun hstores answer hanswer ↦ ?_, fun hfixes ↦ ?_⟩
  · obtain ⟨hresult, hend⟩ := Course.of_run_returned hanswer
    rw [hend]
    exact operation.followsPolicy hfits hstores answer hresult
  · obtain ⟨_, hbuffer⟩ := (operation.keeps_buffer hfits hfixes).run mishap
    rw [hbuffer, UniformList.capacity_holding]

/-- Three numbers and a fourth one: the buffer of three slots doubles. -/
theorem capacity_doubles :
    let made : UniformList Int64 := ⟨⟨#[1, 2, 3], 3⟩, .standard⟩
    UniformList.Reachable .standard made ∧
      ((UniformList.Operation.append 4).action.run .boundless none made).state.capacity = 6 := by
  intro made
  have hreturned : ((UniformList.Origin.ofList [1, 2, 3]).action.run .boundless none ()).ending =
      .returned made := rfl
  have hmade : UniformList.Reachable .standard made := .made hreturned
  obtain ⟨-, hlaw, -⟩ := capacity_follows_policy (σ := Unit) hmade
  obtain ⟨hstores, -⟩ := hlaw (.append 4) .boundless none
  exact ⟨hmade, (hstores rfl _ rfl).trans (by decide)⟩

end ListRuntime
