import ListRuntime.Proofs.UniformList.Course
import Mathlib.Data.List.Perm.Basic

/-!
# The sweep of an extended deletion

A sweep exchanges elements, and the queue of those that go is rotated on the way.  This file proves
that nothing is lost by that, and that the elements that stay keep their order.

* `Sweep.leaving` are the elements that go, and `Sweep.order` is the swept list.
* `kept_sweep` and `leaving_sweep` are what a sweep leaves in its two parts; together they are the
  elements it started from (`order_sweep_perm`).
-/

set_option autoImplicit false

namespace ListRuntime
namespace UniformList

variable {α : Type}

/-! ## Queues as lists -/

theorem toList_enqueue (queue : Std.Queue α) (a : α) :
    (queue.enqueue a).toArray.toList = queue.toArray.toList ++ [a] := by
  simp [Std.Queue.enqueue, Std.Queue.toArray]

theorem toList_of_dequeue?_some {queue others : Std.Queue α} {first : α}
    (h : queue.dequeue? = some (first, others)) :
    queue.toArray.toList = first :: others.toArray.toList := by
  obtain ⟨entering, leaving⟩ := queue
  rw [Std.Queue.dequeue?.eq_def] at h
  split at h
  · next hleaving =>
    cases h
    simp_all [Std.Queue.toArray]
  · next hleaving =>
    split at h
    · cases h
    · next hentering =>
      cases h
      simp_all [Std.Queue.toArray]

/-! ## One step -/

/-- The elements that go, in the order in which they are going to be released. -/
def Sweep.leaving (swept : Sweep α) : List α := swept.doomed.toArray.toList

theorem Sweep.order_eq (swept : Sweep α) : swept.order = swept.kept.reverse ++ swept.leaving := rfl

theorem Sweep.kept_step (swept : Sweep α) (goes : Bool) (a : α) :
    (swept.step goes a).kept = if goes then swept.kept else a :: swept.kept := by
  rw [step]
  cases goes with
  | true => rfl
  | false =>
    simp only [Bool.false_eq_true, if_false]
    split <;> rfl

/-- An element that goes joins those that go; otherwise these are at most rotated. -/
theorem Sweep.leaving_step (swept : Sweep α) (goes : Bool) (a : α) :
    (swept.step goes a).leaving.Perm (swept.leaving ++ if goes then [a] else []) := by
  rw [step]
  cases goes with
  | true => exact .of_eq (toList_enqueue _ a)
  | false =>
    simp only [Bool.false_eq_true, if_false, List.append_nil]
    split
    · next first others hdequeue =>
      rw [leaving, leaving, toList_enqueue, toList_of_dequeue?_some hdequeue]
      exact List.perm_append_singleton first _
    · exact .refl _

/-! ## The whole sweep -/

/-- Sweep over elements one after the other, with the positions they have. -/
def sweepOn (swept : Sweep α) (selection : Selection) (entries : List (α × Nat)) : Sweep α :=
  entries.foldl (fun swept (a, position) ↦ swept.step (selection.selects position) a) swept

theorem kept_sweepOn (selection : Selection) (entries : List (α × Nat)) (swept : Sweep α) :
    (sweepOn swept selection entries).kept.reverse = swept.kept.reverse ++
      (entries.filter fun entry ↦ !selection.selects entry.2).map Prod.fst := by
  induction entries generalizing swept with
  | nil => simp [sweepOn]
  | cons entry entries ih =>
    obtain ⟨a, position⟩ := entry
    refine (ih _).trans ?_
    rw [Sweep.kept_step]
    cases hgoes : selection.selects position <;> simp [hgoes]

theorem leaving_sweepOn (selection : Selection) (entries : List (α × Nat)) (swept : Sweep α) :
    (sweepOn swept selection entries).leaving.Perm (swept.leaving ++
      (entries.filter fun entry ↦ selection.selects entry.2).map Prod.fst) := by
  induction entries generalizing swept with
  | nil => simp [sweepOn]
  | cons entry entries ih =>
    obtain ⟨a, position⟩ := entry
    refine (ih _).trans (((Sweep.leaving_step swept _ a).append_right _).trans (.of_eq ?_))
    cases hgoes : selection.selects position <;> simp [hgoes]

variable (items : List α) (selection : Selection)

/-- The elements that stay are those at the other positions, in their order. -/
theorem kept_sweep : (sweep items selection).kept.reverse =
    (items.zipIdx.filter fun entry ↦ !selection.selects entry.2).map Prod.fst :=
  kept_sweepOn selection items.zipIdx {}

/-- The elements that go are those at the selected positions, in some order. -/
theorem leaving_sweep : (sweep items selection).leaving.Perm
    ((items.zipIdx.filter fun entry ↦ selection.selects entry.2).map Prod.fst) :=
  leaving_sweepOn selection items.zipIdx {}

/-- **A sweep loses nothing.** -/
theorem order_sweep_perm : (sweep items selection).order.Perm items := by
  have hparts : (sweep items selection).order.Perm
      ((items.zipIdx.filter fun entry ↦ selection.selects entry.2).map Prod.fst ++
        (items.zipIdx.filter fun entry ↦ !selection.selects entry.2).map Prod.fst) := by
    rw [Sweep.order_eq, kept_sweep]
    exact List.perm_append_comm.trans ((leaving_sweep items selection).append_right _)
  refine hparts.trans ?_
  rw [← List.map_append]
  refine ((List.filter_append_perm (fun entry : α × Nat ↦ selection.selects entry.2)
    items.zipIdx).map Prod.fst).trans (.of_eq ?_)
  exact List.zipIdx_map_fst 0 items

end UniformList
end ListRuntime
