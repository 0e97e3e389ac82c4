import ListRuntime.Proofs.Course.Alike
import ListRuntime.Proofs.Session.Command

/-!
# Commands that look alike

All that can be seen of named lists are their elements.  This file compares what is done to two
registries in which they are the same, from the resolving of a command to the last hook call.

* `Registry.shown` is what is seen of a registry, and `Answer.SameBut` compares answers.
* `Resolved.Alike` relates parts of commands that resolve to related things, or alike to none.
* `Registry.alike_keep`, `Registry.alike_visit` and `Registry.alike_drop` are the courses on
  registries.
-/

set_option autoImplicit false

namespace ListRuntime

open ListRuntime.Action Course

/-- The same answer, whatever the policy it speaks of. -/
inductive Answer.SameBut {α : Type} : Answer α → Answer α → Prop where
  | refl (answer : Answer α) : SameBut answer answer
  | summary (length : Nat) (kind : Kind) (growth growth' : Growth) :
    SameBut (.summary length kind growth) (.summary length kind growth')

/-! ## Resolving -/

namespace Resolved

variable {β β' δ δ' : Type}

/-- Two parts of commands come to related things, or they fail in the same way, or neither means
anything. -/
inductive Alike (P : β → β' → Prop) : Resolved β → Resolved β' → Prop where
  | meaningless : Alike P (ExceptT.mk none) (ExceptT.mk none)
  | failed (e : ListError) : Alike P (ExceptT.mk (some (.error e))) (ExceptT.mk (some (.error e)))
  | resolved {b : β} {b' : β'} (h : P b b') :
    Alike P (ExceptT.mk (some (.ok b))) (ExceptT.mk (some (.ok b')))

variable {P : β → β' → Prop} {Q : δ → δ' → Prop}

theorem Alike.pure {b : β} {b' : β'} (h : P b b') :
    (pure b : Resolved β).Alike P (Pure.pure b' : Resolved β') := .resolved h

theorem Alike.refl {P : β → β → Prop} (h : ∀ b, P b b) (part : Resolved β) : part.Alike P part := by
  rcases part with _ | (e | b)
  · exact .meaningless
  · exact .failed e
  · exact .resolved (h b)

theorem Alike.bind {first : Resolved β} {first' : Resolved β'} {next : β → Resolved δ}
    {next' : β' → Resolved δ'} (h : first.Alike P first')
    (hnext : ∀ b b', P b b' → (next b).Alike Q (next' b')) :
    (first >>= next).Alike Q (first' >>= next') := by
  cases h with
  | meaningless => exact .meaningless
  | failed e => exact .failed e
  | resolved hb => exact hnext _ _ hb

end Resolved

namespace Registry

variable {γ S β : Type} {contents : S → List γ} {registry registry' : Registry S}

/-! ## What is seen of a registry -/

/-- What is seen of a registry: the elements of the list under each name. -/
def shown (contents : S → List γ) (registry : Registry S) (name : String) : Option (List γ) :=
  (registry.find? name).map contents

/-- Two registries in which the same is seen. -/
def Same (contents : S → List γ) (registry registry' : Registry S) : Prop :=
  registry.shown contents = registry'.shown contents

theorem shown_insert (contents : S → List γ) (registry : Registry S) (name : String) (list : S) :
    (registry.insert name list).shown contents =
      Function.update (registry.shown contents) name (some (contents list)) := by
  funext other
  by_cases hother : other = name
  · subst hother
    rw [Function.update_self, shown, find?_insert_self]
    rfl
  · rw [Function.update_of_ne hother, shown, find?_insert_of_ne registry name hother, shown]

theorem shown_erase (contents : S → List γ) (registry : Registry S) (name : String) :
    (registry.erase name).shown contents =
      Function.update (registry.shown contents) name none := by
  funext other
  by_cases hother : other = name
  · subst hother
    rw [Function.update_self, shown, find?_erase_self]
    rfl
  · rw [Function.update_of_ne hother, shown, find?_erase_of_ne registry name hother, shown]

theorem Same.insert (h : Same contents registry registry') (name : String) {list list' : S}
    (hlist : contents list = contents list') :
    Same contents (registry.insert name list) (registry'.insert name list') := by
  rw [Same, shown_insert, shown_insert, hlist, show registry.shown contents = _ from h]

/-- A list that takes the place of one with the same elements is not seen. -/
theorem same_insert {name : String} {list changed : S} (hfind : registry.find? name = some list)
    (h : contents changed = contents list) : Same contents (registry.insert name changed) registry := by
  have hname : registry.shown contents name = some (contents changed) := by
    rw [shown, hfind, h]
    rfl
  rw [Same, shown_insert, ← hname, Function.update_eq_self]

theorem Same.erase (h : Same contents registry registry') (name : String) :
    Same contents (registry.erase name) (registry'.erase name) := by
  rw [Same, shown_erase, shown_erase, show registry.shown contents = _ from h]

theorem Same.elementsUnder_eq (h : Same contents registry registry') (name : String) :
    registry.elementsUnder contents name = registry'.elementsUnder contents name :=
  congrArg (fun shown ↦ (shown name).getD []) h

/-- The lists under a name have the same elements, or there is none. -/
theorem Same.alike_named (h : Same contents registry registry') (name : String) :
    (Resolved.named registry name).Alike (fun list list' ↦ contents list = contents list')
      (Resolved.named registry' name) := by
  have hname : (registry.find? name).map contents = (registry'.find? name).map contents :=
    congrFun h name
  rw [Resolved.named, Resolved.named]
  revert hname
  cases registry.find? name with
  | none =>
    cases registry'.find? name with
    | none => exact fun _ ↦ .meaningless
    | some list' => exact fun hname ↦ (nomatch hname)
  | some list =>
    cases registry'.find? name with
    | none => exact fun hname ↦ (nomatch hname)
    | some list' => exact fun hname ↦ .resolved (Option.some.inj hname)

/-! ## Courses on registries -/

section
variable (h : Same contents registry registry')
include h

/-- Letting the list under a name go, in registries that show the same. -/
theorem alike_giveUp (name : String) {changed changed' : Registry S}
    (hchanged : Same contents changed changed') :
    (⟨Stage.row .release (registry.elementsUnder contents name) changed, changed, .ok ()⟩ :
      Course γ (Registry S) Unit).Alike (Same contents) Eq
      ⟨Stage.row .release (registry'.elementsUnder contents name) changed', changed', .ok ()⟩ := by
  refine .returned ?_ hchanged rfl
  rw [map_call_row, map_call_row, h.elementsUnder_eq]

theorem alike_drop (name : Option String) :
    (dropCourse contents name registry).Alike (Same contents) Answer.SameBut
      (dropCourse contents name registry') := by
  cases name with
  | none => exact .done h (.refl _)
  | some name => exact (alike_giveUp h name (h.erase name)).map fun _ _ _ ↦ .refl _

/-- Work that is done alike on lists with the same elements is done alike on the registries. -/
theorem alike_visit (name : String) {P : β → β → Prop} {work work' : Course γ S β}
    (hwork : work.Alike (fun list list' ↦ contents list = contents list') P work') :
    (visitCourse name registry work).Alike (Same contents) P (visitCourse name registry' work') :=
  hwork.within fun _ _ hlist ↦ h.insert name hlist

end

/-- Lists that are made alike are put under a name alike. -/
theorem alike_keep (name : String) {making making' : Course γ (Registry S) S}
    (hmaking : making.Alike (Same contents) (fun list list' ↦ contents list = contents list')
      making') :
    (keepCourse contents name making).Alike (Same contents) Answer.SameBut
      (keepCourse contents name making') :=
  (hmaking.bind fun _ _ _ _ hlist hsame ↦ alike_giveUp hsame name (hsame.insert name hlist)).map
    fun _ _ _ ↦ .refl _

end Registry
end ListRuntime
