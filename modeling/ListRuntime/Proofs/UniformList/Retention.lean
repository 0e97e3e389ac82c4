import ListRuntime.Proofs.UniformList.Conservation
import ListRuntime.Proofs.UniformList.Unwinding

/-!
# Elements that are stored again

A program may store into a list what it has just read from it.  If nobody but the list holds such an
element, it must not be let go before it is acquired again: whoever counts the calls would find that
nothing of it is held any more, and give it up.

* `HookCall.AcquiresHeld` says that no call acquires an element of which nothing is held.
* Operations that acquire all that comes in before they release anything are safe, and so is the
  assignment of one element.
* Assigning to a slice with a step is not, as it goes on to the next position after each release.
  `acquiresHeld_overwriteEach_iff` is the exact condition: what comes in must still be in the list
  when its turn comes.
* `stored_elements_held` puts all this together, and `stored_element_let_go` is a list of two of
  which it fails.
-/

set_option autoImplicit false

namespace ListRuntime

open ListRuntime.Action Course Sequence

/-! ## Acquiring what is held -/

namespace HookCall

variable {α : Type} [DecidableEq α] {owned : α → Int} {calls more : List (HookCall α)}

/-- No call acquires an element of which nothing is held: whenever an element is acquired, something
is left of it, of what is `owned` at first and of the calls before. -/
def AcquiresHeld (owned : α → Int) (calls : List (HookCall α)) : Prop :=
  ∀ before a after, calls = before ++ ⟨.acquire, a⟩ :: after → 0 < owned a + balance before a

theorem acquiresHeld_nil : AcquiresHeld owned [] := by
  intro before a after h
  simp at h

/-- So it is of the first calls, if it is of all of them. -/
theorem AcquiresHeld.initial (h : AcquiresHeld owned more) (hcalls : calls <+: more) :
    AcquiresHeld owned calls := by
  obtain ⟨rest, rfl⟩ := hcalls
  rintro before a after rfl
  exact h before a (after ++ rest) (List.append_assoc ..)

/-- A call changes what is owned, and if it acquires an element, something of it has to be owned. -/
theorem acquiresHeld_cons {call : HookCall α} :
    AcquiresHeld owned (call :: calls) ↔ (call.hook = .acquire → 0 < owned call.element) ∧
      AcquiresHeld (fun a ↦ owned a + balance [call] a) calls := by
  have hbalance (before : List (HookCall α)) (a : α) :
      balance (call :: before) a = balance [call] a + balance before a :=
    balance_append [call] before a
  constructor
  · refine fun h ↦ ⟨fun hhook ↦ ?_, fun before a after heq ↦ ?_⟩
    · have hheld := h [] call.element calls (by rw [← hhook]; rfl)
      rwa [balance_nil, Int.add_zero] at hheld
    · have hheld := h (call :: before) a after (congrArg (call :: ·) heq)
      rwa [hbalance, ← Int.add_assoc] at hheld
  · rintro ⟨hfirst, hrest⟩ before a after heq
    cases before with
    | nil =>
      obtain ⟨rfl, rfl⟩ := List.cons.inj heq
      rw [balance_nil, Int.add_zero]
      exact hfirst rfl
    | cons first before =>
      obtain ⟨rfl, htail⟩ := List.cons.inj heq
      rw [hbalance, ← Int.add_assoc]
      exact hrest before a after htail

theorem acquiresHeld_releases (items : List α) :
    AcquiresHeld owned (items.map (⟨.release, ·⟩)) := by
  intro before a after h
  have hmem : ⟨.acquire, a⟩ ∈ items.map (HookCall.mk .release) := by
    rw [h]
    exact List.mem_append_right before List.mem_cons_self
  obtain ⟨b, -, hb⟩ := List.mem_map.1 hmem
  cases hb

/-- First some elements are acquired, all of which are held, and then some are released. -/
theorem acquiresHeld_exchange {incoming : List α} (h : ∀ a ∈ incoming, 0 < owned a)
    (outgoing : List α) : AcquiresHeld owned
      (incoming.map (⟨.acquire, ·⟩) ++ outgoing.map (⟨.release, ·⟩)) := by
  induction incoming generalizing owned with
  | nil => exact acquiresHeld_releases outgoing
  | cons a incoming ih =>
    refine acquiresHeld_cons.2 ⟨fun _ ↦ h a List.mem_cons_self, ih fun b hb ↦ ?_⟩
    show 0 < owned b + balance ([a].map (⟨.acquire, ·⟩)) b
    have hheld := h b (List.mem_cons_of_mem a hb)
    rw [balance_acquires]
    omega

/-- An element is acquired, and then another one is released. -/
theorem acquiresHeld_round {a b : α} :
    AcquiresHeld owned (⟨.acquire, a⟩ :: ⟨.release, b⟩ :: calls) ↔ 0 < owned a ∧
      AcquiresHeld (fun c ↦ owned c + [a].count c - [b].count c) calls := by
  have howned : (fun c ↦ owned c + balance [⟨.acquire, a⟩] c + balance [⟨.release, b⟩] c) =
      fun c ↦ owned c + [a].count c - [b].count c := by
    funext c
    have hacquired : balance [⟨.acquire, a⟩] c = [a].count c := balance_acquires [a] c
    have hreleased : balance [⟨.release, b⟩] c = -([b].count c : Int) := balance_releases [b] c
    rw [hacquired, hreleased]
    rfl
  rw [acquiresHeld_cons, acquiresHeld_cons, howned]
  constructor
  · rintro ⟨hfirst, -, hrest⟩
    exact ⟨hfirst rfl, hrest⟩
  · rintro ⟨hfirst, hrest⟩
    refine ⟨fun _ ↦ hfirst, fun hhook ↦ ?_, hrest⟩
    cases hhook

end HookCall

namespace UniformList

open HookCall

variable {α : Type} [DecidableEq α] {list : UniformList α}

/-- An element is held by a list if it is in it. -/
theorem stock_pos_iff {a : α} : 0 < list.stock a ↔ a ∈ list.toList := by
  rw [stock, Int.natCast_pos, List.count_pos_iff]

/-- Where one element takes the place of another, a list holds the one more and the other less. -/
theorem stock_set {position : Nat} (h : position < list.toList.length) (a : α) :
    (list.holding (list.toList.set position a)).stock =
      fun c ↦ list.stock c + [a].count c - [list.toList[position]].count c := by
  funext c
  have hset := count_set_add h a c
  rw [List.getElem?_eq_getElem h, Option.toList_some] at hset
  rw [stock, stock, toList_holding]
  omega

/-! ## Overwriting -/

/-- **Overwriting one element after the other** acquires only what is held if each element that
comes in is still in the list when its turn comes. -/
theorem acquiresHeld_overwriteEach_iff {entries : List (Nat × α)}
    (hrange : ∀ entry ∈ entries, entry.1 < list.toList.length) :
    AcquiresHeld list.stock (overwriteEachCourse entries list).calls ↔
      ∀ k (hk : k < entries.length), entries[k].2 ∈ replaceAt list.toList (entries.take k) := by
  induction entries generalizing list with
  | nil => exact iff_of_true acquiresHeld_nil fun _ hk ↦ absurd hk (Nat.not_lt_zero _)
  | cons entry entries ih =>
    obtain ⟨hentry, hrange⟩ := List.forall_mem_cons.1 hrange
    let changed := list.holding (list.toList.set entry.1 entry.2)
    have hchanged : ∀ other ∈ entries, other.1 < changed.toList.length := by
      intro other hmem
      rw [toList_holding, List.length_set]
      exact hrange other hmem
    -- after a round, what is owned is again what the list holds
    rw [Course.calls, stages_overwriteEach_cons hentry, List.map_cons, List.map_cons,
      acquiresHeld_round, ← stock_set hentry, stock_pos_iff, ← Course.calls, ih hchanged]
    constructor
    · rintro ⟨hfirst, hrest⟩ k hk
      cases k with
      | zero => exact hfirst
      | succ k => exact hrest k (Nat.lt_of_succ_lt_succ hk)
    · intro h
      exact ⟨h 0 (Nat.zero_lt_succ _), fun k hk ↦ h (k + 1) (Nat.succ_lt_succ hk)⟩

/-! ## Assignments -/

theorem acquiresHeld_assign {a : α} (ha : a ∈ list.toList) (index : Int64) :
    AcquiresHeld list.stock (atIndex index (overwriteCourse · a) list).calls := by
  rw [atIndex]
  split
  · next position =>
    rw [overwriteCourse, Course.calls, List.map_append, map_call_row, map_call_row]
    refine acquiresHeld_exchange (fun b hb ↦ ?_) _
    rw [List.mem_singleton.1 hb]
    exact stock_pos_iff.2 ha
  · exact acquiresHeld_nil

variable [Element α] {items : List α}

theorem acquiresHeld_splice (h : list.Fits) (hitems : ∀ a ∈ items, a ∈ list.toList)
    (mem : Allocator) (first removed : Nat) :
    AcquiresHeld list.stock (spliceCourse mem first removed items list).calls := by
  cases hroom : list.roomFor mem (list.spliced first removed items).length with
  | ok roomy =>
    rw [spliceCourse_of_room h hroom, Course.calls, List.map_append, map_call_row, map_call_row]
    exact acquiresHeld_exchange (fun a ha ↦ stock_pos_iff.2 (hitems a ha)) _
  | error cause =>
    obtain ⟨e, -, hrefused⟩ := spliceCourse_of_refused h hroom
    rw [hrefused]
    exact acquiresHeld_nil

/-- When assigning to a slice acquires only what is held: unless elements are replaced one after the
other, in any case, and then if each that comes in is still in the list when its turn comes. -/
def StillThere (list : UniformList α) (slice : Slice) (items : List α) : Prop :=
  slice.stride = 0 ∨ slice.stride = 1 ∨ (slice.walked list.length).length ≠ items.length ∨
    ∀ k (hk : k < items.length),
      items[k] ∈ replaceAt list.toList (((slice.walked list.length).zip items).take k)

theorem acquiresHeld_setSlice_iff (h : list.Fits) (hitems : ∀ a ∈ items, a ∈ list.toList)
    (mem : Allocator) (slice : Slice) :
    AcquiresHeld list.stock (setSliceCourse mem slice items list).calls ↔
      list.StillThere slice items := by
  by_cases hzero : slice.stride = 0
  · rw [setSliceCourse_of_zero hzero]
    exact iff_of_true acquiresHeld_nil (.inl hzero)
  by_cases hone : slice.stride = 1
  · rw [setSliceCourse_of_contiguous h hone]
    exact iff_of_true (acquiresHeld_splice h hitems mem _ _) (.inr (.inl hone))
  rw [setSliceCourse_of_stepped h hzero hone, StillThere]
  by_cases hcount : (slice.walked list.length).length = items.length
  · have hlength : ((slice.walked list.length).zip items).length = items.length := by
      rw [List.length_zip, hcount, Nat.min_self]
    rw [if_pos hcount, acquiresHeld_overwriteEach_iff (lt_of_mem_zip_walked h hzero items)]
    simp only [hlength, List.getElem_zip, hzero, hone, hcount, ne_eq, not_true_eq_false, false_or]
  · rw [if_neg hcount]
    exact iff_of_true acquiresHeld_nil (.inr (.inr (.inl hcount)))

/-- **Storing what the list already has**, and nobody else.  Assigning one element never acquires an
element that has been let go, wherever the operation is cut short; nor does assigning to a slice
with step one, or one that fails.  With any other step it is so exactly if each element that comes
in is still in the list when those before it have been replaced. -/
theorem stored_elements_held (h : list.Fits) :
    (∀ (mem : Allocator) (mishap : Mishap) (index : Int64), ∀ a ∈ list.toList,
      AcquiresHeld list.stock ((Operation.assign index a).action.run mem mishap list).calls) ∧
    ∀ (slice : Slice) (items : List α), (∀ a ∈ items, a ∈ list.toList) →
      ((∀ (mem : Allocator) (mishap : Mishap), AcquiresHeld list.stock
          ((Operation.setSlice slice items).action.run mem mishap list).calls) ↔
        list.StillThere slice items) := by
  have hcalls (operation : Operation α (List α)) (mem : Allocator) (mishap : Mishap) :
      (operation.action.run mem mishap list).calls <+: (operation.course mem list).calls := by
    rw [operation.action_follows list mishap]
    exact (operation.cutShort h).calls_run mishap
  refine ⟨fun mem mishap index a ha ↦ ?_, fun slice items hitems ↦ ⟨fun hall ↦ ?_,
    fun hstill mem mishap ↦ ?_⟩⟩
  · exact (acquiresHeld_assign ha index).initial (hcalls (.assign index a) mem mishap)
  · have hheld := hall .boundless none
    rw [Operation.action_follows _ list none] at hheld
    exact (acquiresHeld_setSlice_iff h hitems .boundless slice).1 hheld
  · exact ((acquiresHeld_setSlice_iff h hitems mem slice).2 hstill).initial
      (hcalls (.setSlice slice items) mem mishap)

/-- A reference that is in the list twice may be let go once, and then be stored. -/
theorem stored_elements_held_twice :
    let list : UniformList Reference := ⟨⟨#[⟨16, 0⟩, ⟨32, 0⟩, ⟨16, 0⟩], 3⟩, .standard⟩
    let slice : Slice := { step := some 2 }
    let items : List Reference := [⟨32, 0⟩, ⟨16, 0⟩]
    list.Fits ∧ (∀ a ∈ items, a ∈ list.toList) ∧
      ∀ (mem : Allocator) (mishap : Mishap), AcquiresHeld list.stock
        ((Operation.setSlice slice items).action.run mem mishap list).calls := by
  intro list slice items
  have hfits : list.Fits := ⟨by decide, by decide⟩
  have hitems : ∀ a ∈ items, a ∈ list.toList := by decide
  have hresolve : slice.resolve list.length = .ok ⟨0, 3, 2, 2⟩ := by decide +kernel
  have hwalked : slice.walked list.length = [0, 2] :=
    (Slice.positions_of_resolve hfits.length_le_max hresolve).symm.trans (by decide +kernel)
  have hstill : list.StillThere slice items := by
    refine .inr (.inr (.inr fun k hk ↦ ?_))
    rw [hwalked]
    match k, hk with
    | 0, _ =>
      show (⟨32, 0⟩ : Reference) ∈ [⟨16, 0⟩, ⟨32, 0⟩, ⟨16, 0⟩]
      decide
    | 1, _ =>
      show (⟨16, 0⟩ : Reference) ∈ [⟨32, 0⟩, ⟨32, 0⟩, ⟨16, 0⟩]
      decide
  exact ⟨hfits, hitems, ((stored_elements_held hfits).2 slice items hitems).2 hstill⟩

/-- Two references are to change places.  The second is let go to make way for the first, and only
then acquired. -/
theorem stored_element_let_go :
    let list : UniformList Reference := ⟨⟨#[⟨16, 0⟩, ⟨32, 0⟩], 2⟩, .standard⟩
    let turn : Operation Reference (List Reference) := .setSlice { step := some (-1) } list.toList
    let run := turn.action.run .boundless none list
    list.Fits ∧ run.calls = HookCall.inTurn [⟨16, 0⟩, ⟨32, 0⟩] [⟨32, 0⟩, ⟨16, 0⟩] ∧
      ¬ AcquiresHeld list.stock run.calls := by
  intro list turn run
  have hcalls : run.calls = HookCall.inTurn [⟨16, 0⟩, ⟨32, 0⟩] [⟨32, 0⟩, ⟨16, 0⟩] := by
    decide +kernel
  refine ⟨⟨by decide, by decide⟩, hcalls, fun hheld ↦ ?_⟩
  have hpositive := hheld [⟨.acquire, ⟨16, 0⟩⟩, ⟨.release, ⟨32, 0⟩⟩] ⟨32, 0⟩
    [⟨.release, ⟨16, 0⟩⟩] hcalls
  exact absurd hpositive (by decide)

end UniformList
end ListRuntime
