import ListRuntime.Proofs.Sequence
import Mathlib.Data.List.Nodup
import Mathlib.Data.List.Perm.Basic

/-!
# Elements at positions

A slice stands for positions, and what is done to a slice is done to the elements there.  This file
is about sequences and lists of positions in them; where the positions come from plays no part.

* `Sequence.pickAt` are the elements at some positions.  Adjacent ones are a piece of the sequence
  (`pickAt_range'`).
* `removeAt_adjacent` and `picked_perm` are about taking elements away: what is left, and what is
  gone.
* `Sequence.ReplacedAt` says that two sequences differ at the positions and nowhere else;
  `replacedAt_replaceAt` says so of replacing one element after the other.  `replacedAt_pickAt`,
  `ReplacedAt.pickAt_eq` and `ReplacedAt.trans` say how it goes together with picking, and with
  itself.
-/

set_option autoImplicit false

namespace ListRuntime
namespace Sequence

variable {α : Type}

/-! ## Picking -/

/-- The elements at positions, in the order of the positions. -/
def pickAt (items : List α) (positions : List Nat) : List α := positions.filterMap (items[·]?)

theorem pickAt_cons {items : List α} {position : Nat} (h : position < items.length)
    (positions : List Nat) :
    pickAt items (position :: positions) = items[position] :: pickAt items positions :=
  List.filterMap_cons_some (List.getElem?_eq_getElem h)

theorem length_pickAt {items : List α} {positions : List Nat}
    (hrange : ∀ position ∈ positions, position < items.length) :
    (pickAt items positions).length = positions.length := by
  induction positions with
  | nil => rfl
  | cons position positions ih =>
    obtain ⟨hposition, hrange⟩ := List.forall_mem_cons.1 hrange
    rw [pickAt_cons hposition, List.length_cons, List.length_cons, ih hrange]

theorem getElem?_pickAt {items : List α} {positions : List Nat}
    (hrange : ∀ position ∈ positions, position < items.length) {k : Nat}
    (hk : k < positions.length) : (pickAt items positions)[k]? = items[positions[k]]? := by
  induction positions generalizing k with
  | nil => exact absurd hk (Nat.not_lt_zero k)
  | cons position positions ih =>
    obtain ⟨hposition, hrange⟩ := List.forall_mem_cons.1 hrange
    rw [pickAt_cons hposition]
    cases k with
    | zero => exact (List.getElem?_eq_getElem hposition).symm
    | succ k => exact ih hrange (Nat.lt_of_succ_lt_succ hk)

/-- The elements at adjacent positions are a piece of the sequence, as far as it goes. -/
theorem pickAt_range' (items : List α) (start count : Nat) :
    pickAt items (List.range' start count) = (items.drop start).take count := by
  induction count generalizing start with
  | zero => rfl
  | succ count ih =>
    rw [List.range'_succ]
    rcases Nat.lt_or_ge start items.length with hlt | hge
    · rw [pickAt_cons hlt, ih, List.drop_eq_getElem_cons hlt, List.take_succ_cons]
    · have hnone : items[start]? = none := List.getElem?_eq_none hge
      rw [pickAt, List.filterMap_cons_none hnone]
      refine (ih (start + 1)).trans ?_
      rw [List.drop_of_length_le hge, List.drop_of_length_le (by omega), List.take_nil,
        List.take_nil]

/-! ## Removing -/

theorem removeAt_nil (items : List α) : removeAt items [] = items := by
  simp [removeAt]

/-- Of numbered elements, those outside an interval are the ones before it and the ones behind. -/
theorem filter_outside (items : List α) {start stop : Nat} (h : start ≤ stop) (offset : Nat) :
    ((items.zipIdx offset).filter fun entry ↦ ¬ (start ≤ entry.2 ∧ entry.2 < stop)).map Prod.fst =
      items.take (start - offset) ++ items.drop (stop - offset) := by
  induction items generalizing offset with
  | nil => simp
  | cons a items ih =>
    -- the first element stands before the interval, in it or behind it
    rw [List.zipIdx_cons]
    rcases Nat.lt_or_ge offset start with hbefore | hstart
    · have hstart : start - offset = start - (offset + 1) + 1 := by omega
      have hstop : stop - offset = stop - (offset + 1) + 1 := by omega
      rw [List.filter_cons_of_pos (by simp; omega), List.map_cons, ih, hstart, hstop,
        List.take_succ_cons, List.drop_succ_cons, List.cons_append]
    · have hstart' : start - offset = 0 ∧ start - (offset + 1) = 0 := by omega
      rcases Nat.lt_or_ge offset stop with hinside | hbehind
      · have hstop : stop - offset = stop - (offset + 1) + 1 := by omega
        rw [List.filter_cons_of_neg (by simp; omega), ih, hstart'.1, hstart'.2, hstop,
          List.drop_succ_cons]
        rfl
      · have hstop : stop - offset = 0 ∧ stop - (offset + 1) = 0 := by omega
        rw [List.filter_cons_of_pos (by simp; omega), List.map_cons, ih, hstart'.1, hstart'.2,
          hstop.1, hstop.2]
        rfl

/-- Adjacent elements are removed by putting together what is on either side. -/
theorem removeAt_adjacent (items : List α) {positions : List Nat} {start count : Nat}
    (h : ∀ position, position ∈ positions ↔ start ≤ position ∧ position < start + count) :
    removeAt items positions = items.take start ++ items.drop (start + count) := by
  have houtside := filter_outside items (Nat.le_add_right start count) 0
  rw [removeAt]
  simpa only [h, Nat.sub_zero] using houtside

/-- What is gone are the elements at the positions.  As they stand in the sequence they may come in
another order. -/
theorem picked_perm {items : List α} {positions : List Nat} (hnodup : positions.Nodup)
    (hrange : ∀ position ∈ positions, position < items.length) :
    ((items.zipIdx.filter fun entry ↦ entry.2 ∈ positions).map Prod.fst).Perm
      (pickAt items positions) := by
  let gone := items.zipIdx.filter fun entry ↦ entry.2 ∈ positions
  -- a numbered element is the one at its number
  have hpick : gone.map Prod.fst = pickAt items (gone.map Prod.snd) := by
    rw [pickAt, List.filterMap_map, ← List.filterMap_eq_map]
    refine List.filterMap_congr fun entry hmem ↦ ?_
    exact (List.mem_zipIdx_iff_getElem?.1 (List.mem_of_mem_filter hmem)).symm
  have hnumbers : (gone.map Prod.snd).Nodup := by
    have hall : (items.zipIdx.map Prod.snd).Nodup := by
      rw [List.zipIdx_map_snd]
      exact List.nodup_range'
    exact hall.sublist (List.filter_sublist.map Prod.snd)
  have hsame : (gone.map Prod.snd).Perm positions := by
    refine (List.perm_ext_iff_of_nodup hnumbers hnodup).2 fun position ↦ ?_
    constructor
    · rintro hmem
      obtain ⟨entry, hentry, rfl⟩ := List.mem_map.1 hmem
      simpa using (List.mem_filter.1 hentry).2
    · intro hmem
      have hlt := hrange position hmem
      refine List.mem_map.2 ⟨(items[position], position), List.mem_filter.2 ⟨?_, by simpa⟩, rfl⟩
      exact List.mem_zipIdx_iff_getElem?.2 (List.getElem?_eq_getElem hlt)
  rw [hpick]
  exact hsame.filterMap _

/-! ## Replacing -/

/-- The sequence `after` has, at each of the positions, the element that comes in for it, and
everywhere else what `before` has there. -/
structure ReplacedAt (before after : List α) (positions : List Nat) (incoming : List α) :
    Prop where
  /-- No element is added and none is lost. -/
  length_eq : after.length = before.length
  /-- Each position has the element that comes in for it. -/
  selected : ∀ k (hk : k < positions.length), after[positions[k]]? = incoming[k]?
  /-- All other positions have what they had. -/
  others : ∀ position, position ∉ positions → after[position]? = before[position]?

/-- Replacing one element after the other replaces all of them, if none of the positions comes
twice. -/
theorem replacedAt_replaceAt {items incoming : List α} {positions : List Nat}
    (hnodup : positions.Nodup) (hrange : ∀ position ∈ positions, position < items.length)
    (hlength : positions.length = incoming.length) :
    ReplacedAt items (replaceAt items (positions.zip incoming)) positions incoming := by
  induction positions generalizing items incoming with
  | nil => exact ⟨rfl, fun _ hk ↦ absurd hk (Nat.not_lt_zero _), fun _ _ ↦ rfl⟩
  | cons position positions ih =>
    obtain ⟨a, incoming, rfl⟩ := List.exists_cons_of_length_eq_add_one hlength.symm
    obtain ⟨hfresh, hnodup⟩ := List.nodup_cons.1 hnodup
    have hposition : position < items.length := hrange position List.mem_cons_self
    have hrest : ReplacedAt (items.set position a)
        (replaceAt (items.set position a) (positions.zip incoming)) positions incoming := by
      refine ih hnodup (fun other hmem ↦ ?_) (Nat.succ.inj hlength)
      rw [List.length_set]
      exact hrange other (List.mem_cons_of_mem position hmem)
    refine ⟨hrest.length_eq.trans List.length_set, fun k hk ↦ ?_, fun other hother ↦ ?_⟩
    · cases k with
      | zero =>
        refine (hrest.others position hfresh).trans ?_
        exact List.getElem?_set_self hposition
      | succ k => exact hrest.selected k (Nat.lt_of_succ_lt_succ hk)
    · obtain ⟨hne, hother⟩ := not_or.1 (mt List.mem_cons.2 hother)
      refine (hrest.others other hother).trans ?_
      exact List.getElem?_set_ne (Ne.symm hne)

/-- Putting in what is there already changes nothing. -/
theorem replacedAt_pickAt {items : List α} {positions : List Nat}
    (hrange : ∀ position ∈ positions, position < items.length) :
    ReplacedAt items items positions (pickAt items positions) :=
  ⟨rfl, fun _ hk ↦ (getElem?_pickAt hrange hk).symm, fun _ _ ↦ rfl⟩

section
variable {before between after other incoming incoming' : List α} {positions : List Nat}

/-- What was put in is what is there. -/
theorem ReplacedAt.pickAt_eq (h : ReplacedAt before after positions incoming)
    (hrange : ∀ position ∈ positions, position < before.length)
    (hlength : positions.length = incoming.length) : pickAt after positions = incoming := by
  rw [← h.length_eq] at hrange
  refine List.ext_getElem? fun k ↦ ?_
  rcases Nat.lt_or_ge k positions.length with hk | hk
  · rw [getElem?_pickAt hrange hk, h.selected k hk]
  · rw [List.getElem?_eq_none (by rwa [length_pickAt hrange]),
      List.getElem?_eq_none (by rwa [← hlength])]

/-- The later replacement counts. -/
theorem ReplacedAt.trans (h : ReplacedAt before between positions incoming)
    (h' : ReplacedAt between after positions incoming') :
    ReplacedAt before after positions incoming' :=
  ⟨h'.length_eq.trans h.length_eq, h'.selected,
    fun position hother ↦ (h'.others position hother).trans (h.others position hother)⟩

/-- There is one way to replace elements. -/
theorem ReplacedAt.unique (h : ReplacedAt before after positions incoming)
    (h' : ReplacedAt before other positions incoming) : after = other := by
  refine List.ext_getElem? fun position ↦ ?_
  by_cases hmem : position ∈ positions
  · obtain ⟨k, hk, rfl⟩ := List.getElem_of_mem hmem
    rw [h.selected k hk, h'.selected k hk]
  · rw [h.others position hmem, h'.others position hmem]

end

end Sequence
end ListRuntime
