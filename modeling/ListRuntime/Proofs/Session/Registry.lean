import ListRuntime.Proofs.Course.Conservation
import ListRuntime.Session.Registry
import Mathlib.Data.List.Nodup
import Mathlib.Data.String.Basic

/-!
# What a registry holds

Putting a list under a name, and giving a name up, change what all lists together hold by what that
one name stood for.  This file says so for the elements, as counts, and for the courses of the
actions that let lists go.

* `find?_insert_self`, `find?_insert_of_ne`, `find?_erase_self` and `find?_erase_of_ne` say what is
  under each name afterwards.
* `Registry.Distinct` is the invariant that no name is there twice.
* `Registry.elements` are the elements of all lists; `count_insert` and `count_erase` keep the
  books.
-/

set_option autoImplicit false

namespace ListRuntime
namespace Registry

variable {γ S : Type} (registry : Registry S) (name : String)

/-! ## Names -/

/-- What is under a name depends on the entries of that name alone. -/
theorem lookup_filter {entries : List (String × S)} {test : String × S → Bool}
    (h : ∀ entry, entry.1 = name → test entry) :
    (entries.filter test).lookup name = entries.lookup name := by
  induction entries with
  | nil => rfl
  | cons entry entries ih =>
    obtain ⟨other, list⟩ := entry
    by_cases hname : name = other
    · subst hname
      rw [List.filter_cons_of_pos (h _ rfl), List.lookup_cons_self, List.lookup_cons_self]
    · have hskip (rest : List (String × S)) :
          ((other, list) :: rest).lookup name = rest.lookup name := by
        rw [List.lookup_cons, beq_eq_false_iff_ne.2 hname]
      rw [List.filter_cons, hskip]
      split
      · rw [hskip, ih]
      · exact ih

theorem lookup_filter_none {entries : List (String × S)} {test : String × S → Bool}
    (h : ∀ entry, entry.1 = name → test entry = false) :
    (entries.filter test).lookup name = none := by
  refine List.lookup_eq_none_iff.2 fun entry hmem ↦ ?_
  have htest := (List.mem_filter.1 hmem).2
  rw [bne_iff_ne]
  intro heq
  rw [h entry heq.symm] at htest
  cases htest

theorem find?_insert_self (list : S) : (registry.insert name list).find? name = some list := by
  have hbefore : (registry.entries.filter fun entry ↦ entry.1 < name).lookup name = none :=
    lookup_filter_none name fun entry heq ↦ by simp [heq]
  rw [find?, insert, List.lookup_append, hbefore, List.lookup_cons_self]
  rfl

/-- Nothing changes under another name. -/
theorem find?_insert_of_ne {other : String} (h : other ≠ name) (list : S) :
    (registry.insert name list).find? other = registry.find? other := by
  simp only [find?, insert, List.lookup_append, List.lookup_cons, beq_eq_false_iff_ne.2 h]
  rcases lt_or_gt_of_ne h with hlt | hgt
  · rw [lookup_filter other fun entry heq ↦ by simp [heq, hlt],
      lookup_filter_none other fun entry heq ↦ by simp [heq, String.lt_asymm hlt]]
    exact Option.or_none
  · have hnot : ¬ other < name := String.lt_asymm hgt
    rw [lookup_filter_none other fun entry heq ↦ by simpa [heq] using hnot,
      lookup_filter other fun entry heq ↦ by simp [heq, hgt]]
    exact Option.none_or

theorem find?_erase_self : (registry.erase name).find? name = none :=
  lookup_filter_none name fun entry heq ↦ by simp [heq]

theorem find?_erase_of_ne {other : String} (h : other ≠ name) :
    (registry.erase name).find? other = registry.find? other :=
  lookup_filter other fun entry heq ↦ by simp [heq, h]

/-! ## Entries -/

/-- No name is there twice. -/
def Distinct : Prop := (registry.entries.map Prod.fst).Nodup

/-- All lists have a property. -/
def All (P : S → Prop) : Prop := ∀ entry ∈ registry.entries, P entry.2

/-- A new list stands beside those under the other names. -/
theorem insert_perm (list : S) :
    (registry.insert name list).entries.Perm ((name, list) :: (registry.erase name).entries) := by
  have hbefore : (registry.erase name).entries.filter (fun entry ↦ entry.1 < name) =
      registry.entries.filter fun entry ↦ entry.1 < name := by
    rw [erase, List.filter_filter]
    refine List.filter_congr fun entry _ ↦ ?_
    by_cases hlt : entry.1 < name
    · simp [hlt, String.ne_of_lt hlt]
    · simp [hlt]
  have hafter : (registry.erase name).entries.filter (fun entry ↦ !decide (entry.1 < name)) =
      registry.entries.filter fun entry ↦ name < entry.1 := by
    rw [erase, List.filter_filter]
    refine List.filter_congr fun entry _ ↦ ?_
    by_cases hgt : name < entry.1
    · simp [hgt, String.lt_asymm hgt, (String.ne_of_lt hgt).symm]
    · by_cases heq : entry.1 = name
      · simp [heq]
      · simp [hgt, heq, (lt_or_gt_of_ne heq).resolve_right hgt]
  have hparts := List.filter_append_perm (fun entry : String × S ↦ decide (entry.1 < name))
    (registry.erase name).entries
  rw [hbefore, hafter] at hparts
  exact List.perm_middle.trans (hparts.cons _)

variable {registry}

/-- Giving a name up takes away the list under it, and no other. -/
theorem erase_perm (h : registry.Distinct) :
    registry.entries.Perm
      (((registry.find? name).map (name, ·)).toList ++ (registry.erase name).entries) := by
  cases hfind : registry.find? name with
  | none =>
    have hothers : (registry.erase name).entries = registry.entries := by
      refine List.filter_eq_self.2 fun entry hmem ↦ ?_
      have hne := bne_iff_ne.1 (List.lookup_eq_none_iff.1 hfind entry hmem)
      simpa using Ne.symm hne
    rw [hothers]
    exact .refl _
  | some list =>
    obtain ⟨front, back, hentries, -⟩ := List.lookup_eq_some_iff.1 hfind
    rw [Distinct, hentries, List.map_append, List.map_cons] at h
    have hfresh := (List.nodup_middle.1 h)
    rw [← List.map_append, List.nodup_cons] at hfresh
    have hothers : (registry.erase name).entries = front ++ back := by
      have hkept : (front ++ back).filter (fun entry ↦ entry.1 ≠ name) = front ++ back :=
        List.filter_eq_self.2 fun entry hmem ↦ by
          have hne : entry.1 ≠ name := fun heq ↦
            hfresh.1 (List.mem_map.2 ⟨entry, hmem, heq⟩)
          simpa using hne
      rw [List.filter_append] at hkept
      rw [erase, hentries, List.filter_append, List.filter_cons_of_neg (by simp), hkept]
    rw [hothers, hentries]
    exact List.perm_middle

variable {name}

theorem distinct_empty : (empty : Registry S).Distinct := List.nodup_nil

theorem Distinct.erase (h : registry.Distinct) : (registry.erase name).Distinct :=
  List.Nodup.sublist (List.filter_sublist.map Prod.fst) h

theorem Distinct.insert (h : registry.Distinct) (list : S) :
    (registry.insert name list).Distinct := by
  have hperm := (insert_perm registry name list).map Prod.fst
  refine hperm.nodup_iff.2 (List.nodup_cons.2 ⟨fun hmem ↦ ?_, h.erase⟩)
  obtain ⟨entry, hentry, heq⟩ := List.mem_map.1 hmem
  simpa [heq] using (List.mem_filter.1 hentry).2

variable {P : S → Prop}

theorem all_empty : (empty : Registry S).All P := fun _ hmem ↦ (List.not_mem_nil hmem).elim

theorem All.erase (h : registry.All P) : (registry.erase name).All P :=
  fun entry hmem ↦ h entry (List.mem_filter.1 hmem).1

theorem All.insert (h : registry.All P) {list : S} (hlist : P list) :
    (registry.insert name list).All P := by
  intro entry hmem
  rcases List.mem_cons.1 ((insert_perm registry name list).mem_iff.1 hmem) with rfl | hother
  · exact hlist
  · exact h.erase entry hother

theorem All.of_find? (h : registry.All P) {list : S} (hfind : registry.find? name = some list) :
    P list := by
  obtain ⟨front, back, hentries, -⟩ := List.lookup_eq_some_iff.1 hfind
  exact h (name, list) (by simp [hentries])

/-! ## Elements -/

/-- The elements of all lists. -/
def elements (contents : S → List γ) (registry : Registry S) : List γ :=
  registry.entries.flatMap fun entry ↦ contents entry.2

variable [DecidableEq γ] (name)

/-- A name that is given up takes along the elements under it. -/
theorem count_erase (h : registry.Distinct) (contents : S → List γ) (a : γ) :
    (registry.elements contents).count a =
      (registry.elementsUnder contents name).count a +
        ((registry.erase name).elements contents).count a := by
  have hperm := (erase_perm name h).flatMap_right fun entry ↦ contents entry.2
  rw [elements, hperm.count_eq, List.flatMap_append, List.count_append, elementsUnder]
  cases registry.find? name with
  | none => rfl
  | some list => simp [elements]

variable (registry)

/-- A list that is put under a name brings its elements along. -/
theorem count_insert (list : S) (contents : S → List γ) (a : γ) :
    ((registry.insert name list).elements contents).count a =
      (contents list).count a + ((registry.erase name).elements contents).count a := by
  rw [elements, ((insert_perm registry name list).flatMap_right _).count_eq, List.flatMap_cons,
    List.count_append, elements]

end Registry
end ListRuntime
