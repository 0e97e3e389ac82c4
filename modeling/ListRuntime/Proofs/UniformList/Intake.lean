import ListRuntime.Proofs.UniformList.Filling

/-!
# Taking in what an iterator yields

An iterator announces how many elements are to come, and need not keep to it.  Room is made for as
many as it announces, and again for each element that there is no room for; any of this may fail,
and so may the iterator.  Whatever it is that fails first, the elements taken in before it leave the
list again.

* `Kept` is what a failure leaves of a list, `Appended` what a success makes of it.
* `Reserves` and `Refuses` are the two things that can come of making room.
* `TakesIn` says of some elements that there is room for each of them when its turn comes, `Stops`
  that there is none for the next one, or no next one but a failure.
* `Completes` and `FirstFailure` put these together to the two ways in which an intake can go.  The
  course of either is known (`Completes.course_eq`, `FirstFailure.course_eq`), and
  `tryExtend_effect` says what the intake comes to.
* `FirstFailure.mem_yielded`: where there is memory for all that may come, only the iterator fails.
* `run_none_tryExtend`: elements appended one by one make the same run as elements appended at
  once, if the iterator tells the truth.
-/

set_option autoImplicit false

namespace ListRuntime
namespace UniformList

open ListRuntime.Action Course

variable {α : Type} {mem : Allocator} {hint additional : Nat}
variable {list roomy reached after : UniformList α} {items taken : List α} {e : ListError}
variable {yielded rest : List (Except ListError α)}

/-! ## What is left of a list -/

/-- What an operation that fails leaves of a list. -/
structure Kept (before after : UniformList α) : Prop where
  /-- The same elements in the same order. -/
  toList_eq : after.toList = before.toList
  /-- The same policy. -/
  growth_eq : after.growth = before.growth
  /-- No room is given up. -/
  capacity_le : before.capacity ≤ after.capacity

theorem Kept.refl (list : UniformList α) : Kept list list := ⟨rfl, rfl, Nat.le_refl _⟩

/-- What elements were appended, up to here. -/
structure Appended (before after : UniformList α) (taken : List α) : Prop where
  /-- They stand behind the others. -/
  toList_eq : after.toList = before.toList ++ taken
  /-- The policy is the same. -/
  growth_eq : after.growth = before.growth
  /-- No room is given up. -/
  capacity_le : before.capacity ≤ after.capacity

theorem Appended.refl (list : UniformList α) : Appended list list [] :=
  ⟨(List.append_nil _).symm, rfl, Nat.le_refl _⟩

variable [Element α]

theorem Appended.of_roomier {required : Nat} (hroom : Roomier list roomy required)
    (h : Appended roomy after taken) : Appended list after taken where
  toList_eq := by rw [h.toList_eq, hroom.toList_eq]
  growth_eq := by rw [h.growth_eq, hroom.growth_eq]
  capacity_le := Nat.le_trans hroom.capacity_le h.capacity_le

/-! ## Room, element by element -/

/-- Making room for so many elements more succeeds, and leaves `roomy`. -/
def Reserves (mem : Allocator) (additional : Nat) (list roomy : UniformList α) : Prop :=
  (reserve additional).run mem none list = ⟨[], roomy, .returned ()⟩

/-- Making room for so many elements more fails. -/
def Refuses (mem : Allocator) (additional : Nat) (list : UniformList α) (e : ListError) : Prop :=
  (reserve additional).run mem none list = ⟨[], list, .failed e⟩

theorem reserves_iff :
    Reserves mem additional list roomy ↔ list.roomForMore mem additional = .ok roomy := by
  rw [Reserves, reserve_follows mem list additional none]
  cases list.roomForMore mem additional with
  | ok room =>
    constructor
    · rintro ⟨⟩
      rfl
    · rintro ⟨⟩
      rfl
  | error e =>
    constructor
    · rintro ⟨⟩
    · rintro ⟨⟩

theorem refuses_iff :
    Refuses mem additional list e ↔ list.roomForMore mem additional = .error e := by
  rw [Refuses, reserve_follows mem list additional none]
  cases list.roomForMore mem additional with
  | ok room =>
    constructor
    · intro h
      cases congrArg Run.ending h
    · rintro ⟨⟩
  | error e' =>
    constructor
    · rintro ⟨⟩
      rfl
    · rintro ⟨⟩
      rfl

/-- Room is made for each of the elements in turn, and each is put behind the others. -/
inductive TakesIn (mem : Allocator) : UniformList α → List α → UniformList α → Prop
  | nil (list : UniformList α) : TakesIn mem list [] list
  | cons {list roomy reached : UniformList α} {a : α} {items : List α}
      (hroom : Reserves mem 1 list roomy)
      (hrest : TakesIn mem (roomy.holding (roomy.toList ++ [a])) items reached) :
      TakesIn mem list (a :: items) reached

/-- What comes next cannot be taken in: the iterator fails, or there is no room for the element. -/
inductive Stops (mem : Allocator) (list : UniformList α) :
    List (Except ListError α) → ListError → Prop
  | item (e : ListError) (rest : List (Except ListError α)) : Stops mem list (.error e :: rest) e
  | growth {a : α} {rest : List (Except ListError α)} {e : ListError} (h : Refuses mem 1 list e) :
      Stops mem list (.ok a :: rest) e

/-- All that the iterator yields is taken in, after room was made for what it announces. -/
structure Completes (mem : Allocator) (list : UniformList α) (hint : Nat)
    (yielded : List (Except ListError α)) (items : List α) (after : UniformList α) : Prop where
  /-- The iterator yields these elements, and no failure. -/
  yielded_eq : yielded = items.map .ok
  /-- The room that it announces can be had, and then the room for each element. -/
  takesIn : ∃ roomy, Reserves mem hint list roomy ∧ TakesIn mem roomy items after

/-- The first thing that goes wrong, and the elements that were taken in before it. -/
inductive FirstFailure (mem : Allocator) (list : UniformList α) (hint : Nat)
    (yielded : List (Except ListError α)) : List α → ListError → Prop
  | announced {e : ListError} (h : Refuses mem hint list e) :
      FirstFailure mem list hint yielded [] e
  | onTheWay {roomy reached : UniformList α} {taken : List α} {rest : List (Except ListError α)}
      {e : ListError} (hroom : Reserves mem hint list roomy)
      (htaken : TakesIn mem roomy taken reached)
      (hyielded : yielded = taken.map .ok ++ rest) (hstops : Stops mem reached rest e) :
      FirstFailure mem list hint yielded taken e

/-! ## One way or the other -/

/-- Either everything is taken in, or there is something to stop at. -/
theorem takesIn_or_stops (mem : Allocator) (yielded : List (Except ListError α))
    (list : UniformList α) :
    ∃ taken reached rest, TakesIn mem list taken reached ∧ yielded = taken.map .ok ++ rest ∧
      (rest = [] ∨ ∃ e, Stops mem reached rest e) := by
  induction yielded generalizing list with
  | nil => exact ⟨[], list, [], .nil list, rfl, Or.inl rfl⟩
  | cons item yielded ih =>
    cases item with
    | error e => exact ⟨[], list, _, .nil list, rfl, Or.inr ⟨e, .item e yielded⟩⟩
    | ok a =>
      cases hroom : list.roomForMore mem 1 with
      | error e => exact ⟨[], list, _, .nil list, rfl, Or.inr ⟨e, .growth (refuses_iff.2 hroom)⟩⟩
      | ok roomy =>
        obtain ⟨taken, reached, rest, htaken, hyielded, hend⟩ :=
          ih (roomy.holding (roomy.toList ++ [a]))
        refine ⟨a :: taken, reached, rest, .cons (reserves_iff.2 hroom) htaken, ?_, hend⟩
        rw [hyielded, List.map_cons, List.cons_append]

theorem completes_or_firstFailure (mem : Allocator) (list : UniformList α) (hint : Nat)
    (yielded : List (Except ListError α)) :
    (∃ items after, Completes mem list hint yielded items after) ∨
      ∃ taken e, FirstFailure mem list hint yielded taken e := by
  cases hroom : list.roomForMore mem hint with
  | error e => exact Or.inr ⟨[], e, .announced (refuses_iff.2 hroom)⟩
  | ok roomy =>
    have hreserves := reserves_iff.2 hroom
    obtain ⟨taken, reached, rest, htaken, hyielded, rfl | ⟨e, hstops⟩⟩ :=
      takesIn_or_stops mem yielded roomy
    · exact Or.inl ⟨taken, reached, hyielded.trans (List.append_nil _), roomy, hreserves, htaken⟩
    · exact Or.inr ⟨taken, e, .onTheWay hreserves htaken hyielded hstops⟩

/-! ## What it comes to -/

theorem TakesIn.appended (h : TakesIn mem list taken reached) : Appended list reached taken := by
  induction h with
  | nil list => exact .refl list
  | @cons list roomy reached a items hroom hrest ih =>
    have hfirst : Appended roomy reached (a :: items) := by
      refine ⟨?_, ih.growth_eq, ih.capacity_le⟩
      rw [ih.toList_eq, toList_holding, List.append_assoc, List.singleton_append]
    exact hfirst.of_roomier (roomier_of_roomForMore (reserves_iff.1 hroom))

/-- Elements that there are slots for are taken in without more room. -/
theorem takesIn_of_le (mem : Allocator) (hlimit : list.length + items.length < wordLimit)
    (hroom : list.length + items.length ≤ list.capacity) :
    TakesIn mem list items (list.holding (list.toList ++ items)) := by
  induction items generalizing list with
  | nil =>
    rw [List.append_nil, holding_toList]
    exact .nil list
  | cons a items ih =>
    rw [List.length_cons] at hlimit hroom
    let stored := list.holding (list.toList ++ [a])
    have hlength : stored.length = list.length + 1 := by
      rw [length_holding, List.length_append, length_toList, List.length_singleton]
    have hfirst : Reserves mem 1 list list := by
      rw [reserves_iff, roomForMore, if_neg (by omega), roomFor_of_le (by omega)]
    have hrest : TakesIn mem stored items (stored.holding (stored.toList ++ items)) :=
      ih (by omega) (by rw [hlength, capacity_holding]; omega)
    rw [toList_holding, List.append_assoc] at hrest
    exact .cons hfirst hrest

/-- The loop acquires what it takes in, and goes on from where that leads to. -/
theorem TakesIn.forEach_eq (h : TakesIn mem list taken reached)
    (rest : List (Except ListError α)) :
    ∃ stages, stages.map Stage.call = taken.map (⟨.acquire, ·⟩) ∧
      Course.forEach (yieldCourse mem) (taken.map .ok ++ rest) list =
        (Course.forEach (yieldCourse mem) rest reached).after stages := by
  induction h with
  | nil list => exact ⟨[], rfl, rfl⟩
  | @cons list roomy reached a items hroom hrest ih =>
    obtain ⟨stages, hcalls, hforEach⟩ := ih
    have hfirst : yieldCourse mem (.ok a) list =
        ⟨Stage.row .acquire [a] roomy, roomy.holding (roomy.toList ++ [a]), .ok ()⟩ := by
      rw [yieldCourse, extendCourse, storeCourse, List.length_singleton, reserves_iff.1 hroom]
      rfl
    refine ⟨Stage.row .acquire [a] roomy ++ stages, ?_, ?_⟩
    · rw [List.map_append, map_call_row, hcalls]
      rfl
    · rw [List.map_cons, List.cons_append, Course.forEach, hfirst, Course.bind]
      dsimp only
      rw [hforEach]
      simp only [Course.after, List.append_assoc]

/-- Where it stops, the loop fails. -/
theorem Stops.forEach_eq (h : Stops mem list rest e) :
    Course.forEach (yieldCourse mem) rest list = .fail list e := by
  cases h with
  | item e rest => rfl
  | growth h =>
    rw [Course.forEach, yieldCourse, extendCourse, storeCourse, List.length_singleton,
      refuses_iff.1 h]
    rfl

/-- With the room that is announced, an iterator goes through the loop. -/
theorem TakesIn.appendYielded_eq (hroom : Reserves mem hint list roomy)
    (h : TakesIn mem roomy taken reached) (rest : List (Except ListError α)) :
    ∃ stages, stages.map Stage.call = taken.map (⟨.acquire, ·⟩) ∧
      appendYieldedCourse mem hint (taken.map .ok ++ rest) list =
        (Course.forEach (yieldCourse mem) rest reached).after stages := by
  obtain ⟨stages, hcalls, hforEach⟩ := h.forEach_eq rest
  refine ⟨stages, hcalls, ?_⟩
  rw [appendYieldedCourse, reserves_iff.1 hroom]
  exact hforEach

/-- If appending fails, what it has reached is cut off where it began. -/
theorem tryExtendCourse_of_error
    (h : (appendYieldedCourse mem hint yielded list).result = .error e) :
    tryExtendCourse mem hint yielded list =
      ((shrinkCourse list.length (appendYieldedCourse mem hint yielded list).state).bind
        fun _ rest ↦ .fail rest e).after (appendYieldedCourse mem hint yielded list).stages := by
  rw [tryExtendCourse, Course.handle, h]

/-- Where not even the room that is announced can be had, nothing is appended. -/
theorem tryExtendCourse_of_refused (yielded : List (Except ListError α))
    (h : list.roomForMore mem hint = .error e) :
    tryExtendCourse mem hint yielded list = .fail list e := by
  have happend : appendYieldedCourse mem hint yielded list = .fail list e := by
    rw [appendYieldedCourse, h]
    rfl
  rw [tryExtendCourse_of_error (by rw [happend]; rfl), happend]
  dsimp only [Course.fail]
  rw [shrinkCourse_of_le (Nat.le_refl _)]
  rfl

/-- All that is yielded is acquired, and nothing is done after that. -/
theorem Completes.course_eq (h : Completes mem list hint yielded items after) :
    ∃ stages, stages.map Stage.call = items.map (⟨.acquire, ·⟩) ∧
      tryExtendCourse mem hint yielded list = (Course.done after ()).after stages := by
  obtain ⟨hyielded, roomy, hroom, htaken⟩ := h
  obtain ⟨stages, hcalls, happend⟩ := htaken.appendYielded_eq hroom []
  rw [List.append_nil, ← hyielded] at happend
  refine ⟨stages, hcalls, ?_⟩
  rw [tryExtendCourse_of_ok (by rw [happend]; rfl), happend]
  rfl

theorem Completes.toList_eq (h : Completes mem list hint yielded items after) :
    after.toList = list.toList ++ items := by
  obtain ⟨-, roomy, hroom, htaken⟩ := h
  exact (htaken.appended.of_roomier (roomier_of_roomForMore (reserves_iff.1 hroom))).toList_eq

/-- What is taken in of an iterator that does not fail is all that it has. -/
theorem Completes.eq_of_map_ok (h : Completes mem list hint (items.map .ok) taken after) :
    taken = items :=
  (List.map_injective_iff.2 (fun _ _ ↦ Except.ok.inj) h.yielded_eq).symm

/-- What was taken in before the failure leaves the list, and is released. -/
theorem FirstFailure.course_eq (h : FirstFailure mem list hint yielded taken e) :
    ∃ stages after, stages.map Stage.call =
        taken.map (⟨.acquire, ·⟩) ++ taken.map (⟨.release, ·⟩) ∧ Kept list after ∧
      tryExtendCourse mem hint yielded list = (Course.fail after e).after stages := by
  cases h with
  | announced h =>
    exact ⟨[], list, rfl, .refl list, tryExtendCourse_of_refused yielded (refuses_iff.1 h)⟩
  | @onTheWay roomy reached taken rest e hroom htaken hyielded hstops =>
    obtain ⟨stages, hcalls, happend⟩ := htaken.appendYielded_eq hroom rest
    rw [hstops.forEach_eq, ← hyielded] at happend
    have happended := htaken.appended.of_roomier (roomier_of_roomForMore (reserves_iff.1 hroom))
    have hkept : reached.toList.take list.length = list.toList := by
      rw [happended.toList_eq, ← length_toList, List.take_left]
    have hcut : reached.toList.drop list.length = taken := by
      rw [happended.toList_eq, ← length_toList, List.drop_left]
    let after := reached.holding list.toList
    refine ⟨stages ++ Stage.row .release taken after, after, ?_,
      ⟨rfl, happended.growth_eq, happended.capacity_le⟩, ?_⟩
    · rw [List.map_append, hcalls, map_call_row]
    · rw [tryExtendCourse_of_error (by rw [happend]; rfl), happend]
      simp [Course.after, Course.fail, Course.bind, shrinkCourse, hkept, hcut, after]

/-- An intake goes one way only. -/
theorem FirstFailure.not_completes (h : FirstFailure mem list hint yielded taken e) :
    ¬ Completes mem list hint yielded items after := by
  intro hcompletes
  obtain ⟨stages, -, hcourse⟩ := hcompletes.course_eq
  obtain ⟨stages', after', -, -, hcourse'⟩ := h.course_eq
  cases congrArg Course.result (hcourse.symm.trans hcourse')

/-- What was appended before a failure is cut off again. -/
theorem kept_of_tryExtend (h : (tryExtendCourse mem hint yielded list).result = .error e) :
    Kept list (tryExtendCourse mem hint yielded list).state := by
  rcases completes_or_firstFailure mem list hint yielded with
    ⟨items, after, hcompletes⟩ | ⟨taken, e', hfailure⟩
  · obtain ⟨stages, -, hcourse⟩ := hcompletes.course_eq
    rw [hcourse] at h
    cases h
  · obtain ⟨stages, after, -, hkept, hcourse⟩ := hfailure.course_eq
    rw [hcourse]
    exact hkept

theorem Completes.run_eq (h : Completes mem list hint yielded items after) :
    (tryExtend hint yielded).run mem none list =
      ⟨items.map (⟨.acquire, ·⟩), after, .returned ()⟩ := by
  obtain ⟨stages, hcalls, hcourse⟩ := h.course_eq
  rw [tryExtend_follows list hint yielded none, hcourse, run_none_after, hcalls]
  simp [Course.run, Course.calls, Course.done, Course.ending, Run.following]

theorem FirstFailure.run_eq (h : FirstFailure mem list hint yielded taken e) :
    ∃ after, Kept list after ∧ (tryExtend hint yielded).run mem none list =
      ⟨taken.map (⟨.acquire, ·⟩) ++ taken.map (⟨.release, ·⟩), after, .failed e⟩ := by
  obtain ⟨stages, after, hcalls, hkept, hcourse⟩ := h.course_eq
  refine ⟨after, hkept, ?_⟩
  rw [tryExtend_follows list hint yielded none, hcourse, run_none_after, hcalls]
  simp [Course.run, Course.calls, Course.fail, Course.ending, Run.following]

/-- An iterator that fails at once is given the room that it announces, and no more happens. -/
theorem tryExtendCourse_of_first_error (hint : Nat) (e : ListError)
    (yielded : List (Except ListError α)) :
    tryExtendCourse mem hint (.error e :: yielded) list =
      afterRoom list (list.roomForMore mem hint) (.fail · e) := by
  cases hroom : list.roomForMore mem hint with
  | error e' => rw [tryExtendCourse_of_refused _ hroom, afterRoom]
  | ok roomy =>
    have hlength := length_eq_of_toList_eq (roomier_of_roomForMore hroom).toList_eq
    have happend : appendYieldedCourse mem hint (.error e :: yielded) list = .fail roomy e := by
      rw [appendYieldedCourse, hroom]
      rfl
    rw [tryExtendCourse_of_error (by rw [happend]; rfl), happend, afterRoom]
    dsimp only [Course.fail]
    rw [shrinkCourse_of_le (Nat.le_of_eq hlength)]
    rfl

/-! ## Where there is memory -/

theorem TakesIn.fits (h : TakesIn mem list taken reached) (hfits : list.Fits) : reached.Fits := by
  induction h with
  | nil list => exact hfits
  | @cons list roomy reached a items hroom hrest ih =>
    have hroomier := roomier_of_roomForMore (reserves_iff.1 hroom)
    refine ih (hfits.holding_roomier hroomier (Nat.le_of_eq ?_))
    rw [List.length_append, hroomier.toList_eq, length_toList, List.length_singleton]

/-- Where there is memory for what an iterator announces and for all that it may yield, nothing but
the iterator itself fails. -/
theorem FirstFailure.mem_yielded (h : FirstFailure mem list hint yielded taken e)
    (hfits : list.Fits) (hhint : mem.Affords α (list.length + hint))
    (hmem : mem.Affords α (list.length + yielded.length)) : .error e ∈ yielded := by
  cases h with
  | announced hrefused =>
    obtain ⟨roomy, hroom⟩ := hfits.roomForMore_of_affords hhint
    cases (refuses_iff.1 hrefused).symm.trans hroom
  | @onTheWay roomy reached taken rest e hroom htaken hyielded hstops =>
    have hroomier := roomier_of_roomForMore (reserves_iff.1 hroom)
    cases hstops with
    | item e rest =>
      rw [hyielded]
      exact List.mem_append_right _ List.mem_cons_self
    | growth hrefused =>
      -- the element that there is no room for is one of those that there is memory for
      have hlength : reached.length + 1 ≤ list.length + yielded.length := by
        rw [← reached.length_toList, (htaken.appended.of_roomier hroomier).toList_eq, hyielded]
        simp only [List.length_append, List.length_map, List.length_cons, length_toList]
        omega
      obtain ⟨roomy', hroom'⟩ :=
        (htaken.fits (hfits.roomier hroomier)).roomForMore_of_affords (hmem.mono hlength)
      cases (refuses_iff.1 hrefused).symm.trans hroom'

/-- An iterator that does not fail is then taken in. -/
theorem completes_of_affords (hfits : list.Fits) (hhint : mem.Affords α (list.length + hint))
    (hmem : mem.Affords α (list.length + items.length)) :
    ∃ after, Completes mem list hint (items.map .ok) items after := by
  rcases completes_or_firstFailure mem list hint (items.map .ok) with
    ⟨taken, after, hcompletes⟩ | ⟨taken, e, hfailure⟩
  · obtain rfl := hcompletes.eq_of_map_ok
    exact ⟨after, hcompletes⟩
  · have hfailed := hfailure.mem_yielded hfits hhint (by rwa [List.length_map])
    simp at hfailed

/-! ## One by one or at once -/

/-- **Elements that are appended one by one make the same run as elements that are appended at
once**, as long as their number is announced.  If there is no room for all of them, there is none
for the first. -/
theorem run_none_tryExtend (mem : Allocator) (items : List α) (list : UniformList α) :
    (tryExtendCourse mem items.length (items.map .ok) list).run none =
      (extendCourse mem items list).run none := by
  rw [extendCourse, storeCourse]
  cases hroom : list.roomForMore mem items.length with
  | error e => rw [tryExtendCourse_of_refused _ hroom, afterRoom]
  | ok roomy =>
    have hroomier := roomier_of_roomForMore hroom
    have hlength := length_eq_of_toList_eq hroomier.toList_eq
    have hlimit := lt_wordLimit_of_roomForMore hroom
    have hcompletes : Completes mem list items.length (items.map .ok) items
        (roomy.holding (roomy.toList ++ items)) :=
      ⟨rfl, roomy, reserves_iff.2 hroom,
        takesIn_of_le mem (hlength ▸ hlimit) (hlength ▸ hroomier.required_le)⟩
    rw [← tryExtend_follows list _ _ none, hcompletes.run_eq, afterRoom, Course.run, Course.calls,
      map_call_row]
    rfl

/-! ## The whole of it -/

/-- **All or nothing of what an iterator yields**, whatever it announces.  The elements are taken in
if room can be had for as many as are announced and then for each that comes, and if the iterator
does not fail: then they stand behind the former ones in their order, each acquired once.  Otherwise
the first thing that goes wrong is what comes of it; the list has the elements that it had, and
those that were taken in up to then have been acquired, in order, and after that released, in order.
With the exact number announced, an iterator that does not fail comes to just what appending all
elements at once does, down to the capacity. -/
theorem tryExtend_effect (mem : Allocator) (list : UniformList α) (hint : Nat)
    (yielded : List (Except ListError α)) :
    ((∃ calls after, (tryExtend hint yielded).run mem none list = ⟨calls, after, .returned ()⟩) ↔
      ∃ items after, Completes mem list hint yielded items after) ∧
    (∀ items after, Completes mem list hint yielded items after →
      (tryExtend hint yielded).run mem none list =
        ⟨items.map (⟨.acquire, ·⟩), after, .returned ()⟩ ∧
      after.toList = list.toList ++ items) ∧
    ((∃ items after, Completes mem list hint yielded items after) ∨
      ∃ taken e, FirstFailure mem list hint yielded taken e) ∧
    (∀ taken e, FirstFailure mem list hint yielded taken e → ∃ after, Kept list after ∧
      (tryExtend hint yielded).run mem none list =
        ⟨taken.map (⟨.acquire, ·⟩) ++ taken.map (⟨.release, ·⟩), after, .failed e⟩) ∧
    ∀ items : List α, (extend items.length items).run mem none list =
      (extendFromList items).run mem none list := by
  have hway := completes_or_firstFailure mem list hint yielded
  refine ⟨⟨fun ⟨calls, after, hrun⟩ ↦ ?_, fun ⟨items, after, hcompletes⟩ ↦ ?_⟩,
    fun _ _ hcompletes ↦ ⟨hcompletes.run_eq, hcompletes.toList_eq⟩, hway,
    fun _ _ hfailure ↦ hfailure.run_eq, fun items ↦ ?_⟩
  · refine hway.resolve_right fun ⟨taken, e, hfailure⟩ ↦ ?_
    obtain ⟨after', -, hfailed⟩ := hfailure.run_eq
    cases congrArg Run.ending (hrun.symm.trans hfailed)
  · exact ⟨_, after, hcompletes.run_eq⟩
  · rw [extend, tryExtend_follows list _ _ none, extendFromList_follows list items none,
      run_none_tryExtend]

/-- There is one slot left, and no memory: the first of two elements is taken in, and leaves the
list again when there is no room for the second. -/
theorem tryExtend_effect_one_slot :
    let list : UniformList Int64 := ⟨⟨#[1, 2], 3⟩, .standard⟩
    let stingy : Allocator := ⟨fun _ ↦ false⟩
    (tryExtend 0 [.ok 3]).run stingy none list =
      ⟨[⟨.acquire, 3⟩], list.holding [1, 2, 3], .returned ()⟩ ∧
    ∃ after, Kept list after ∧ (tryExtend 0 [.ok 3, .ok 4]).run stingy none list =
      ⟨[⟨.acquire, 3⟩, ⟨.release, 3⟩], after, .failed (.allocation (.outOfMemory 48))⟩ := by
  intro list stingy
  have hannounced : Reserves stingy 0 list list := reserves_iff.2 rfl
  have hfirst : Reserves stingy 1 list list := reserves_iff.2 rfl
  have htaken : TakesIn stingy list [3] (list.holding [1, 2, 3]) := .cons hfirst (.nil _)
  have hsecond : Refuses stingy 1 (list.holding [1, 2, 3]) (.allocation (.outOfMemory 48)) :=
    refuses_iff.2 rfl
  obtain ⟨-, hcompletes, -⟩ := tryExtend_effect stingy list 0 [.ok 3]
  obtain ⟨-, -, -, hfails, -⟩ := tryExtend_effect stingy list 0 [.ok 3, .ok 4]
  exact ⟨(hcompletes [3] _ ⟨rfl, list, hannounced, htaken⟩).1,
    hfails [3] _ (.onTheWay hannounced htaken rfl (.growth hsecond))⟩

end UniformList
end ListRuntime
