import ListRuntime.Proofs.UniformList.Allocation

/-!
# Repetition

A list times a number is the list so many times in a row.  The number may be any word, so the product
with the length can exceed a buffer, the bytes of a buffer, or the word itself; it is one and the same
overflow, and all of it is found out before the first element is acquired.

* `run_repetition_of_nothing` is the case without elements, which needs no room and cannot fail.
* `repetition_decided` and `run_repetition` are all others: the verdict on the product, and the run
  if it is met.
* `Derivation.toList_of_makes` is what any list made of a list holds, so that the laws of
  `repeated` become laws of repetition.
* `repetition_laws` puts these together, with appending a list to itself.
-/

set_option autoImplicit false

namespace ListRuntime

/-- Memory runs out if a buffer could have the slots and they are more than there are, but the
allocator refuses. -/
theorem Layout.verdict_eq_outOfMemory_iff {slot : Layout} {mem : Allocator}
    {capacity needed wanted : Nat} :
    slot.verdict mem capacity needed wanted = some .outOfMemory ↔
      needed ≤ slot.maxElements ∧ capacity < needed ∧ mem.grants (wanted * slot.size) = false := by
  rw [verdict]
  split
  · next h => simp [Nat.not_le.2 h]
  · next h => split <;> simp_all

/-- A request is refused in one of two ways. -/
theorem Layout.of_verdict_eq_some {slot : Layout} {mem : Allocator} {capacity needed wanted : Nat}
    {category : Category} (h : slot.verdict mem capacity needed wanted = some category) :
    category = .sizeOverflow ∨ category = .outOfMemory := by
  rw [verdict] at h
  split at h
  · exact Or.inl (Option.some.inj h).symm
  · split at h
    · exact Or.inr (Option.some.inj h).symm
    · cases h

namespace UniformList

open ListRuntime.Action Course

variable {α σ : Type}

/-! ## Elements in a row -/

section
variable (list : UniformList α)

theorem repeated_eq_flatten (rounds : Nat) :
    list.repeated rounds = (List.replicate rounds list.toList).flatten := by
  simp [repeated, List.flatMap]

/-- Some times and then some more are the sum of times. -/
theorem repeated_add (rounds more : Nat) :
    list.repeated (rounds + more) = list.repeated rounds ++ list.repeated more := by
  rw [repeated, List.replicate_add, List.flatMap_append]
  rfl

theorem repeated_two : list.repeated 2 = list.toList ++ list.toList := by
  simp [repeated_eq_flatten]

end

/-! ## Making -/

/-- Some run of the action makes the list. -/
def Makes (making : Action α σ (UniformList α)) (made : UniformList α) : Prop :=
  ∃ mem mishap s, (making.run mem mishap s).ending = .returned made

variable [Element α] {list : UniformList α} {times : Int64} {mem : Allocator}

/-- **A list that is made of a list holds what was selected of it**, whichever run makes it. -/
theorem Derivation.toList_of_makes (derivation : Derivation (List α)) {made : UniformList α}
    (h : Makes (derivation.action list : Action α σ (UniformList α)) made) :
    made.toList = derivation.items list := by
  obtain ⟨mem, mishap, s, hmade⟩ := h
  rw [derivation.action_follows list s] at hmade
  obtain ⟨hresult, -⟩ := of_run_returned hmade
  cases hroom : derivation.room list with
  | ok room => exact ((derivation.makesAtOnce list hroom).of_ok hresult).1
  | error e =>
    rw [derivation.course_of_error list hroom] at hresult
    cases hresult

/-! ## Nothing to repeat -/

theorem run_repetition_of_nothing (h : times ≤ 0 ∨ list.length = 0) (mem : Allocator)
    (mishap : Mishap) (s : σ) :
    (list.repetition times).run mem mishap s = ⟨[], s, .returned (empty list.growth)⟩ := by
  have hnone : times ≤ 0 ∨ list.toList = [] := by
    rwa [← List.length_eq_zero_iff, length_toList]
  rw [list.repetition_follows s times, repetitionCourse, if_pos hnone]
  exact run_of_spares _ fun k _ ↦ Nat.zero_le k

/-- A list without an allocation has no slots. -/
theorem capacity_empty (growth : Growth) : (empty growth : UniformList α).capacity = 0 :=
  Layout.initialCapacity_eq Element.isSlot

/-! ## Room for the product -/

/-- What becomes of the request for the product of length and times, taken without any bound. -/
def repetitionVerdict (mem : Allocator) (list : UniformList α) (times : Int64) : Option Category :=
  let total := list.length * times.toInt.toNat
  (Element.layout α).verdict mem 0 total total

/-- **Repetition is decided by the verdict on the product.** -/
theorem repetition_decided (list : UniformList α) (times : Int64) (mem : Allocator)
    (mishap : Mishap) (s : σ) :
    DecidedBy (list.repetitionVerdict mem times) s (Delivers (list.length * times.toInt.toNat))
      ((list.repetition times).run mem mishap s) := by
  rw [list.repetition_follows s times, repetitionVerdict]
  by_cases hlimit : wordLimit ≤ list.length * times.toInt.toNat
  · have hroom : (Derivation.repetition times).room list = .error .countOverflow := if_pos hlimit
    have hfail : list.repetitionCourse mem times s = .fail s .countOverflow :=
      (Derivation.repetition times).course_of_error list hroom mem s
    rw [hfail, Layout.verdict_of_wordLimit_le Element.isSlot hlimit]
    exact decidedBy_fail s .countOverflow
  · exact (makesAtOnce_repetition list (Nat.not_le.1 hlimit)).decided

/-- If there is room, every element is acquired once in each round. -/
theorem run_repetition (hmax : list.length * times.toInt.toNat ≤ (Element.layout α).maxElements)
    (hgrants : mem.grants (list.length * times.toInt.toNat * (Element.layout α).size) = true)
    (s : σ) :
    (list.repetition times).run mem none s =
      ⟨(list.repeated times.toInt.toNat).map (⟨.acquire, ·⟩), s, .returned
        ⟨⟨(list.repeated times.toInt.toNat).toArray, list.length * times.toInt.toNat⟩,
          list.growth⟩⟩ := by
  have hlimit : list.length * times.toInt.toNat < wordLimit := by
    have hle := Layout.maxElements_le (Element.isSlot (α := α))
    have hword : maxObjectBytes < wordLimit := by decide
    omega
  rw [list.repetition_follows s times]
  exact (makesAtOnce_repetition list hlimit).run_none (newRoom_of_granted list.growth hmax hgrants)

/-- A repetition that fails has done nothing, and its verdict is the category it fails in. -/
theorem of_repetition_failed {mishap : Mishap} {s : σ} {e : ListError}
    (h : ((list.repetition times).run mem mishap s).ending = .failed e) :
    (list.repetition times).run mem mishap s = ⟨[], s, .failed e⟩ ∧
      list.repetitionVerdict mem times = some e.category := by
  have hdecided := repetition_decided list times mem mishap s
  cases hverdict : list.repetitionVerdict mem times with
  | some category =>
    obtain ⟨e', hrun, rfl⟩ := hdecided.of_some hverdict
    rw [hrun] at h ⊢
    cases h
    exact ⟨rfl, rfl⟩
  | none =>
    rw [hverdict] at hdecided
    exact absurd h (hdecided.2 e)

/-- It fails in the category that the verdict says. -/
theorem repetition_failed_iff (mishap : Mishap) (s : σ) (category : Category) :
    (∃ e, ((list.repetition times).run mem mishap s).ending = .failed e ∧ e.category = category) ↔
      list.repetitionVerdict mem times = some category := by
  constructor
  · rintro ⟨e, hfailed, rfl⟩
    exact (of_repetition_failed hfailed).2
  · intro hverdict
    obtain ⟨e, hrun, hcategory⟩ := (repetition_decided list times mem mishap s).of_some hverdict
    exact ⟨e, by rw [hrun], hcategory⟩

/-! ## A list and itself -/

/-- Appending a list to itself acquires its elements once more, and repeats it twice. -/
theorem of_extendSelf_returned {mishap : Mishap}
    (h : (extendSelf.run mem mishap list).ending = .returned ()) :
    (extendSelf.run mem mishap list).calls = list.toList.map (⟨.acquire, ·⟩) ∧
      (extendSelf.run mem mishap list).state.toList = list.repeated 2 := by
  rw [extendSelf_follows list mishap] at h ⊢
  obtain ⟨roomy, hsame, hrun⟩ := of_store_returned h
  rw [extendCourse, hrun, repeated_two]
  exact ⟨rfl, congrArg (· ++ list.toList) hsame⟩

/-- **Repetition and self-extension.**  Nothing is repeated of an empty list or less than once: what
comes of it is an empty list without slots, of the same policy, and nothing fails.  Any other
repetition is an overflow exactly if the product of length and times is more than a buffer can have;
otherwise memory runs out exactly if the allocator refuses that many slots; and either failure comes
before any element is acquired.  Otherwise the list is there so many times in a row, and each round
has acquired each of its elements.  Repetition takes sums of times to concatenations, and a list that
is appended to itself is repeated twice, each element acquired once more. -/
theorem repetition_laws (list : UniformList α) :
    (∀ (times : Int64) (mem : Allocator) (mishap : Mishap) (s : σ),
      let run := (list.repetition times).run mem mishap s
      let slot := Element.layout α
      let total := list.length * times.toInt.toNat
      let row := (List.replicate times.toInt.toNat list.toList).flatten
      (times ≤ 0 ∨ list.length = 0 → ∃ made, run = ⟨[], s, .returned made⟩ ∧
        made.toList = [] ∧ made.capacity = 0 ∧ made.growth = list.growth) ∧
      (0 < times → 0 < list.length →
        ((∃ e, run.ending = .failed e ∧ e.category = .sizeOverflow) ↔
          slot.maxElements < total) ∧
        ((∃ e, run.ending = .failed e ∧ e.category = .outOfMemory) ↔
          total ≤ slot.maxElements ∧ mem.grants (total * slot.size) = false) ∧
        (∀ e, run.ending = .failed e → run = ⟨[], s, .failed e⟩ ∧
          (e.category = .sizeOverflow ∨ e.category = .outOfMemory)) ∧
        (mishap = none → total ≤ slot.maxElements → mem.grants (total * slot.size) = true →
          ∃ made, run = ⟨row.map (⟨.acquire, ·⟩), s, .returned made⟩ ∧ made.toList = row ∧
            made.growth = list.growth))) ∧
    (∀ p q : Int64, 0 ≤ p → 0 ≤ q → FitsWord (p.toInt + q.toInt) →
      ∀ whole first second joined : UniformList α,
        Makes (list.repetition (p + q) : Action α σ (UniformList α)) whole →
        Makes (list.repetition p : Action α σ (UniformList α)) first →
        Makes (list.repetition q : Action α σ (UniformList α)) second →
        Makes (first.concat second.toList : Action α σ (UniformList α)) joined →
        whole.toList = joined.toList) ∧
    ∀ (mem : Allocator) (mishap : Mishap),
      let run := extendSelf.run mem mishap list
      run.ending = .returned () →
        run.calls = list.toList.map (⟨.acquire, ·⟩) ∧
        run.state.toList = list.toList ++ list.toList ∧
        ∀ twice, Makes (list.repetition 2 : Action α σ (UniformList α)) twice →
          run.state.toList = twice.toList := by
  have hrepetition {times : Int64} {made : UniformList α}
      (h : Makes (list.repetition times : Action α σ (UniformList α)) made) :
      made.toList = list.repeated times.toInt.toNat :=
    Derivation.toList_of_makes (.repetition times) h
  refine ⟨fun times mem mishap s ↦ ⟨fun hnothing ↦ ?_, fun htimes hlength ↦ ?_⟩,
    fun p q hp hq hword whole first second joined hwhole hfirst hsecond hjoined ↦ ?_,
    fun mem mishap ↦ ?_⟩
  · exact ⟨_, run_repetition_of_nothing hnothing mem mishap s, rfl, capacity_empty _, rfl⟩
  · have hrounds : 0 < times.toInt.toNat := by
      have hpos := (zero_lt_iff times).1 htimes
      omega
    have htotal := Nat.mul_pos hlength hrounds
    refine ⟨?_, ?_, fun e hfailed ↦ ?_, fun hmishap hmax hgrants ↦ ?_⟩
    · rw [repetition_failed_iff, repetitionVerdict, Layout.verdict_eq_sizeOverflow_iff]
    · rw [repetition_failed_iff, repetitionVerdict, Layout.verdict_eq_outOfMemory_iff,
        and_iff_right htotal]
    · obtain ⟨hrun, hverdict⟩ := of_repetition_failed hfailed
      exact ⟨hrun, Layout.of_verdict_eq_some hverdict⟩
    · subst hmishap
      rw [← repeated_eq_flatten]
      exact ⟨_, run_repetition hmax hgrants s, rfl, rfl⟩
  · have hconcat : joined.toList = first.toList ++ second.toList :=
      Derivation.toList_of_makes (.concat second.toList) hjoined
    have hsum : (p + q).toInt.toNat = p.toInt.toNat + q.toInt.toNat := by
      rw [toInt_add hword, Int.toNat_add ((zero_le_iff p).1 hp) ((zero_le_iff q).1 hq)]
    rw [hconcat, hrepetition hwhole, hrepetition hfirst, hrepetition hsecond, hsum, repeated_add]
  · intro run hreturned
    obtain ⟨hcalls, hstate⟩ := of_extendSelf_returned hreturned
    exact ⟨hcalls, hstate.trans list.repeated_two, fun twice htwice ↦
      hstate.trans (hrepetition htwice).symm⟩

/-- Three words, by an allocator of a thousand bytes.  The greatest number of times takes the product
beyond a word, and a thousand times beyond the allocator; two times and one time can be had. -/
theorem repetition_laws_of_three :
    let list : UniformList Int64 := ⟨⟨#[7, 8, 9], 4⟩, .standard⟩
    let modest : Allocator := ⟨(· ≤ 1000)⟩
    let attempt (times : Int64) : Run Int64 Unit (UniformList Int64) :=
      (list.repetition times).run modest none ()
    let appended : Run Int64 (UniformList Int64) Unit := extendSelf.run modest none list
    (∃ made, attempt (-1) = ⟨[], (), .returned made⟩ ∧ made.toList = [] ∧ made.capacity = 0 ∧
      made.growth = .standard) ∧
    (∃ e, (attempt Int64.maxValue).ending = .failed e ∧ e.category = .sizeOverflow) ∧
    (∃ e, (attempt 1000).ending = .failed e ∧ e.category = .outOfMemory) ∧
    (∃ made, attempt 2 = ⟨[7, 8, 9, 7, 8, 9].map (⟨.acquire, ·⟩), (), .returned made⟩ ∧
      made.toList = [7, 8, 9, 7, 8, 9] ∧ made.growth = .standard) ∧
    (∃ whole first second joined : UniformList Int64,
      Makes (list.repetition 3 : Action Int64 Unit _) whole ∧
      Makes (list.repetition 1 : Action Int64 Unit _) first ∧
      Makes (list.repetition 2 : Action Int64 Unit _) second ∧
      Makes (first.concat second.toList : Action Int64 Unit _) joined ∧
      whole.toList = joined.toList) ∧
    appended.calls = [7, 8, 9].map (⟨.acquire, ·⟩) ∧
      appended.state.toList = [7, 8, 9] ++ [7, 8, 9] := by
  -- the lists are written out, for their runs to be evaluated
  have hthree : Makes (UniformList.repetition ⟨⟨#[7, 8, 9], 4⟩, .standard⟩ 3 : Action Int64 Unit _)
      ⟨⟨#[7, 8, 9, 7, 8, 9, 7, 8, 9], 9⟩, .standard⟩ := ⟨.boundless, none, (), rfl⟩
  have hone : Makes (UniformList.repetition ⟨⟨#[7, 8, 9], 4⟩, .standard⟩ 1 : Action Int64 Unit _)
      ⟨⟨#[7, 8, 9], 3⟩, .standard⟩ := ⟨.boundless, none, (), rfl⟩
  have htwo : Makes (UniformList.repetition ⟨⟨#[7, 8, 9], 4⟩, .standard⟩ 2 : Action Int64 Unit _)
      ⟨⟨#[7, 8, 9, 7, 8, 9], 6⟩, .standard⟩ := ⟨.boundless, none, (), rfl⟩
  have hjoined : Makes (UniformList.concat ⟨⟨#[7, 8, 9], 3⟩, .standard⟩ [7, 8, 9, 7, 8, 9] :
      Action Int64 Unit _) ⟨⟨#[7, 8, 9, 7, 8, 9, 7, 8, 9], 9⟩, .standard⟩ :=
    ⟨.boundless, none, (), rfl⟩
  intro list modest attempt appended
  obtain ⟨hruns, hsum, hself⟩ := repetition_laws (σ := Unit) list
  have hnothing := (hruns (-1) modest none ()).1 (Or.inl (by decide))
  have hoverflow := (hruns Int64.maxValue modest none ()).2 (by decide) (by decide)
  have hrefused := (hruns 1000 modest none ()).2 (by decide) (by decide)
  have hmade := (hruns 2 modest none ()).2 (by decide) (by decide)
  have hjoin := hsum 1 2 (by decide) (by decide) ⟨by decide, by decide⟩ _ _ _ _ hthree hone htwo
    hjoined
  obtain ⟨hcalls, hstate, -⟩ := hself modest none rfl
  exact ⟨hnothing, hoverflow.1.2 (by decide +kernel), hrefused.2.1.2 (by decide +kernel),
    hmade.2.2.2 rfl (by decide +kernel) (by decide +kernel),
    ⟨_, _, _, _, hthree, hone, htwo, hjoined, hjoin⟩, hcalls, hstate⟩

end UniformList
end ListRuntime
