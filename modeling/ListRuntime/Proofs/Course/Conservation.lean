import ListRuntime.Proofs.Course.Basic
import Mathlib.Data.List.Count

/-!
# Conservation along a course

A list owes one release for every element it holds.  This file keeps the books of a course: what
was owned before, plus the acquires and less the releases so far, is what has to be there now.

* `HookCall.balance` of rows of calls is a count of elements.
* `Stage.Covered` says that at no stage more is left than is paid for, whichever call unwinds, and
  `Course.Conserves` that at the end nothing is missing either.
* `Course.Keeps` says that a property of states holds wherever the course may end.

Both are put together like the courses themselves, by one rule for each combinator.
-/

set_option autoImplicit false

namespace ListRuntime

namespace HookCall

variable {α γ : Type}

theorem map_injective {f : α → γ} (hf : Function.Injective f) :
    Function.Injective (HookCall.map f) := by
  intro one two h
  obtain ⟨hhook, helement⟩ := mk.inj h
  cases one
  cases two
  exact congrArg₂ mk hhook (hf helement)

theorem map_id : HookCall.map (id : α → α) = id := rfl

/-! ## Counts of images -/

/-- Outside, the images of what is counted inside are counted, beside the rest. -/
structure Spread (f : α → γ) (rest : γ → Int) (inside : α → Int) (outside : γ → Int) : Prop where
  /-- An image counts what it is the image of. -/
  image : ∀ a, outside (f a) = inside a + rest (f a)
  /-- What is no image belongs to the rest. -/
  other : ∀ c, (∀ a, f a ≠ c) → outside c = rest c

section
variable {f : α → γ} {rest : γ → Int} {inside inside' : α → Int} {outside outside' : γ → Int}

theorem spread_id {rest inside outside : α → Int} (h : ∀ a, outside a = inside a + rest a) :
    Spread id rest inside outside :=
  ⟨h, fun c hc ↦ absurd rfl (hc c)⟩

theorem Spread.eq (h : Spread f rest inside outside) (h' : Spread f rest inside outside') :
    outside = outside' := by
  funext c
  by_cases hc : ∃ a, f a = c
  · obtain ⟨a, rfl⟩ := hc
    rw [h.image, h'.image]
  · rw [h.other c fun a ha ↦ hc ⟨a, ha⟩, h'.other c fun a ha ↦ hc ⟨a, ha⟩]

theorem Spread.le (h : Spread f rest inside outside) (h' : Spread f rest inside' outside')
    (hle : ∀ a, inside a ≤ inside' a) (c : γ) : outside c ≤ outside' c := by
  by_cases hc : ∃ a, f a = c
  · obtain ⟨a, rfl⟩ := hc
    rw [h.image, h'.image]
    exact Int.add_le_add_right (hle a) _
  · have heq : outside c = outside' c := by
      rw [h.other c fun a ha ↦ hc ⟨a, ha⟩, h'.other c fun a ha ↦ hc ⟨a, ha⟩]
    exact Int.le_of_eq heq

theorem Spread.add {more : α → Int} {more' : γ → Int} (h : Spread f rest inside outside)
    (hmore : Spread f (fun _ ↦ 0) more more') :
    Spread f rest (fun a ↦ inside a + more a) fun c ↦ outside c + more' c where
  image a := by
    rw [h.image, hmore.image]
    omega
  other c hc := by
    rw [h.other c hc, hmore.other c hc, Int.add_zero]

end

/-! ## Balances -/

section
variable [DecidableEq α]

@[simp] theorem balance_nil (a : α) : balance [] a = 0 := rfl

@[simp] theorem balance_append (log more : List (HookCall α)) (a : α) :
    balance (log ++ more) a = balance log a + balance more a := by
  simp only [balance, List.count_append]
  omega

/-- Acquires of elements count for them. -/
@[simp] theorem balance_acquires (items : List α) (a : α) :
    balance (items.map (⟨.acquire, ·⟩)) a = items.count a := by
  have hacquire : (items.map (HookCall.mk .acquire)).count ⟨.acquire, a⟩ = items.count a :=
    List.count_map_of_injective items _ (fun _ _ h ↦ (mk.inj h).2) a
  have hrelease : (items.map (HookCall.mk .acquire)).count ⟨.release, a⟩ = 0 :=
    List.count_eq_zero.2 (by simp)
  simp [balance, hacquire, hrelease]

/-- Releases of elements count against them. -/
@[simp] theorem balance_releases (items : List α) (a : α) :
    balance (items.map (⟨.release, ·⟩)) a = -(items.count a : Int) := by
  have hacquire : (items.map (HookCall.mk .release)).count ⟨.acquire, a⟩ = 0 :=
    List.count_eq_zero.2 (by simp)
  have hrelease : (items.map (HookCall.mk .release)).count ⟨.release, a⟩ = items.count a :=
    List.count_map_of_injective items _ (fun _ _ h ↦ (mk.inj h).2) a
  simp [balance, hacquire, hrelease]

end

variable [DecidableEq γ]

/-- The balance of an element is that of its image. -/
theorem balance_map [DecidableEq α] {f : α → γ} (hf : Function.Injective f)
    (log : List (HookCall α)) (a : α) :
    balance (log.map (map f)) (f a) = balance log a := by
  have hcount (hook : Hook) : (log.map (map f)).count ⟨hook, f a⟩ = log.count ⟨hook, a⟩ :=
    List.count_map_of_injective log _ (map_injective hf) ⟨hook, a⟩
  simp only [balance, hcount]

/-- What is the image of no element has no balance. -/
theorem balance_map_of_not_mem {f : α → γ} {c : γ} (hc : ∀ a, f a ≠ c) (log : List (HookCall α)) :
    balance (log.map (map f)) c = 0 := by
  have hcount (hook : Hook) : (log.map (map f)).count ⟨hook, c⟩ = 0 := by
    refine List.count_eq_zero.2 fun hmem ↦ ?_
    obtain ⟨call, -, hcall⟩ := List.mem_map.1 hmem
    exact hc call.element (mk.inj hcall).2
  simp only [balance, hcount]
  rfl

section
variable [DecidableEq α] {f : α → γ} (hf : Function.Injective f)
include hf

theorem spread_balance (log : List (HookCall α)) :
    Spread f (fun _ ↦ 0) (balance log) (balance (log.map (map f))) where
  image a := by rw [balance_map hf, Int.add_zero]
  other c hc := balance_map_of_not_mem hc log

/-- What balances inside balances outside. -/
theorem balance_map_eq_zero {log : List (HookCall α)} (h : ∀ a, balance log a = 0) (c : γ) :
    balance (log.map (map f)) c = 0 := by
  have hzero : Spread f (fun _ ↦ 0) (balance log) fun _ ↦ 0 :=
    ⟨fun a ↦ by rw [h, Int.add_zero], fun _ _ ↦ rfl⟩
  exact congrFun ((spread_balance hf log).eq hzero) c

theorem spread_count (items : List α) :
    Spread f (fun _ ↦ 0) (fun a ↦ (items.count a : Int)) fun c ↦ ((items.map f).count c : Int) where
  image a := by rw [List.count_map_of_injective items f hf, Int.add_zero]
  other c hc := by
    refine congrArg Nat.cast (List.count_eq_zero.2 fun hmem ↦ ?_)
    obtain ⟨a, -, ha⟩ := List.mem_map.1 hmem
    exact hc a ha

end

end HookCall

open HookCall (balance Spread)

/-! ## Stages -/

section Stages

variable {α γ σ τ : Type} [DecidableEq α] [DecidableEq γ] {held : σ → α → Int} {owned : α → Int}

/-- At no stage more is left than is paid for: of what is `owned` at first and of the calls up to
then, those of an unwinding included. -/
def Stage.Covered (held : σ → α → Int) : (α → Int) → List (Stage α σ) → Prop
  | _, [] => True
  | owned, stage :: stages =>
    (∀ a, held stage.state a ≤ owned a + balance [stage.call] a + balance stage.cleanup a) ∧
      Covered held (fun a ↦ owned a + balance [stage.call] a) stages

theorem Stage.covered_append {stages more : List (Stage α σ)} :
    Covered held owned (stages ++ more) ↔ Covered held owned stages ∧
      Covered held (fun a ↦ owned a + balance (stages.map call) a) more := by
  induction stages generalizing owned with
  | nil => simp [Covered]
  | cons stage stages ih =>
    have hcalls (a : α) : owned a + balance ((stage :: stages).map call) a =
        owned a + balance [stage.call] a + balance (stages.map call) a := by
      rw [List.map_cons, ← List.singleton_append, HookCall.balance_append, Int.add_assoc]
    simp only [List.cons_append, Covered, ih, and_assoc, hcalls]

/-- Acquiring only adds to what is paid for. -/
theorem Stage.covered_acquires {s : σ} (items : List α) (h : ∀ a, held s a ≤ owned a) :
    Covered held owned (row .acquire items s) := by
  induction items generalizing owned with
  | nil => trivial
  | cons b items ih =>
    have hb (a : α) : balance [⟨.acquire, b⟩] a = ([b].count a : Int) :=
      HookCall.balance_acquires [b] a
    refine ⟨fun a ↦ ?_, ih fun a ↦ ?_⟩
    · have := h a
      simp only [hb, HookCall.balance_nil]
      omega
    · have := h a
      simp only [hb]
      omega

/-- Elements can be released if they are paid for and no longer held. -/
theorem Stage.covered_releases {s : σ} (items : List α)
    (h : ∀ a, held s a + items.count a ≤ owned a) :
    Covered held owned (row .release items s) := by
  induction items generalizing owned with
  | nil => trivial
  | cons b items ih =>
    have hb (a : α) : balance [⟨.release, b⟩] a = -([b].count a : Int) :=
      HookCall.balance_releases [b] a
    have hcount (a : α) : (b :: items).count a = [b].count a + items.count a := by
      rw [← List.count_append, List.singleton_append]
    refine ⟨fun a ↦ ?_, ih fun a ↦ ?_⟩
    · have := h a
      simp only [hb, HookCall.balance_nil]
      rw [hcount] at this
      omega
    · have := h a
      simp only [hb]
      rw [hcount] at this
      omega

/-- What is filled elsewhere is given up by an unwinding, so nobody else has to pay for it. -/
theorem Stage.Covered.outside {contents : τ → List α} {ownedInside : α → Int} {s : σ}
    {stages : List (Stage α τ)}
    (h : Covered (fun t a ↦ ((contents t).count a : Int)) ownedInside stages)
    (howned : ∀ a, held s a + ownedInside a ≤ owned a) :
    Covered held owned (stages.map (Stage.outside contents s)) := by
  induction stages generalizing owned ownedInside with
  | nil => trivial
  | cons stage stages ih =>
    refine ⟨fun a ↦ ?_, ih h.2 fun a ↦ ?_⟩
    · have hinside : ((contents stage.state).count a : Int) ≤
          ownedInside a + balance [stage.call] a + balance stage.cleanup a := h.1 a
      have hout := howned a
      simp only [Stage.outside, HookCall.balance_append, HookCall.balance_releases]
      omega
    · have hout := howned a
      simp only [Stage.outside]
      omega

/-- What is outside the part that is worked on stays there and stays paid for. -/
theorem Stage.Covered.within {f : α → γ} (hf : Function.Injective f) {write : τ → σ}
    {heldInside : τ → α → Int} {ownedInside : α → Int} {held : σ → γ → Int}
    {owned rest : γ → Int} {stages : List (Stage α τ)}
    (hwrite : ∀ t, Spread f rest (heldInside t) (held (write t)))
    (howned : Spread f rest ownedInside owned) (h : Covered heldInside ownedInside stages) :
    Covered held owned (stages.map (Stage.within f write)) := by
  induction stages generalizing owned ownedInside with
  | nil => trivial
  | cons stage stages ih =>
    have hcall := howned.add (HookCall.spread_balance hf [stage.call])
    have hcleanup := hcall.add (HookCall.spread_balance hf stage.cleanup)
    exact ⟨(hwrite stage.state).le hcleanup h.1, ih hcall h.2⟩

/-- What a run with a mishap leaves is paid for. -/
theorem Stage.Covered.getElem {stages : List (Stage α σ)} (h : Covered held owned stages) {k : Nat}
    (hk : k < stages.length) (a : α) :
    held stages[k].state a ≤
      owned a + balance ((stages.map call).take (k + 1) ++ stages[k].cleanup) a := by
  induction stages generalizing owned k with
  | nil => cases hk
  | cons stage stages ih =>
    rcases k with _ | k
    · have hfirst : ((stage :: stages).map call).take (0 + 1) = [stage.call] := rfl
      have := h.1 a
      rw [hfirst]
      simp only [HookCall.balance_append, List.getElem_cons_zero]
      omega
    · have hrest := ih h.2 (Nat.lt_of_succ_lt_succ hk)
      have hcons : ((stage :: stages).map call).take (k + 1 + 1) =
          [stage.call] ++ (stages.map call).take (k + 1) := rfl
      rw [hcons]
      simp only [HookCall.balance_append, List.getElem_cons_succ] at hrest ⊢
      omega

end Stages

/-! ## Whole courses -/

namespace Course

section Conservation

variable {α σ τ ι β β' : Type} [DecidableEq α]
variable {held : σ → α → Int} {given : β → α → Int} {given' : β' → α → Int} {owned : α → Int}
variable {course : Course α σ β}

/-- A result that hands nothing over. -/
def nothing (_ : β) (_ : α) : Int := 0

/-- What the result of a course hands over; a failure hands nothing over. -/
def handed (given : β → α → Int) (result : Except ListError β) (a : α) : Int :=
  match result with
  | .ok b => given b a
  | .error _ => 0

/-- The books of a course balance: it never leaves more than is paid for, and at its end what is
held and what is handed over are exactly what was owned before, with what was acquired on the way
and without what was released. -/
structure Conserves (held : σ → α → Int) (given : β → α → Int) (owned : α → Int)
    (course : Course α σ β) : Prop where
  /-- No stage leaves more than is paid for. -/
  covered : Stage.Covered held owned course.stages
  /-- The end leaves and hands over all that is paid for. -/
  settled : ∀ a, held course.state a + handed given course.result a =
    owned a + balance course.calls a

/-- Without hook calls, all that was owned is held or handed over. -/
theorem Conserves.still {s : σ} {result : Except ListError β}
    (h : ∀ a, held s a + handed given result a = owned a) :
    (⟨[], s, result⟩ : Course α σ β).Conserves held given owned :=
  ⟨trivial, fun a ↦ by simpa [calls] using h a⟩

theorem Conserves.done {s : σ} {b : β} (h : ∀ a, held s a + given b a = owned a) :
    (done s b : Course α σ β).Conserves held given owned := .still h

theorem Conserves.fail {s : σ} {e : ListError} (h : ∀ a, held s a = owned a) :
    (fail s e : Course α σ β).Conserves held given owned :=
  .still fun a ↦ by simpa [handed] using h a

theorem Conserves.after {stages : List (Stage α σ)} (hstages : Stage.Covered held owned stages)
    (h : course.Conserves held given fun a ↦ owned a + balance (stages.map Stage.call) a) :
    (course.after stages).Conserves held given owned := by
  refine ⟨Stage.covered_append.2 ⟨hstages, h.covered⟩, fun a ↦ ?_⟩
  have := h.settled a
  rw [calls_after, HookCall.balance_append, state_after, result_after]
  omega

theorem Conserves.bind {next : β → σ → Course α σ β'} (h : course.Conserves held given owned)
    (hnext : ∀ b, course.result = .ok b → (next b course.state).Conserves held given'
      fun a ↦ held course.state a + given b a) :
    (course.bind next).Conserves held given' owned := by
  obtain ⟨stages, s, e | b⟩ := course
  · exact ⟨h.covered, h.settled⟩
  · have hpaid : (fun a ↦ owned a + balance (stages.map Stage.call) a) =
        fun a ↦ held s a + given b a := funext fun a ↦ (h.settled a).symm
    exact .after h.covered (hpaid ▸ hnext b rfl)

/-- Elements come in before others go.  What is held while they go is without these already. -/
theorem Conserves.exchange (incoming outgoing : List α) {before between atEnd : σ} {b : β}
    (hbefore : ∀ a, held before a ≤ owned a)
    (hbetween : ∀ a, held between a + outgoing.count a ≤ owned a + incoming.count a)
    (hend : ∀ a, held atEnd a + given b a + outgoing.count a = owned a + incoming.count a) :
    (⟨Stage.row .acquire incoming before ++ Stage.row .release outgoing between, atEnd, .ok b⟩ :
      Course α σ β).Conserves held given owned := by
  refine ⟨Stage.covered_append.2 ⟨Stage.covered_acquires incoming hbefore, ?_⟩, fun a ↦ ?_⟩
  · refine Stage.covered_releases outgoing fun a ↦ ?_
    simpa using hbetween a
  · have := hend a
    simp only [handed, calls, List.map_append, map_call_row, HookCall.balance_append,
      HookCall.balance_acquires, HookCall.balance_releases]
    omega

/-- Elements come in and none goes. -/
theorem Conserves.takeIn (incoming : List α) {before atEnd : σ} {b : β}
    (hbefore : ∀ a, held before a ≤ owned a)
    (hend : ∀ a, held atEnd a + given b a = owned a + incoming.count a) :
    (⟨Stage.row .acquire incoming before, atEnd, .ok b⟩ :
      Course α σ β).Conserves held given owned := by
  refine ⟨Stage.covered_acquires incoming hbefore, fun a ↦ ?_⟩
  simpa [handed, calls] using hend a

/-- Elements go and none comes in. -/
theorem Conserves.giveUp (outgoing : List α) {between atEnd : σ} {b : β}
    (hbetween : ∀ a, held between a + outgoing.count a ≤ owned a)
    (hend : ∀ a, held atEnd a + given b a + outgoing.count a = owned a) :
    (⟨Stage.row .release outgoing between, atEnd, .ok b⟩ :
      Course α σ β).Conserves held given owned := by
  refine ⟨Stage.covered_releases outgoing hbetween, fun a ↦ ?_⟩
  have := hend a
  simp only [handed, calls, map_call_row, HookCall.balance_releases]
  omega

/-- A mapped result hands over what it handed over before. -/
theorem Conserves.map {f : β → β'} (h : course.Conserves held given owned)
    (hgiven : ∀ b a, given' (f b) a = given b a) :
    (course.map f).Conserves held given' owned := by
  refine ⟨h.covered, fun a ↦ ?_⟩
  have hhanded : handed given' (course.result.map f) a = handed given course.result a := by
    rcases course.result with e | b
    · rfl
    · exact hgiven b a
  rw [state_map, result_map, calls_map, hhanded]
  exact h.settled a

theorem Conserves.handle {handler : ListError → σ → Course α σ β}
    (h : course.Conserves held given owned)
    (hhandler : ∀ e, course.result = .error e →
      (handler e course.state).Conserves held given (held course.state)) :
    (course.handle handler).Conserves held given owned := by
  obtain ⟨stages, s, e | b⟩ := course
  · have hpaid : (fun a ↦ owned a + balance (stages.map Stage.call) a) = held s :=
      funext fun a ↦ by simpa [handed, calls] using (h.settled a).symm
    exact .after h.covered (hpaid ▸ hhandler e rfl)
  · exact h

/-- What is filled in a place of its own comes to light with all that it acquired, or not at all. -/
theorem Conserves.construct {contents : τ → List α} {fill : Course α τ Unit} {s : σ}
    (h : fill.Conserves (fun t a ↦ ((contents t).count a : Int)) nothing fun _ ↦ 0) :
    (fill.construct contents s).Conserves held (fun t a ↦ ((contents t).count a : Int))
      (held s) := by
  obtain ⟨stages, t, result⟩ := fill
  have hstages : Stage.Covered held (held s) (stages.map (Stage.outside contents s)) :=
    h.covered.outside fun a ↦ by simp
  have hcalls : (stages.map (Stage.outside contents s)).map Stage.call = stages.map Stage.call := by
    simp [Stage.outside, Function.comp_def]
  have hfilled (a : α) : balance (stages.map Stage.call) a = (contents t).count a := by
    have := h.settled a
    rcases result with e | b <;> simpa [handed, nothing, calls] using this.symm
  rcases result with e | b
  · refine .after hstages (.after (Stage.covered_releases _ fun a ↦ ?_) (.fail fun a ↦ ?_))
    · simp only [hcalls, hfilled]
      exact Int.le_refl _
    · simp only [hcalls, hfilled, map_call_row, HookCall.balance_releases]
      omega
  · exact .after hstages (.done fun a ↦ by rw [hcalls, hfilled])

/-- Work on a part of a state leaves the rest of it alone. -/
theorem Conserves.within {γ : Type} [DecidableEq γ] {f : α → γ} (hf : Function.Injective f)
    {write : τ → σ} {heldInside : τ → α → Int} {ownedInside : α → Int} {given : β → α → Int}
    {heldOutside : σ → γ → Int} {ownedOutside rest : γ → Int} {given' : β → γ → Int}
    {inside : Course α τ β}
    (hwrite : ∀ t, Spread f rest (heldInside t) (heldOutside (write t)))
    (howned : Spread f rest ownedInside ownedOutside)
    (hgiven : ∀ b, Spread f (fun _ ↦ 0) (given b) (given' b))
    (h : inside.Conserves heldInside given ownedInside) :
    (inside.within f write).Conserves heldOutside given' ownedOutside := by
  have hhanded : Spread f (fun _ ↦ 0) (handed given inside.result)
      (handed given' inside.result) := by
    rcases inside.result with e | b
    · exact ⟨fun _ ↦ rfl, fun _ _ ↦ rfl⟩
    · exact hgiven b
  have hleft := (hwrite inside.state).add hhanded
  have hright := howned.add (HookCall.spread_balance hf inside.calls)
  refine ⟨h.covered.within hf hwrite howned, fun c ↦ ?_⟩
  rw [calls_within]
  have hsettled : (fun a ↦ heldInside inside.state a + handed given inside.result a) =
      fun a ↦ ownedInside a + balance inside.calls a := funext h.settled
  exact congrFun ((hsettled ▸ hleft).eq hright) c

end Conservation

/-! ## Properties of states -/

section Keeps

variable {α σ ι β β' : Type} {P : σ → Prop} {course : Course α σ β}

/-- Wherever the course may end, the state has the property. -/
structure Keeps (P : σ → Prop) (course : Course α σ β) : Prop where
  /-- If a call unwinds. -/
  stages : ∀ stage ∈ course.stages, P stage.state
  /-- If none does. -/
  state : P course.state

theorem Keeps.imp {Q : σ → Prop} (h : course.Keeps P) (himp : ∀ s, P s → Q s) : course.Keeps Q :=
  ⟨fun stage hmem ↦ himp _ (h.stages stage hmem), himp _ h.state⟩

/-- Without hook calls there is only the end. -/
theorem Keeps.still {s : σ} {result : Except ListError β} (h : P s) :
    (⟨[], s, result⟩ : Course α σ β).Keeps P :=
  ⟨fun _ hmem ↦ (List.not_mem_nil hmem).elim, h⟩

theorem Keeps.done {s : σ} {b : β} (h : P s) : (done s b : Course α σ β).Keeps P := .still h

theorem Keeps.fail {s : σ} {e : ListError} (h : P s) : (fail s e : Course α σ β).Keeps P := .still h

theorem Keeps.after {stages : List (Stage α σ)} (hstages : ∀ stage ∈ stages, P stage.state)
    (h : course.Keeps P) : (course.after stages).Keeps P := by
  refine ⟨fun stage hmem ↦ ?_, h.state⟩
  rcases List.mem_append.1 hmem with hmem | hmem
  · exact hstages stage hmem
  · exact h.stages stage hmem

theorem mem_row {hook : Hook} {items : List α} {s : σ} {stage : Stage α σ}
    (h : stage ∈ Stage.row hook items s) : stage.state = s := by
  obtain ⟨a, -, rfl⟩ := List.mem_map.1 h
  rfl

theorem Keeps.takeIn (incoming : List α) {before atEnd : σ} {b : β} (hbefore : P before)
    (hend : P atEnd) : (⟨Stage.row .acquire incoming before, atEnd, .ok b⟩ :
      Course α σ β).Keeps P :=
  ⟨fun _ hmem ↦ mem_row hmem ▸ hbefore, hend⟩

theorem Keeps.giveUp (outgoing : List α) {between atEnd : σ} {b : β} (hbetween : P between)
    (hend : P atEnd) : (⟨Stage.row .release outgoing between, atEnd, .ok b⟩ :
      Course α σ β).Keeps P :=
  ⟨fun _ hmem ↦ mem_row hmem ▸ hbetween, hend⟩

theorem Keeps.exchange (incoming outgoing : List α) {before between atEnd : σ} {b : β}
    (hbefore : P before) (hbetween : P between) (hend : P atEnd) :
    (⟨Stage.row .acquire incoming before ++ Stage.row .release outgoing between, atEnd, .ok b⟩ :
      Course α σ β).Keeps P :=
  .after (fun _ hmem ↦ mem_row hmem ▸ hbefore) (.giveUp outgoing hbetween hend)

theorem Keeps.bind {next : β → σ → Course α σ β'} (h : course.Keeps P)
    (hnext : ∀ b, course.result = .ok b → (next b course.state).Keeps P) :
    (course.bind next).Keeps P := by
  obtain ⟨stages, s, e | b⟩ := course
  · exact ⟨h.stages, h.state⟩
  · exact .after h.stages (hnext b rfl)

theorem Keeps.map {f : β → β'} (h : course.Keeps P) : (course.map f).Keeps P :=
  ⟨h.stages, h.state⟩

theorem Keeps.handle {handler : ListError → σ → Course α σ β} (h : course.Keeps P)
    (hhandler : ∀ e, course.result = .error e → (handler e course.state).Keeps P) :
    (course.handle handler).Keeps P := by
  obtain ⟨stages, s, e | b⟩ := course
  · exact .after h.stages (hhandler e rfl)
  · exact h

/-- A loop keeps what each round keeps. -/
theorem Keeps.forEach {body : ι → σ → Course α σ Unit} {items : List ι} {s : σ}
    (hbody : ∀ i ∈ items, ∀ s, P s → (body i s).Keeps P) (hs : P s) :
    (forEach body items s).Keeps P := by
  induction items generalizing s with
  | nil => exact .done hs
  | cons i items ih =>
    have hround := hbody i List.mem_cons_self s hs
    exact hround.bind fun _ _ ↦ ih (fun j hj ↦ hbody j (List.mem_cons_of_mem i hj)) hround.state

/-- What goes on outside while something is filled does not change the state there. -/
theorem Keeps.construct {τ : Type} {contents : τ → List α} {fill : Course α τ Unit} {s : σ}
    (hs : P s) : (fill.construct contents s).Keeps P := by
  have houtside : ∀ stage ∈ fill.stages.map (Stage.outside contents s), P stage.state := by
    intro stage hmem
    obtain ⟨inside, -, rfl⟩ := List.mem_map.1 hmem
    exact hs
  obtain ⟨stages, t, e | b⟩ := fill
  · exact .after houtside (.after (fun stage hmem ↦ mem_row hmem ▸ hs) (.fail hs))
  · exact .after houtside (.done hs)

/-- What is kept on a part of a state makes up what is kept on the whole of it. -/
theorem Keeps.within {γ τ : Type} {f : α → γ} {write : τ → σ} {Q : τ → Prop}
    {inside : Course α τ β} (h : inside.Keeps Q) (hwrite : ∀ t, Q t → P (write t)) :
    (inside.within f write).Keeps P := by
  refine ⟨fun stage hmem ↦ ?_, hwrite _ h.state⟩
  obtain ⟨stage', hmem', rfl⟩ := List.mem_map.1 hmem
  exact hwrite _ (h.stages stage' hmem')

/-- What comes to light is what was filled. -/
theorem of_construct_ok {τ : Type} {contents : τ → List α} {fill : Course α τ Unit} {s : σ}
    {built : τ} (h : (fill.construct contents s).result = .ok built) :
    built = fill.state ∧ fill.result = .ok () := by
  obtain ⟨stages, t, e | b⟩ := fill
  · cases h
  · cases h
    exact ⟨rfl, rfl⟩

/-- A run keeps what its course keeps, whatever the mishap. -/
theorem Keeps.run (h : course.Keeps P) (mishap : Mishap) : P (course.run mishap).state := by
  rcases mishap.spares_or_strikes course.stages.length with hspared | ⟨k, hk, rfl⟩
  · rw [run_of_spares _ hspared]
    exact h.state
  · rw [run_of_lt _ hk]
    exact h.stages _ (List.getElem_mem hk)

end Keeps

/-! ## Loops and runs -/

section Runs

variable {α σ ι β : Type} [DecidableEq α]
variable {held : σ → α → Int} {given : β → α → Int} {owned : α → Int} {P : σ → Prop}

/-- The books of a loop balance if those of each round do, from states that the rounds keep. -/
theorem Conserves.forEach {body : ι → σ → Course α σ Unit} {items : List ι} {s : σ}
    (hkeeps : ∀ i ∈ items, ∀ s, P s → (body i s).Keeps P)
    (hbody : ∀ i ∈ items, ∀ s, P s → (body i s).Conserves held nothing (held s)) (hs : P s) :
    (forEach body items s).Conserves held nothing (held s) := by
  induction items generalizing s with
  | nil => exact .done fun a ↦ by simp [nothing]
  | cons i items ih =>
    have hround := (hkeeps i List.mem_cons_self s hs).state
    refine (hbody i List.mem_cons_self s hs).bind fun _ _ ↦ ?_
    have hrest := ih (fun j hj ↦ hkeeps j (List.mem_cons_of_mem i hj))
      (fun j hj ↦ hbody j (List.mem_cons_of_mem i hj)) hround
    simpa [nothing] using hrest

end Runs
end Course

/-! ## The books of a run -/

section Runs

variable {α σ β : Type} [DecidableEq α]
variable {held : σ → α → Int} {given : β → α → Int} {owned : α → Int} {course : Course α σ β}

/-- What a run hands over.  Only one that comes to a result does. -/
def Run.handed (given : β → α → Int) (run : Run α σ β) (a : α) : Int :=
  match run.ending with
  | .returned b => given b a
  | .failed _ | .unwound _ => 0

theorem Course.Conserves.run_of_spares (h : course.Conserves held given owned) {mishap : Mishap}
    (hspared : mishap.Spares course.stages.length) (a : α) :
    held (course.run mishap).state a + (course.run mishap).handed given a =
      owned a + balance (course.run mishap).calls a := by
  rw [Course.run_of_spares _ hspared]
  have := h.settled a
  obtain ⟨stages, s, e | b⟩ := course
  · exact this
  · exact this

/-- Without a mishap all is accounted for. -/
theorem Course.Conserves.run_none (h : course.Conserves held given owned) (a : α) :
    held (course.run none).state a + (course.run none).handed given a =
      owned a + balance (course.run none).calls a :=
  h.run_of_spares (Mishap.spares_none _) a

/-- Whatever the mishap, what is held and handed over is paid for. -/
theorem Course.Conserves.run_le (h : course.Conserves held given owned) (mishap : Mishap) (a : α) :
    held (course.run mishap).state a + (course.run mishap).handed given a ≤
      owned a + balance (course.run mishap).calls a := by
  rcases mishap.spares_or_strikes course.stages.length with hspared | ⟨k, hk, rfl⟩
  · exact Int.le_of_eq (h.run_of_spares hspared a)
  · rw [Course.run_of_lt _ hk]
    have := h.covered.getElem hk a
    simpa [Run.handed, Course.calls] using this

end Runs
end ListRuntime
