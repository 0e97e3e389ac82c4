import ListRuntime.Action

/-!
# Runs of composed actions

The run of a composed action, in terms of the runs of its parts.

* `run_bind` says how one action follows another; `Action` is a lawful monad.
* `run_callAll_none`, `run_callAll_of_le` and `run_callAll_of_lt` are the runs of a row of hook
  calls: without a mishap, with one that comes later, and with one that strikes.
* `forEach_cons` and `times_succ` unroll the loops.
* `run_within` and `run_construct_returned` are about actions on a part of the state, and in a place
  of their own.
-/

set_option autoImplicit false

namespace ListRuntime

/-! ## Parts of runs -/

@[simp] theorem Mishap.after_zero (mishap : Mishap) : mishap.after 0 = mishap := by
  cases mishap <;> rfl

@[simp] theorem Mishap.after_after (mishap : Mishap) (m n : Nat) :
    (mishap.after m).after n = mishap.after (m + n) := by
  cases mishap with
  | none => rfl
  | some k => exact congrArg some (Nat.sub_sub k m n)

namespace Run

variable {α σ β : Type} (run : Run α σ β)

@[simp] theorem following_nil : run.following [] = run := rfl

@[simp] theorem following_following (calls calls' : List (HookCall α)) :
    (run.following calls').following calls = run.following (calls ++ calls') := by
  simp [following]

@[simp] theorem calls_following (calls : List (HookCall α)) :
    (run.following calls).calls = calls ++ run.calls := rfl

@[simp] theorem state_following (calls : List (HookCall α)) :
    (run.following calls).state = run.state := rfl

@[simp] theorem ending_following (calls : List (HookCall α)) :
    (run.following calls).ending = run.ending := rfl

end Run

namespace Action

variable {α γ σ τ ι β β' : Type} (mem : Allocator) (mishap : Mishap) (s : σ)

/-! ## The monad -/

@[simp] theorem run_pure (b : β) :
    (pure b : Action α σ β).run mem mishap s = ⟨[], s, .returned b⟩ := rfl

theorem run_bind (first : Action α σ β) (next : β → Action α σ β') :
    (first >>= next).run mem mishap s =
      match first.run mem mishap s with
      | ⟨calls, s', .returned b⟩ =>
        ((next b).run mem (mishap.after calls.length) s').following calls
      | ⟨calls, s', .failed e⟩ => ⟨calls, s', .failed e⟩
      | ⟨calls, s', .unwound call⟩ => ⟨calls, s', .unwound call⟩ := rfl

variable {mem mishap s}
variable {calls : List (HookCall α)} {s' : σ} {b : β} {e : ListError} {call : HookCall α}

/-- A first action that returns is followed by the second. -/
theorem run_bind_returned {first : Action α σ β} {next : β → Action α σ β'}
    (h : first.run mem mishap s = ⟨calls, s', .returned b⟩) :
    (first >>= next).run mem mishap s =
      ((next b).run mem (mishap.after calls.length) s').following calls := by
  rw [run_bind, h]

/-- A first action that fails is all there is. -/
theorem run_bind_failed {first : Action α σ β} {next : β → Action α σ β'}
    (h : first.run mem mishap s = ⟨calls, s', .failed e⟩) :
    (first >>= next).run mem mishap s = ⟨calls, s', .failed e⟩ := by
  rw [run_bind, h]

/-- A first action that is unwound is all there is. -/
theorem run_bind_unwound {first : Action α σ β} {next : β → Action α σ β'}
    (h : first.run mem mishap s = ⟨calls, s', .unwound call⟩) :
    (first >>= next).run mem mishap s = ⟨calls, s', .unwound call⟩ := by
  rw [run_bind, h]

/-- Two actions are the same if all their runs are. -/
theorem ext_run {one two : Action α σ β}
    (h : ∀ mem mishap s, one.run mem mishap s = two.run mem mishap s) : one = two := by
  cases one
  cases two
  exact congrArg Action.mk (funext fun mem ↦ funext fun mishap ↦ funext fun s ↦ h mem mishap s)

theorem id_map_run (x : Action α σ β) : id <$> x = x := by
  refine ext_run fun mem mishap s ↦ ?_
  change (x >>= fun b ↦ pure b).run mem mishap s = x.run mem mishap s
  rw [run_bind]
  rcases x.run mem mishap s with ⟨calls, s', b | e | call⟩ <;> simp [Run.following]

theorem bind_assoc_run (x : Action α σ β) (f : β → Action α σ β') (g : β' → Action α σ τ) :
    x >>= f >>= g = x >>= fun b ↦ f b >>= g := by
  refine ext_run fun mem mishap s ↦ ?_
  simp only [run_bind]
  rcases x.run mem mishap s with ⟨calls, s', b | e | call⟩
  · dsimp only
    rcases (f b).run mem (mishap.after calls.length) s' with ⟨calls', s'', c | e | call⟩
    · simp [Run.following]
    · rfl
    · rfl
  · rfl
  · rfl

/-- Sequencing is associative, and `pure` is neutral in it. -/
instance : LawfulMonad (Action α σ) :=
  LawfulMonad.mk' (Action α σ) (fun x ↦ id_map_run x)
    (fun b f ↦ ext_run fun mem mishap s ↦ by simp [run_bind]) (fun x f g ↦ bind_assoc_run x f g)

/-! ## State and failure -/

section
variable (mem mishap s)

@[simp] theorem run_get : (get : Action α σ σ).run mem mishap s = ⟨[], s, .returned s⟩ := rfl

@[simp] theorem run_set (s' : σ) :
    (set s' : Action α σ PUnit).run mem mishap s = ⟨[], s', .returned ()⟩ := rfl

@[simp] theorem run_modify (f : σ → σ) :
    (modify f : Action α σ PUnit).run mem mishap s = ⟨[], f s, .returned ()⟩ := rfl

@[simp] theorem run_modifyGet (f : σ → β × σ) :
    (modifyGet f : Action α σ β).run mem mishap s = ⟨[], (f s).2, .returned (f s).1⟩ := rfl

@[simp] theorem run_allocator :
    (allocator : Action α σ Allocator).run mem mishap s = ⟨[], s, .returned mem⟩ := rfl

@[simp] theorem run_throw (e : ListError) :
    (throw e : Action α σ β).run mem mishap s = ⟨[], s, .failed e⟩ := rfl

@[simp] theorem ofExcept_ok (b : β) : (ofExcept (.ok b) : Action α σ β) = pure b := rfl

@[simp] theorem ofExcept_error (e : ListError) : (ofExcept (.error e) : Action α σ β) = throw e :=
  rfl

end

/-- A body that returns needs no handler. -/
theorem run_tryCatch_returned {body : Action α σ β} (handler : ListError → Action α σ β)
    (h : body.run mem mishap s = ⟨calls, s', .returned b⟩) :
    (tryCatch body handler).run mem mishap s = ⟨calls, s', .returned b⟩ := by
  simp only [MonadExcept.tryCatch, MonadExceptOf.tryCatch, tryCatchThe, h]

/-- After a body that fails, the handler goes on from the state it is left in. -/
theorem run_tryCatch_failed {body : Action α σ β} (handler : ListError → Action α σ β)
    (h : body.run mem mishap s = ⟨calls, s', .failed e⟩) :
    (tryCatch body handler).run mem mishap s =
      ((handler e).run mem (mishap.after calls.length) s').following calls := by
  simp only [MonadExcept.tryCatch, MonadExceptOf.tryCatch, tryCatchThe, h]

/-- An unwinding passes the handler. -/
theorem run_tryCatch_unwound {body : Action α σ β} (handler : ListError → Action α σ β)
    (h : body.run mem mishap s = ⟨calls, s', .unwound call⟩) :
    (tryCatch body handler).run mem mishap s = ⟨calls, s', .unwound call⟩ := by
  simp only [MonadExcept.tryCatch, MonadExceptOf.tryCatch, tryCatchThe, h]

/-! ## Hook calls -/

/-- All calls are made if none has a mishap. -/
@[simp] theorem run_callAll_none (mem : Allocator) (s : σ) (hook : Hook) (items : List α) :
    (callAll hook items : Action α σ Unit).run mem none s =
      ⟨items.map (⟨hook, ·⟩), s, .returned ()⟩ := rfl

/-- All calls are made if the mishap is to come later. -/
theorem run_callAll_of_le (mem : Allocator) (s : σ) (hook : Hook) {items : List α} {k : Nat}
    (h : items.length ≤ k) :
    (callAll hook items : Action α σ Unit).run mem (some k) s =
      ⟨items.map (⟨hook, ·⟩), s, .returned ()⟩ := by
  have hnone : (items.map (HookCall.mk hook))[k]? = none := by simpa using h
  simp only [callAll]
  rw [hnone]

/-- The mishap makes its call the last one. -/
theorem run_callAll_of_lt (mem : Allocator) (s : σ) (hook : Hook) {items : List α} {k : Nat}
    (h : k < items.length) :
    (callAll hook items : Action α σ Unit).run mem (some k) s =
      ⟨(items.take (k + 1)).map (⟨hook, ·⟩), s, .unwound ⟨hook, items[k]⟩⟩ := by
  have hsome : (items.map (HookCall.mk hook))[k]? = some ⟨hook, items[k]⟩ := by simp [h]
  simp only [callAll]
  rw [hsome]
  simp

/-! ## Loops -/

theorem run_forEach_loop (body : ι → Action α σ Unit) (items : List ι) (mishap : Mishap)
    (past : List (HookCall α)) (s : σ) :
    forEach.loop mem body items mishap past s =
      ((forEach items body).run mem mishap s).following past.reverse := by
  induction items generalizing mishap past s with
  | nil => simp [forEach, forEach.loop, Run.following]
  | cons i items ih =>
    simp only [forEach, forEach.loop]
    rcases (body i).run mem mishap s with ⟨calls, s', _ | e | call⟩
    · simp [ih]
    · simp [Run.following]
    · simp [Run.following]

@[simp] theorem forEach_nil (body : ι → Action α σ Unit) : forEach [] body = pure () := rfl

@[simp] theorem forEach_cons (i : ι) (items : List ι) (body : ι → Action α σ Unit) :
    forEach (i :: items) body = body i >>= fun _ ↦ forEach items body := by
  refine ext_run fun mem mishap s ↦ ?_
  rw [run_bind]
  simp only [forEach, forEach.loop]
  rcases (body i).run mem mishap s with ⟨calls, s', _ | e | call⟩
  · refine (run_forEach_loop body items _ _ s').trans ?_
    simp [forEach]
  · simp
  · simp

@[simp] theorem times_zero (body : Action α σ Unit) : times 0 body = pure () := rfl

@[simp] theorem times_succ (n : Nat) (body : Action α σ Unit) :
    times (n + 1) body = body >>= fun _ ↦ times n body :=
  forEach_cons () (List.replicate n ()) fun () ↦ body

/-! ## Actions elsewhere -/

variable {f : α → γ} {read : σ → τ} {write : σ → τ → σ} {action : Action α τ β}

/-- The run on a part of the state is one on the whole of it. -/
theorem run_within {t : τ} {ending : Ending α β}
    (h : action.run mem mishap (read s) = ⟨calls, t, ending⟩) :
    (within f read write action).run mem mishap s =
      ⟨calls.map (·.map f), write s t, ending.map f⟩ := by
  simp only [within, h]

variable {contents : τ → List α} {start built : τ} {fill : Action α τ Unit}

/-- What was filled comes to light. -/
theorem run_construct_returned
    (h : fill.run mem mishap start = ⟨calls, built, .returned ()⟩) :
    (construct contents start fill).run mem mishap s = ⟨calls, s, .returned built⟩ := by
  simp only [construct, h]

/-- What was filled before a failure is released. -/
theorem run_construct_failed (h : fill.run mem mishap start = ⟨calls, built, .failed e⟩) :
    (construct contents start fill : Action α σ τ).run mem mishap s =
      ((releaseAll (contents built) >>= fun _ ↦ MonadExcept.throw e : Action α σ τ).run mem
        (mishap.after calls.length) s).following calls := by
  simp only [construct, h]

/-- So it is when an unwinding passes. -/
theorem run_construct_unwound (h : fill.run mem mishap start = ⟨calls, built, .unwound call⟩) :
    (construct contents start fill : Action α σ τ).run mem mishap s =
      ⟨calls ++ (contents built).map (⟨.release, ·⟩), s, .unwound call⟩ := by
  simp only [construct, h]

end Action
end ListRuntime
