import Inngest.Body

/-!
# Requests

How `ExecutionV0.run` begins and ends. It either stops at a hook before any
of the function's code ran, or it calls the function once and turns the way
the body ended into a call result.
-/

set_option autoImplicit false

namespace Inngest
open ServerLib Errors StepLib Effect Engine

namespace Execution
variable {σ : Type} (env : Env σ)

/-- The error of `after_execution`, called in state `s`. -/
def afterError (r : Scope) (s : State σ) : Option PyError :=
  match (MiddlewareManager.afterExecution env.flavor env.middleware r s).outcome with
  | .ok (.error e) => some e
  | _ => none

def unlessError (err : Option PyError) (result : CallResult) : CallResult :=
  match err with
  | some e => CallResult.ofError e
  | none => result

theorem afterExecutionThen_spec (result : CallResult) (r : Scope) (s : State σ) :
    (afterExecutionThen env result r s).outcome = .ok (unlessError (afterError env r s) result) ∧
      (afterExecutionThen env result r s).log = [] := by
  obtain ⟨⟨x, hx⟩, -, hl⟩ := MiddlewareManager.hookLoop_spec
    (MiddlewareManager.refuseCoroutine env.flavor Hooks.afterExecution) Hooks.afterExecution
    env.middleware.reverse () r s
  have hx' : (MiddlewareManager.afterExecution env.flavor env.middleware r s).outcome = .ok x := hx
  have hl' : (MiddlewareManager.afterExecution env.flavor env.middleware r s).log = [] := hl
  rw [afterExecutionThen, Comp.bind_ok hx', afterError, hx']
  cases x <;> exact ⟨rfl, by simp [hl']⟩

/-- What `run` makes of the end of the function's code, `err` being what
`after_execution` raises there. -/
def resultOf (err : Option PyError) : Outcome PyError Interrupt Json → Option CallResult
  | .ok output => some (unlessError err (CallResult.ofOutput output))
  | .exc e => some (CallResult.ofError e)
  | .intr (.response responses) => some (unlessError err (CallResult.fromResponses responses))
  | .intr (.skip stepId) => some (CallResult.ofError (stepUnexpectedError (skipMessage stepId)))
  | .intr .nested => none

theorem finish_log (o : Outcome PyError Interrupt Json) (r : Scope) (s : State σ) :
    (finish env o r s).log = [] := by
  rcases o with output | e | _ | stepId | _
  · exact (afterExecutionThen_spec env _ r s).2
  · rfl
  · exact (afterExecutionThen_spec env _ r s).2
  · rfl
  · rfl

theorem finish_outcome {o : Outcome PyError Interrupt Json} {r : Scope} {s : State σ}
    {result : CallResult} (h : resultOf (afterError env r s) o = some result) :
    (finish env o r s).outcome = .ok result := by
  rcases o with output | e | responses | stepId | _
  · rw [← Option.some.inj h]; exact (afterExecutionThen_spec env _ r s).1
  · rw [← Option.some.inj h]; rfl
  · rw [← Option.some.inj h]; exact (afterExecutionThen_spec env _ r s).1
  · rw [← Option.some.inj h]; rfl
  · simp [resultOf] at h

theorem finish_state (o : Outcome PyError Interrupt Json) (r : Scope) (s : State σ) :
    MiddlewareManager.SameButStore s (finish env o r s).state := by
  have hafter : ∀ result, MiddlewareManager.SameButStore s
      (afterExecutionThen env result r s).state := by
    intro result
    obtain ⟨⟨x, hx⟩, hs, -⟩ := MiddlewareManager.hookLoop_spec
      (MiddlewareManager.refuseCoroutine env.flavor Hooks.afterExecution) Hooks.afterExecution
      env.middleware.reverse () r s
    have hx' : (MiddlewareManager.afterExecution env.flavor env.middleware r s).outcome = .ok x :=
      hx
    rw [afterExecutionThen, Comp.bind_ok hx']
    cases x <;> exact hs
  rcases o with output | e | _ | stepId | _
  · exact hafter _
  · rfl
  · exact hafter _
  · rfl
  · rfl

theorem callHandler_eq (body : Exec σ Json) (outputType : Option OutputType) (r : Scope)
    (s : State σ) :
    callHandler env body outputType r s =
      (finish env (Step.serialized env outputType (body r s).outcome) r (body r s).state).after
        (body r s).log := by
  simp only [callHandler, Comp.afterwards_run, Step.serialized_run]

theorem callHandler_log (body : Exec σ Json) (outputType : Option OutputType) (r : Scope)
    (s : State σ) : (callHandler env body outputType r s).log = (body r s).log := by
  rw [callHandler_eq, Done.after_log, finish_log, List.append_nil]

end Execution

namespace Execution
variable {σ : Type} (env : Env σ)

/-- The part of `run` before the function is called: an error of a hook, or
the context for the function. -/
def prepare (ctx : Context) : Exec σ (Except PyError Context) := do
  let s ← Comp.get
  match ← MiddlewareManager.transformInput env.flavor env.middleware ctx s.memos with
  | .error e => pure (.error e)
  | .ok (ctx, memos) =>
    Comp.modify (fun s => { s with memos := memos })
    if Dict.size memos = 0 then
      match ← MiddlewareManager.beforeExecution env.flavor env.middleware with
      | some e => pure (.error e)
      | none => pure (.ok ctx)
    else
      pure (.ok ctx)

/-- How the preparation ends, started in state `s`: the function will be
called only in the last two cases. -/
inductive Prepared (s : State σ) : Run σ (Except PyError Context) → Prop where
  | refused {e t} : t.loggingEnabled = s.loggingEnabled → t.held = s.held →
      Prepared s ⟨.ok (.error e), t, []⟩
  | hookFailed {e t l} :
      (MiddlewareManager.LoggerFirst env.middleware → t.loggingEnabled = true) →
      MiddlewareManager.HooksRan 0 env.middleware.length l (some e) → t.held = s.held →
      Prepared s ⟨.ok (.error e), t, l⟩
  | replaying {ctx t} : Dict.size t.memos ≠ 0 →
      t.beforeExecutionCalled = s.beforeExecutionCalled → t.counts = s.counts →
      t.loggingEnabled = s.loggingEnabled → t.held = s.held → Prepared s ⟨.ok (.ok ctx), t, []⟩
  | fresh {ctx t l} : Dict.size t.memos = 0 → t.beforeExecutionCalled = true →
      t.counts = s.counts →
      (MiddlewareManager.LoggerFirst env.middleware → t.loggingEnabled = true) →
      MiddlewareManager.HooksRan 0 env.middleware.length l none → t.held = s.held →
      Prepared s ⟨.ok (.ok ctx), t, l⟩

theorem prepare_done (ctx : Context) (r : Scope) (s : State σ)
    (hs : s.beforeExecutionCalled = false) : Prepared env s (prepare env ctx r s) := by
  obtain ⟨⟨x, hx⟩, hst, hl⟩ := MiddlewareManager.hookLoop_spec
    (MiddlewareManager.refuseCoroutine env.flavor Hooks.transformInput) Hooks.transformInput
    env.middleware (ctx, s.memos) r s
  rw [← MiddlewareManager.transformInput] at hx hst hl
  rw [prepare, Comp.get_bind, Comp.bind_ok hx, hl, Done.after_nil]
  generalize (MiddlewareManager.transformInput env.flavor env.middleware ctx s.memos r s).state
    = t at hst ⊢
  have hb : t.beforeExecutionCalled = s.beforeExecutionCalled := by rw [hst]
  have hc : t.counts = s.counts := by rw [hst]
  have hlog : t.loggingEnabled = s.loggingEnabled := by rw [hst]
  have hheld : t.held = s.held := by rw [hst]
  cases x with
  | error e => exact .refused hlog hheld
  | ok x =>
    obtain ⟨ctx, memos⟩ := x
    simp only [Comp.modify_bind]
    split
    · rename_i h0
      obtain ⟨hf, hcalled, err, ho, hr⟩ := MiddlewareManager.beforeExecution_done env.flavor
        env.middleware r { t with memos := memos }
      rw [Comp.bind_ok ho]
      rcases hr with ⟨hs', -⟩ | ⟨-, hr, hlogger⟩
      · rw [hb, hs] at hs'
        simp at hs'
      · cases err with
        | some e => simpa [Done.after] using Prepared.hookFailed hlogger hr (hf.held.trans hheld)
        | none =>
          simpa [Done.after] using
            Prepared.fresh (by rw [hf.memos]; exact h0) hcalled (hf.counts.trans hc) hlogger hr
              (hf.held.trans hheld)
    · rename_i h0
      exact .replaying h0 hb hc hlog hheld

theorem run_eq (ctx : Context) (handler : Context → Exec σ Json)
    (outputType : Option OutputType) (r : Scope) (s : State σ) :
    run env ctx handler outputType r s = (prepare env ctx >>= fun
      | .error e => pure (CallResult.ofError e)
      | .ok ctx => callHandler env (handler ctx) outputType) r s := by
  obtain ⟨x, hx⟩ := (MiddlewareManager.hookLoop_spec
    (MiddlewareManager.refuseCoroutine env.flavor Hooks.transformInput) Hooks.transformInput
    env.middleware (ctx, s.memos) r s).1
  rw [← MiddlewareManager.transformInput] at hx
  rw [run, prepare, Comp.bind_assoc, Comp.get_bind, Comp.get_bind, Comp.bind_assoc,
    Comp.bind_ok hx, Comp.bind_ok hx]
  cases x with
  | error e => rfl
  | ok x =>
    obtain ⟨ctx', memos⟩ := x
    simp only [Comp.bind_assoc, Comp.modify_bind]
    split
    · obtain ⟨-, -, err, ho, -⟩ := MiddlewareManager.beforeExecution_done env.flavor
        env.middleware r { (MiddlewareManager.transformInput env.flavor env.middleware ctx
          s.memos r s).state with memos := memos }
      rw [Comp.bind_assoc, Comp.bind_ok ho, Comp.bind_ok ho]
      cases err <;> rfl
    · rfl

end Execution

section
variable {σ : Type} (env : Env σ) (fn : Context → Body σ) (outputType : Option OutputType)
  (inv : Invocation σ)

def prepared : Run σ (Except PyError Context) :=
  Execution.prepare env inv.ctx Scope.top inv.initial

/-- The run of the function's code, called with `ctx`. -/
def codeRun (ctx : Context) : Run σ Json :=
  (fn ctx).interp env Scope.top (prepared env inv).state

theorem prepared_done : Execution.Prepared env inv.initial (prepared env inv) :=
  Execution.prepare_done env inv.ctx Scope.top inv.initial rfl

theorem prepared_outcome : ∃ x, (prepared env inv).outcome = .ok x := by
  have h := prepared_done env inv
  generalize prepared env inv = d at h ⊢
  cases h <;> exact ⟨_, rfl⟩

variable {env inv}

theorem request_stopped {e : PyError} (h : (prepared env inv).outcome = .ok (.error e)) :
    request env fn outputType inv =
      ⟨.ok (CallResult.ofError e), (prepared env inv).state, (prepared env inv).log⟩ := by
  rw [request, Execution.run_eq, Comp.bind_ok h]
  simp [Done.after, prepared]

theorem request_called {ctx : Context} (h : (prepared env inv).outcome = .ok (.ok ctx)) :
    request env fn outputType inv =
      (Execution.callHandler env ((fn ctx).interp env) outputType Scope.top
        (prepared env inv).state).after (prepared env inv).log := by
  rw [request, Execution.run_eq, Comp.bind_ok h]
  rfl

theorem request_log {ctx : Context} (h : (prepared env inv).outcome = .ok (.ok ctx)) :
    (request env fn outputType inv).log =
      (prepared env inv).log ++ (codeRun env fn inv ctx).log := by
  rw [request_called fn outputType h, Done.after_log, Execution.callHandler_log]
  rfl

theorem request_outcome {ctx : Context} (h : (prepared env inv).outcome = .ok (.ok ctx))
    {result : CallResult} (hr : Execution.resultOf
      (Execution.afterError env Scope.top (codeRun env fn inv ctx).state)
      (Step.serialized env outputType (codeRun env fn inv ctx).outcome) = some result) :
    (request env fn outputType inv).outcome = .ok result := by
  rw [request_called fn outputType h, Done.after_outcome, Execution.callHandler_eq,
    Done.after_outcome]
  exact Execution.finish_outcome env hr

end

/-! ## Sample requests

The smallest client and the first request of a run, for the concrete
functions that later modules show. -/

namespace Sample

/-- The SHA-1 digests of the step IDs that the sample functions use. -/
def hashStepId : String → String
  | "a" => "86f7e437faa5a7fce15d1ddcb9eaeaea377667b8"
  | "b" => "e9d71f5ee7c92d6dc9e92ffdad17b8bd49418f98"
  | "c" => "84a516841ba77a5b4648de2cd0dfcb30ea46dbb4"
  | "d" => "3c363836cf4e16666669a25da280a1865c2d2874"
  | "a:1" => "de89bfaf06245091a7873290a793604612302247"
  | id => id

def env (targetHashedId : Option String) : Env Unit where
  flavor := .async
  hash := hashStepId
  serializer := none
  middleware := MiddlewareManager.fromClient [] []
  request := ⟨0, false, none, "run"⟩
  targetHashedId := targetHashedId

/-- The memos are listed under the user's step IDs. -/
def invocation (memos : List (String × Output)) : Invocation Unit where
  ctx := ⟨0, ⟨[], "id", "event", 0⟩, [], "run"⟩
  memos := memos.foldr (fun m d => d.insert (hashStepId m.1) m.2) ∅
  loggingEnabled := false
  store := ()

end Sample

end Inngest
