import Inngest.AsyncEngine

/-!
# Middleware and network under observation

Every hook that runs, every request that is built and every request that is
posted leaves a call behind. The calls are kept beside the user's store, and
no code reads them.
-/

set_option autoImplicit false

namespace Inngest
open ServerLib Errors StepLib Effect Engine

inductive HookName where
  | beforeExecution
  | afterExecution
  | beforeResponse
  | transformInput
  | transformOutput
  | beforeSendEvents
  deriving DecidableEq, Repr

inductive ObservedCall where
  | hook (name : HookName) (index : ℕ)
  | afterSendEvents (index : ℕ) (result : SendEventsResult)
  | buildSendRequest (events : List ServerLib.Event)
  | post (req : Json)
  deriving DecidableEq

namespace ObservedCall

def posted : ObservedCall → Option Json
  | .post req => some req
  | _ => none

def built : ObservedCall → Option (List ServerLib.Event)
  | .buildSendRequest events => some events
  | _ => none

/-- A call of `after_send_events`, with the middleware and the argument. -/
def sent : ObservedCall → Option (ℕ × SendEventsResult)
  | .afterSendEvents i result => some (i, result)
  | _ => none

end ObservedCall

structure Observed (σ : Type) where
  store : σ
  calls : List ObservedCall

namespace Observed
variable {σ : Type} (o : Observed σ)

def posts : List Json := o.calls.filterMap ObservedCall.posted

def builds : List (List ServerLib.Event) := o.calls.filterMap ObservedCall.built

def sends : List (ℕ × SendEventsResult) := o.calls.filterMap ObservedCall.sent

end Observed

def Engine.State.observed {σ : Type} (s : State σ) (calls : List ObservedCall) :
    State (Observed σ) :=
  ⟨s.memos, s.counts, s.beforeExecutionCalled, s.loggingEnabled, s.held, ⟨s.store, calls⟩⟩

/-! ## Hooks -/

namespace Hook
variable {σ α : Type}

def observed (hook : Hook σ α) (calls : α → List ObservedCall) : Hook (Observed σ) α where
  isCoroutine := hook.isCoroutine
  call o a :=
    let ((store, a'), err) := hook.call o.store a
    ((⟨store, o.calls ++ calls a⟩, a'), err)

@[simp] theorem observed_isCoroutine (hook : Hook σ α) (calls : α → List ObservedCall) :
    (hook.observed calls).isCoroutine = hook.isCoroutine := rfl

@[simp] theorem observed_call (hook : Hook σ α) (calls : α → List ObservedCall) (o : Observed σ)
    (a : α) :
    (hook.observed calls).call o a =
      ((⟨(hook.call o.store a).1.1, o.calls ++ calls a⟩, (hook.call o.store a).1.2),
        (hook.call o.store a).2) := rfl

def runs (flavor : Flavor) (hook : Hook σ α) : Prop := flavor = .sync → hook.isCoroutine = false

instance (flavor : Flavor) (hook : Hook σ α) : Decidable (hook.runs flavor) :=
  inferInstanceAs (Decidable (_ → _))

theorem observed_called (flavor : Flavor) (hook : Hook σ α) (calls : α → List ObservedCall) :
    (hook.observed calls).called flavor =
      (hook.called flavor).observed fun a => if hook.runs flavor then calls a else [] := by
  by_cases h : flavor = .sync ∧ hook.isCoroutine = true
  · simp [called, observed, runs, h]
  · have hruns : hook.runs flavor := by simpa [runs] using h
    simp [called, observed, h, hruns]

end Hook

def Hooks.observed {σ : Type} (i : ℕ) (m : Hooks σ) : Hooks (Observed σ) where
  isMiddleware := m.isMiddleware
  beforeExecution := m.beforeExecution.observed fun _ => [.hook .beforeExecution i]
  afterExecution := m.afterExecution.observed fun _ => [.hook .afterExecution i]
  beforeResponse := m.beforeResponse.observed fun _ => [.hook .beforeResponse i]
  transformInput := m.transformInput.observed fun _ => [.hook .transformInput i]
  transformOutput := m.transformOutput.observed fun _ => [.hook .transformOutput i]
  beforeSendEvents := m.beforeSendEvents.observed fun _ => [.hook .beforeSendEvents i]
  afterSendEvents := m.afterSendEvents.observed fun result => [.afterSendEvents i result]

def Middleware.observed {σ : Type} : Middleware σ × ℕ → Middleware (Observed σ)
  | (.logger, _) => .logger
  | (.user m, i) => .user (m.observed i)

namespace MiddlewareManager
variable {σ α : Type}

def observed (ms : List (Middleware σ)) : List (Middleware (Observed σ)) :=
  ms.zipIdx.map Middleware.observed

theorem observed_reverse (ms : List (Middleware σ)) :
    (observed ms).reverse = ms.zipIdx.reverse.map Middleware.observed := by
  rw [observed, List.map_reverse]

/-- The calls that the loop of the manager makes, in the form that is asked for. -/
def loopCalls {β : Type} (refuse : Hooks σ → Bool) (hook : Hooks σ → Hook σ α)
    (calls : Hooks σ → ℕ → α → List β) : List (Middleware σ × ℕ) → α → σ → List β
  | [], _, _ => []
  | (.logger, _) :: xs, a, s => loopCalls refuse hook calls xs a s
  | (.user m, i) :: xs, a, s =>
    if refuse m then []
    else
      let ((s', a'), err) := (hook m).call s a
      calls m i a ++ match err with
        | some _ => []
        | none => loopCalls refuse hook calls xs a' s'

section Loop
variable (refuse : Hooks σ → Bool) (hook : Hooks σ → Hook σ α)
  (calls : Hooks σ → ℕ → α → List ObservedCall) (refuse' : Hooks (Observed σ) → Bool)
  (hook' : Hooks (Observed σ) → Hook (Observed σ) α)

theorem hookLoop_observed (hrefuse : ∀ m i, refuse' (Hooks.observed i m) = refuse m)
    (hhook : ∀ m i, hook' (Hooks.observed i m) = (hook m).observed (calls m i))
    (xs : List (Middleware σ × ℕ)) (a : α) (r : Scope) (s : State σ) (before : List ObservedCall) :
    hookLoop refuse' hook' (xs.map Middleware.observed) a r (s.observed before) =
      let d := hookLoop refuse hook (xs.map Prod.fst) a r s
      ⟨d.outcome, d.state.observed (before ++ loopCalls refuse hook calls xs a s.store), []⟩ := by
  induction xs generalizing a s before with
  | nil => simp [hookLoop, loopCalls]
  | cons x xs ih =>
    obtain ⟨m, i⟩ := x
    cases m with
    | logger => exact ih a s before
    | user m =>
      simp only [List.map_cons, Middleware.observed, hookLoop, loopCalls, hrefuse, hhook]
      by_cases h : refuse m = true
      · simp [h]
      · simp only [h, Bool.false_eq_true, if_false]
        cases herr : ((hook m).call s.store a).2 with
        | some e =>
          simp only [State.observed, Hook.observed_call, herr, List.append_nil]
        | none =>
          have hrest := ih ((hook m).call s.store a).1.2
            { s with store := ((hook m).call s.store a).1.1 } (before ++ calls m i a)
          simp only [State.observed, Hook.observed_call, herr] at hrest ⊢
          rw [hrest, List.append_assoc]

theorem filterMap_loopCalls {β : Type} {f : ObservedCall → Option β}
    (h : ∀ m i a, (calls m i a).filterMap f = []) (xs : List (Middleware σ × ℕ)) (a : α) (s : σ) :
    (loopCalls refuse hook calls xs a s).filterMap f = [] := by
  induction xs generalizing a s with
  | nil => rfl
  | cons x xs ih =>
    obtain ⟨m, i⟩ := x
    cases m with
    | logger => exact ih a s
    | user m =>
      simp only [loopCalls]
      split
      · rfl
      · rw [List.filterMap_append, h, List.nil_append]
        split
        · rfl
        · exact ih _ _

end Loop

variable (flavor : Flavor) (ms : List (Middleware σ)) (r : Scope) (s : State σ)
  (before : List ObservedCall)

def beforeSendCalls (events : EventList) (store : σ) : List ObservedCall :=
  loopCalls (refuseCoroutine flavor Hooks.beforeSendEvents) Hooks.beforeSendEvents
    (fun _ i _ => [.hook .beforeSendEvents i]) ms.zipIdx events store

theorem beforeSendEvents_observed (events : EventList) :
    beforeSendEvents flavor (observed ms) events r (s.observed before) =
      let d := beforeSendEvents flavor ms events r s
      ⟨d.outcome, d.state.observed (before ++ beforeSendCalls flavor ms events s.store), []⟩ := by
  have h := hookLoop_observed (refuseCoroutine flavor Hooks.beforeSendEvents)
    Hooks.beforeSendEvents (fun _ i _ => [.hook .beforeSendEvents i])
    (refuseCoroutine flavor Hooks.beforeSendEvents) Hooks.beforeSendEvents
    (fun m i => rfl) (fun m i => rfl) ms.zipIdx events r s before
  rwa [List.zipIdx_map_fst] at h

def afterSendCalls (result : SendEventsResult) (store : σ) : List ObservedCall :=
  loopCalls (refuseCoroutine flavor Hooks.afterExecution) (fun m => m.afterSendEvents.called flavor)
    (fun m i result => if m.afterSendEvents.runs flavor then [.afterSendEvents i result] else [])
    ms.zipIdx.reverse result store

theorem afterSendEvents_observed (result : SendEventsResult) :
    afterSendEvents flavor (observed ms) result r (s.observed before) =
      let d := afterSendEvents flavor ms result r s
      ⟨d.outcome, d.state.observed (before ++ afterSendCalls flavor ms result s.store), []⟩ := by
  have h := hookLoop_observed (refuseCoroutine flavor Hooks.afterExecution)
    (fun m => m.afterSendEvents.called flavor)
    (fun m i result => if m.afterSendEvents.runs flavor then [.afterSendEvents i result] else [])
    (refuseCoroutine flavor Hooks.afterExecution) (fun m => m.afterSendEvents.called flavor)
    (fun m i => rfl) (fun m i => Hook.observed_called flavor m.afterSendEvents _)
    ms.zipIdx.reverse result r s before
  rw [← observed_reverse, List.map_reverse, List.zipIdx_map_fst] at h
  exact h

end MiddlewareManager

/-! ## The network -/

/-- The `n`-th request gets the `n`-th outcome, and `none` is a transport error. -/
def Http.observed {σ : Type} (http : Http σ) (outcomes : ℕ → Option HttpxResponse) :
    Http (Observed σ) where
  buildSendRequest events o :=
    let (store, req) := http.buildSendRequest events o.store
    (⟨store, o.calls ++ [.buildSendRequest events]⟩, req)
  fetch req o :=
    (⟨o.store, o.calls ++ [.post req]⟩,
      match outcomes o.posts.length with
      | none => .requestError
      | some resp => .response resp)
  json := http.json
  fromRaw := http.fromRaw

def ClientEnv.observed {σ : Type} (env : ClientEnv σ) (outcomes : ℕ → Option HttpxResponse) :
    ClientEnv (Observed σ) where
  flavor := env.flavor
  hash := env.hash
  serializer := env.serializer
  middleware := MiddlewareManager.observed env.middleware
  request := env.request
  targetHashedId := env.targetHashedId
  http := env.http.observed outcomes

end Inngest
