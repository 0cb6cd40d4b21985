import Inngest.Effect
import Inngest.StepLib

/-!
# The engine's computations and the middleware manager

A request runs as a computation over the memo map, the step ID counter, the
set of disabled hooks, the logging flag and the user's own store. The two
context variables of the engine, `in_parallel` and `in_step`, are the dynamic
scope: a token is always reset in a `finally` or an exit method. The history
records what happened; no part of the engine reads it.
-/

set_option autoImplicit false

namespace Inngest
open ServerLib Errors StepLib Effect

namespace Engine

inductive HandlerExit where
  | returned (output : Json)
  | failed (e : PyError)
  | bubbled (e : PyError)
  | nested
  | interrupted
  deriving DecidableEq, Repr

inductive Mark where
  | parsed (at_ : List ℕ) (hashedId : String) (running : Option String)
  | reported (hashedId : String) (memoized inParallel : Bool)
  | enter (hashedId : String) (inParallel : Bool) (memosLeft : ℕ)
  | leave (hashedId : String) (how : HandlerExit)
  | nestedEnter (hashedId : String) (running : Option String)
  | abandoned (responses : List StepResponse)
  /-- the code goes on after a group, which gave an output for each callable or not -/
  | groupEnded (complete : Bool)
  /-- the hook of one middleware, with its error or the refusal to call it -/
  | beforeExecution (index : ℕ) (raised : Option PyError)
  /-- an attribute of `ctx.logger`, given a name -/
  | looked (name method : String) (forwards : Bool)
  | logged (name method message : String) (forwarded : Bool)
  deriving DecidableEq, Repr

/-- The two context variables, and for the history the step whose handler is
running and the place in the function body, innermost index first. -/
structure Scope where
  inParallel : Bool
  inStep : Bool
  running : Option String
  path : List ℕ
  deriving DecidableEq, Repr

namespace Scope

def top : Scope := ⟨false, false, none, [0]⟩

def inGroup (r : Scope) : Scope := { r with inParallel := true }

def inHandler (id : String) (r : Scope) : Scope := { r with inStep := true, running := some id }

def nextPlace : List ℕ → List ℕ
  | [] => [1]
  | n :: rest => (n + 1) :: rest

def next (r : Scope) : Scope := { r with path := nextPlace r.path }

def sitePlace (n : ℕ) : List ℕ → List ℕ
  | [] => [n]
  | m :: rest => max m n :: rest

def site (n : ℕ) (r : Scope) : Scope := { r with path := sitePlace n r.path }

def callable (i : ℕ) (r : Scope) : Scope := { r with path := 0 :: i :: r.path }

def handler (r : Scope) : Scope := { r with path := 0 :: r.path }

@[simp] theorem inGroup_inParallel (r : Scope) : r.inGroup.inParallel = true := rfl
@[simp] theorem inGroup_inStep (r : Scope) : r.inGroup.inStep = r.inStep := rfl
@[simp] theorem inGroup_running (r : Scope) : r.inGroup.running = r.running := rfl
@[simp] theorem inHandler_inParallel (id : String) (r : Scope) :
    (r.inHandler id).inParallel = r.inParallel := rfl
@[simp] theorem inHandler_inStep (id : String) (r : Scope) : (r.inHandler id).inStep = true := rfl
@[simp] theorem inHandler_running (id : String) (r : Scope) :
    (r.inHandler id).running = some id := rfl
@[simp] theorem next_inParallel (r : Scope) : r.next.inParallel = r.inParallel := rfl
@[simp] theorem next_inStep (r : Scope) : r.next.inStep = r.inStep := rfl
@[simp] theorem site_inParallel (n : ℕ) (r : Scope) : (r.site n).inParallel = r.inParallel := rfl
@[simp] theorem site_inStep (n : ℕ) (r : Scope) : (r.site n).inStep = r.inStep := rfl
@[simp] theorem callable_inParallel (i : ℕ) (r : Scope) :
    (r.callable i).inParallel = r.inParallel := rfl
@[simp] theorem callable_inStep (i : ℕ) (r : Scope) : (r.callable i).inStep = r.inStep := rfl
@[simp] theorem handler_inParallel (r : Scope) : r.handler.inParallel = r.inParallel := rfl
@[simp] theorem handler_inStep (r : Scope) : r.handler.inStep = r.inStep := rfl

end Scope

/-- What `FilteredLogger.__getattr__` hands out: the method of the underlying
logger, or a function that does nothing. -/
structure LogMethod where
  method : String
  forwards : Bool
  deriving DecidableEq, Repr

structure State (σ : Type) where
  memos : StepMemos
  counts : StepIDCounter
  /-- `"before_execution"` is among the manager's disabled hooks -/
  beforeExecutionCalled : Bool
  /-- the context variable of `log.py` -/
  loggingEnabled : Bool
  /-- the names that the code gave to attributes of `ctx.logger` -/
  held : String → Option LogMethod
  store : σ

abbrev Exec (σ α : Type) := Comp Scope (State σ) Mark PyError Interrupt α

abbrev Run (σ α : Type) := Done (State σ) Mark PyError Interrupt α

end Engine

open Engine

/-! ## Middleware -/

structure Context where
  attempt : ℕ
  event : ServerLib.Event
  events : List ServerLib.Event
  runId : String
  deriving DecidableEq, Repr

structure TransformOutputStepInfo where
  id : String
  op : Opcode
  opts : Option (List (String × Json))
  deriving DecidableEq, Repr

/-- `output = none` is the empty sentinel. The `opts` of the step are the
dictionary of the call result itself, so a change to it in place is kept. -/
structure TransformOutputResult where
  error : Option PyError
  output : Option Json
  step : Option TransformOutputStepInfo
  deriving DecidableEq, Repr

structure SendEventsResult where
  error : Option String
  ids : List String
  deriving DecidableEq, Repr

/-- A list of event objects, which are known by where they are. An object can
be changed in place, also after it was taken out of the list. -/
structure EventList where
  heap : ℕ → ServerLib.Event
  refs : List ℕ

namespace EventList

def events (l : EventList) : List ServerLib.Event := l.refs.map l.heap

def write (l : EventList) (events : List ServerLib.Event) : EventList :=
  { l with
    heap := (l.refs.zip events).foldl (fun heap x i => if i = x.1 then x.2 else heap i) l.heap }

end EventList

structure Hook (σ α : Type) where
  isCoroutine : Bool
  call : σ → α → (σ × α) × Option PyError

namespace Hook
variable {σ α : Type}

def noop : Hook σ α := ⟨false, fun s a => ((s, a), none)⟩

def inPlace (hook : Hook σ (List ServerLib.Event)) : Hook σ EventList where
  isCoroutine := hook.isCoroutine
  call s l :=
    let ((s, events), err) := hook.call s l.events
    ((s, l.write events), err)

end Hook

structure Hooks (σ : Type) where
  /-- `isinstance(m, Middleware)`: the base class for coroutine hooks -/
  isMiddleware : Bool := false
  beforeExecution : Hook σ Unit := .noop
  afterExecution : Hook σ Unit := .noop
  beforeResponse : Hook σ Unit := .noop
  transformInput : Hook σ (Context × StepMemos) := .noop
  transformOutput : Hook σ TransformOutputResult := .noop
  beforeSendEvents : Hook σ EventList := .noop
  afterSendEvents : Hook σ SendEventsResult := .noop

inductive Middleware (σ : Type) where
  | logger
  | user (hooks : Hooks σ)

/-- The two execution classes share one body; they differ in what the
middleware manager does with a coroutine hook. -/
inductive Flavor where
  | async
  | sync
  deriving DecidableEq, Repr

/-- What a call of the hook does. Without an event loop a coroutine is made and
not awaited. -/
def Hook.called {σ α : Type} (hook : Hook σ α) (flavor : Flavor) : Hook σ α :=
  if flavor = .sync ∧ hook.isCoroutine then { hook with call := fun s a => ((s, a), none) }
  else hook

theorem Hook.called_plain {σ α : Type} {hook : Hook σ α} (h : hook.isCoroutine = false)
    (flavor : Flavor) : hook.called flavor = hook := by
  simp [called, h]

namespace MiddlewareManager
variable {σ : Type}

def mismatchedSync : PyError :=
  asyncUnsupportedError "encountered async middleware in non-async context"

/-- `from_client` followed by the `add` calls of `Function.call`. -/
def fromClient (client fn : List (Hooks σ)) : List (Middleware σ) :=
  .logger :: (client ++ fn).map .user

/-- One middleware's `before_execution`; the index is its place in the list. -/
def beforeExecutionOf (flavor : Flavor) (i : ℕ) : Middleware σ → Exec σ (Option PyError)
  | .logger => fun _ s =>
    ⟨.ok none, { s with loggingEnabled := true }, [.beforeExecution i none]⟩
  | .user m => fun _ s =>
    if flavor = .sync ∧ m.beforeExecution.isCoroutine then
      ⟨.ok (some mismatchedSync), s, [.beforeExecution i (some mismatchedSync)]⟩
    else
      let ((store, _), err) := m.beforeExecution.call s.store ()
      ⟨.ok err, { s with store := store }, [.beforeExecution i err]⟩

def beforeExecutionFrom (flavor : Flavor) : ℕ → List (Middleware σ) → Exec σ (Option PyError)
  | _, [] => Comp.done none
  | i, m :: ms => do
    match ← beforeExecutionOf flavor i m with
    | some e => pure (some e)
    | none => beforeExecutionFrom flavor (i + 1) ms

/-- Only the first call of a request runs the hooks. -/
def beforeExecution (flavor : Flavor) (middleware : List (Middleware σ)) :
    Exec σ (Option PyError) := do
  let s ← Comp.get
  if s.beforeExecutionCalled then
    pure none
  else
    Comp.modify (fun s => { s with beforeExecutionCalled := true })
    beforeExecutionFrom flavor 0 middleware

/-- The loop shared by the remaining hooks: the argument is threaded through
the middleware, and the first refusal or exception ends it. `LoggerMiddleware`
inherits hooks that do nothing; its `transform_input` wraps `ctx.logger`, which
is what makes `ctx.logger` a `FilteredLogger`. -/
def hookLoop {α : Type} (refuse : Hooks σ → Bool) (hook : Hooks σ → Hook σ α) :
    List (Middleware σ) → α → Exec σ (Except PyError α)
  | [], a => Comp.done (.ok a)
  | .logger :: ms, a => hookLoop refuse hook ms a
  | .user m :: ms, a => fun r s =>
    if refuse m then ⟨.ok (.error mismatchedSync), s, []⟩
    else
      let ((store, a'), err) := (hook m).call s.store a
      match err with
      | some e => ⟨.ok (.error e), { s with store := store }, []⟩
      | none => hookLoop refuse hook ms a' r { s with store := store }

def refuseCoroutine {α : Type} (flavor : Flavor) (hook : Hooks σ → Hook σ α) (m : Hooks σ) :
    Bool :=
  flavor = .sync ∧ (hook m).isCoroutine

def afterExecution (flavor : Flavor) (middleware : List (Middleware σ)) :
    Exec σ (Except PyError Unit) :=
  hookLoop (refuseCoroutine flavor Hooks.afterExecution) Hooks.afterExecution
    middleware.reverse ()

def beforeResponse (flavor : Flavor) (middleware : List (Middleware σ)) :
    Exec σ (Except PyError Unit) :=
  hookLoop (refuseCoroutine flavor Hooks.beforeResponse) Hooks.beforeResponse middleware ()

def transformInput (flavor : Flavor) (middleware : List (Middleware σ))
    (ctx : Context) (steps : StepMemos) : Exec σ (Except PyError (Context × StepMemos)) :=
  hookLoop (refuseCoroutine flavor Hooks.transformInput) Hooks.transformInput
    middleware (ctx, steps)

/-- `transform_output_sync` tests for the class, not for the hook. -/
def transformOutputHooks (flavor : Flavor) (middleware : List (Middleware σ))
    (result : TransformOutputResult) : Exec σ (Except PyError TransformOutputResult) :=
  hookLoop (fun m => flavor = .sync ∧ m.isMiddleware) (fun m => m.transformOutput.called flavor)
    middleware.reverse result

def beforeSendEvents (flavor : Flavor) (middleware : List (Middleware σ)) (events : EventList) :
    Exec σ (Except PyError EventList) :=
  hookLoop (refuseCoroutine flavor Hooks.beforeSendEvents) Hooks.beforeSendEvents middleware events

def afterSendEvents (flavor : Flavor) (middleware : List (Middleware σ))
    (result : SendEventsResult) : Exec σ (Except PyError SendEventsResult) :=
  hookLoop (refuseCoroutine flavor Hooks.afterExecution) (fun m => m.afterSendEvents.called flavor)
    middleware.reverse result

/-! What the hooks can touch: the store, and for `before_execution` the
logging flag. -/

def SameButStore (s s' : State σ) : Prop := s' = { s with store := s'.store }

theorem SameButStore.trans {s t u : State σ} (h : SameButStore s t) (h' : SameButStore t u) :
    SameButStore s u := by
  rw [SameButStore] at *
  rw [h', h]

theorem hookLoop_user {α : Type} {refuse : Hooks σ → Bool} {hook : Hooks σ → Hook σ α}
    {m : Hooks σ} (h : refuse m = false) (ms : List (Middleware σ)) (a : α) (r : Scope)
    (s : State σ) :
    hookLoop refuse hook (.user m :: ms) a r s =
      match ((hook m).call s.store a).2 with
      | some e => ⟨.ok (.error e), { s with store := ((hook m).call s.store a).1.1 }, []⟩
      | none => hookLoop refuse hook ms ((hook m).call s.store a).1.2 r
          { s with store := ((hook m).call s.store a).1.1 } := by
  simp only [hookLoop, h]
  rfl

theorem hookLoop_spec {α : Type} (refuse : Hooks σ → Bool) (hook : Hooks σ → Hook σ α)
    (ms : List (Middleware σ)) (a : α) (r : Scope) (s : State σ) :
    (∃ x, (hookLoop refuse hook ms a r s).outcome = .ok x) ∧
      SameButStore s (hookLoop refuse hook ms a r s).state ∧
      (hookLoop refuse hook ms a r s).log = [] := by
  induction ms generalizing a s with
  | nil => exact ⟨⟨_, rfl⟩, rfl, rfl⟩
  | cons m ms ih =>
    cases m with
    | logger => exact ih a s
    | user m =>
      simp only [hookLoop]
      split
      · exact ⟨⟨_, rfl⟩, rfl, rfl⟩
      · split
        · exact ⟨⟨_, rfl⟩, rfl, rfl⟩
        · obtain ⟨h₁, h₂, h₃⟩ := ih ((hook m).call s.store a).1.2
            { s with store := ((hook m).call s.store a).1.1 }
          have h : SameButStore s { s with store := ((hook m).call s.store a).1.1 } := rfl
          exact ⟨h₁, h.trans h₂, h₃⟩

theorem hookLoop_append {α : Type} {refuse : Hooks σ → Bool} {hook : Hooks σ → Hook σ α}
    {xs ys : List (Middleware σ)} {a c : α} {r : Scope} {s : State σ}
    (h : (hookLoop refuse hook (xs ++ ys) a r s).outcome = .ok (.ok c)) :
    ∃ b t, (hookLoop refuse hook xs a r s).outcome = .ok (.ok b) ∧
      (hookLoop refuse hook ys b r t).outcome = .ok (.ok c) := by
  induction xs generalizing a s with
  | nil => exact ⟨a, s, rfl, h⟩
  | cons x xs ih =>
    cases x with
    | logger => exact ih h
    | user m =>
      cases hrefuse : refuse m with
      | true => simp [hookLoop, hrefuse] at h
      | false =>
        rw [List.cons_append, hookLoop_user hrefuse] at h
        rw [hookLoop_user hrefuse]
        cases herr : ((hook m).call s.store a).2 with
        | some e => simp [herr] at h
        | none =>
          simp only [herr] at h ⊢
          exact ih h

structure HookFrame (s s' : State σ) : Prop where
  memos : s'.memos = s.memos
  counts : s'.counts = s.counts
  logging : s.loggingEnabled → s'.loggingEnabled
  held : s'.held = s.held

theorem HookFrame.refl (s : State σ) : HookFrame s s := ⟨rfl, rfl, id, rfl⟩

theorem HookFrame.trans {s t u : State σ} (h : HookFrame s t) (h' : HookFrame t u) :
    HookFrame s u :=
  ⟨h'.memos.trans h.memos, h'.counts.trans h.counts, fun e => h'.logging (h.logging e),
    h'.held.trans h.held⟩

/-- The marks of `n` hooks that were called, from the `i`-th on, and did not
raise. -/
def hookMarks (i n : ℕ) : List Mark := (List.range' i n).map (fun j => .beforeExecution j none)

theorem hookMarks_succ (i n : ℕ) :
    hookMarks i (n + 1) = .beforeExecution i none :: hookMarks (i + 1) n := by
  simp [hookMarks, List.range'_succ]

def HooksRan (i n : ℕ) (log : List Mark) : Option PyError → Prop
  | none => log = hookMarks i n
  | some e => ∃ k < n, log = hookMarks i k ++ [.beforeExecution (i + k) (some e)]

structure HooksDone (i n : ℕ) (s : State σ) (d : Run σ (Option PyError)) : Prop where
  frame : HookFrame s d.state
  called : d.state.beforeExecutionCalled = s.beforeExecutionCalled
  ran : ∃ err, d.outcome = .ok err ∧ HooksRan i n d.log err

theorem beforeExecutionOf_done (flavor : Flavor) (i : ℕ) (m : Middleware σ) (r : Scope)
    (s : State σ) : HooksDone i 1 s (beforeExecutionOf flavor i m r s) := by
  cases m with
  | logger => exact ⟨⟨rfl, rfl, fun _ => rfl, rfl⟩, rfl, none, rfl, rfl⟩
  | user m =>
    simp only [beforeExecutionOf]
    split
    · exact ⟨HookFrame.refl s, rfl, some _, rfl, 0, by omega, rfl⟩
    · refine ⟨⟨rfl, rfl, id, rfl⟩, rfl, _, rfl, ?_⟩
      cases (m.beforeExecution.call s.store ()).2 with
      | none => rfl
      | some e => exact ⟨0, by omega, rfl⟩

theorem hooksRan_append {i n : ℕ} {log log' : List Mark} {err : Option PyError}
    (h : HooksRan i 1 log none) (h' : HooksRan (i + 1) n log' err) :
    HooksRan i (n + 1) (log ++ log') err := by
  have hl : log = [.beforeExecution i none] := h
  subst hl
  cases err with
  | none =>
    rw [HooksRan, hookMarks_succ]
    exact congrArg _ h'
  | some e =>
    obtain ⟨k, hk, rfl⟩ := h'
    refine ⟨k + 1, by omega, ?_⟩
    rw [hookMarks_succ]
    simp
    omega

theorem hooksRan_weaken {i n : ℕ} {log : List Mark} {e : PyError}
    (h : HooksRan i 1 log (some e)) : HooksRan i (n + 1) log (some e) := by
  obtain ⟨k, hk, hm⟩ := h
  exact ⟨k, by omega, hm⟩

theorem beforeExecutionFrom_done (flavor : Flavor) (i : ℕ) (ms : List (Middleware σ)) (r : Scope)
    (s : State σ) : HooksDone i ms.length s (beforeExecutionFrom flavor i ms r s) := by
  induction ms generalizing i s with
  | nil => exact ⟨HookFrame.refl s, rfl, none, rfl, rfl⟩
  | cons m ms ih =>
    obtain ⟨hf, hc, err, ho, hr⟩ := beforeExecutionOf_done flavor i m r s
    rw [beforeExecutionFrom, Comp.bind_ok ho]
    cases err with
    | some e => exact ⟨hf, hc, some e, rfl, by simpa using hooksRan_weaken hr⟩
    | none =>
      obtain ⟨hf', hc', err', ho', hr'⟩ := ih (i + 1) (beforeExecutionOf flavor i m r s).state
      exact ⟨hf.trans hf', hc'.trans hc, err', ho', hooksRan_append hr hr'⟩

theorem beforeExecution_again {flavor : Flavor} {ms : List (Middleware σ)} {r : Scope}
    {s : State σ} (h : s.beforeExecutionCalled = true) :
    beforeExecution flavor ms r s = ⟨.ok none, s, []⟩ := by
  simp [beforeExecution, h]

theorem beforeExecution_first {flavor : Flavor} {ms : List (Middleware σ)} {r : Scope}
    {s : State σ} (h : s.beforeExecutionCalled = false) :
    beforeExecution flavor ms r s =
      beforeExecutionFrom flavor 0 ms r { s with beforeExecutionCalled := true } := by
  simp [beforeExecution, h]

def LoggerFirst (ms : List (Middleware σ)) : Prop := ∃ rest, ms = .logger :: rest

theorem loggerFirst_fromClient (client fn : List (Hooks σ)) :
    LoggerFirst (fromClient client fn) := ⟨_, rfl⟩

theorem beforeExecutionFrom_logging {flavor : Flavor} {ms : List (Middleware σ)}
    (h : LoggerFirst ms) (r : Scope) (s : State σ) :
    (beforeExecutionFrom flavor 0 ms r s).state.loggingEnabled = true := by
  obtain ⟨rest, rfl⟩ := h
  exact (beforeExecutionFrom_done flavor 1 rest r
    { s with loggingEnabled := true }).frame.logging rfl

structure BeforeExecutionDone (ms : List (Middleware σ)) (s : State σ)
    (d : Run σ (Option PyError)) : Prop where
  frame : HookFrame s d.state
  called : d.state.beforeExecutionCalled = true
  ran : ∃ err, d.outcome = .ok err ∧
    (s.beforeExecutionCalled = true ∧ err = none ∧ d.state = s ∧ d.log = [] ∨
      s.beforeExecutionCalled = false ∧ HooksRan 0 ms.length d.log err ∧
        (LoggerFirst ms → d.state.loggingEnabled = true))

theorem beforeExecution_done (flavor : Flavor) (ms : List (Middleware σ)) (r : Scope)
    (s : State σ) : BeforeExecutionDone ms s (beforeExecution flavor ms r s) := by
  cases h : s.beforeExecutionCalled with
  | true =>
    rw [beforeExecution_again h]
    exact ⟨HookFrame.refl s, h, none, rfl, .inl ⟨h, rfl, rfl, rfl⟩⟩
  | false =>
    rw [beforeExecution_first h]
    obtain ⟨hf, hc, err, ho, hr⟩ :=
      beforeExecutionFrom_done flavor 0 ms r { s with beforeExecutionCalled := true }
    exact ⟨⟨hf.memos, hf.counts, hf.logging, hf.held⟩, hc, err, ho,
      .inr ⟨h, hr, fun hl => beforeExecutionFrom_logging hl r _⟩⟩

end MiddlewareManager

end Inngest
