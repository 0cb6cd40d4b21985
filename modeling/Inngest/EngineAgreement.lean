import Inngest.AsyncEngine
import Inngest.Decision

/-!
# The two engines agree

A program gives the same run on either engine: with middleware that both
managers accept nothing differs but the coroutines, and these change no
exception but `StopIteration`.
-/

set_option autoImplicit false

namespace Inngest
open ServerLib Errors StepLib Effect Engine

/-! ## Middleware for both managers -/

structure Hooks.IsSync {σ : Type} (m : Hooks σ) : Prop where
  isMiddleware : m.isMiddleware = false
  beforeExecution : m.beforeExecution.isCoroutine = false
  afterExecution : m.afterExecution.isCoroutine = false
  beforeResponse : m.beforeResponse.isCoroutine = false
  transformInput : m.transformInput.isCoroutine = false
  transformOutput : m.transformOutput.isCoroutine = false
  beforeSendEvents : m.beforeSendEvents.isCoroutine = false
  afterSendEvents : m.afterSendEvents.isCoroutine = false

abbrev MiddlewareSync (σ : Type) := {m : Hooks σ // m.IsSync}

namespace MiddlewareManager
variable {σ : Type} {ms : List (Middleware σ)}

def SyncOnly (ms : List (Middleware σ)) : Prop := ∀ m, .user m ∈ ms → m.IsSync

theorem SyncOnly.reverse (h : SyncOnly ms) : SyncOnly ms.reverse :=
  fun m hm => h m (List.mem_reverse.mp hm)

theorem hookLoop_congr {α : Type} {refuse refuse' : Hooks σ → Bool}
    {hook hook' : Hooks σ → Hook σ α}
    (h : ∀ m, .user m ∈ ms → refuse m = refuse' m ∧ hook m = hook' m) (a : α) :
    hookLoop refuse hook ms a = hookLoop refuse' hook' ms a := by
  induction ms generalizing a with
  | nil => rfl
  | cons m ms ih =>
    have hms := fun a => ih (fun m' hm' => h m' (List.mem_cons_of_mem _ hm')) a
    cases m with
    | logger => exact hms a
    | user m =>
      obtain ⟨hrefuse, hhook⟩ := h m (by simp)
      funext r s
      simp only [hookLoop, hrefuse, hhook, hms]

theorem hookLoop_plain {α β : Type} {test : Hooks σ → Hook σ β} (hook : Hooks σ → Hook σ α)
    (h : ∀ m, .user m ∈ ms → (test m).isCoroutine = false) (a : α) :
    hookLoop (refuseCoroutine .async test) hook ms a =
      hookLoop (refuseCoroutine .sync test) hook ms a :=
  hookLoop_congr (fun m hm => ⟨by simp [refuseCoroutine, h m hm], rfl⟩) a

theorem beforeExecutionFrom_plain (h : SyncOnly ms) (i : ℕ) :
    beforeExecutionFrom .async i ms = beforeExecutionFrom .sync i ms := by
  induction ms generalizing i with
  | nil => rfl
  | cons m ms ih =>
    have hm : beforeExecutionOf .async i m = beforeExecutionOf .sync i m := by
      cases m with
      | logger => rfl
      | user m =>
        funext r s
        simp [beforeExecutionOf, (h m (by simp)).beforeExecution]
    rw [beforeExecutionFrom, beforeExecutionFrom, hm,
      ih (fun m' hm' => h m' (List.mem_cons_of_mem _ hm')) (i + 1)]

theorem beforeExecution_plain (h : SyncOnly ms) :
    beforeExecution .async ms = beforeExecution .sync ms := by
  rw [beforeExecution, beforeExecution, beforeExecutionFrom_plain h]

theorem afterExecution_plain (h : SyncOnly ms) :
    afterExecution .async ms = afterExecution .sync ms :=
  hookLoop_plain _ (fun m hm => (h.reverse m hm).afterExecution) ()

theorem beforeResponse_plain (h : SyncOnly ms) :
    beforeResponse .async ms = beforeResponse .sync ms :=
  hookLoop_plain _ (fun m hm => (h m hm).beforeResponse) ()

theorem transformInput_plain (h : SyncOnly ms) (ctx : Context) (steps : StepMemos) :
    transformInput .async ms ctx steps = transformInput .sync ms ctx steps :=
  hookLoop_plain _ (fun m hm => (h m hm).transformInput) (ctx, steps)

theorem transformOutput_plain (h : SyncOnly ms) (result : CallResult) :
    transformOutput .async ms result = transformOutput .sync ms result := by
  have hhooks : transformOutputHooks .async ms = transformOutputHooks .sync ms := by
    funext result
    refine hookLoop_congr (fun m hm => ?_) result
    have hm := h.reverse m hm
    exact ⟨by simp [hm.isMiddleware], by simp only [Hook.called_plain hm.transformOutput]⟩
  have hitem : transformItem .async ms = transformItem .sync ms := by
    funext item
    rw [transformItem, transformItem, hhooks]
  rw [transformOutput, transformOutput, hitem]

theorem beforeSendEvents_plain (h : SyncOnly ms) (events : EventList) :
    beforeSendEvents .async ms events = beforeSendEvents .sync ms events :=
  hookLoop_plain _ (fun m hm => (h m hm).beforeSendEvents) events

theorem afterSendEvents_plain (h : SyncOnly ms) (result : SendEventsResult) :
    afterSendEvents .async ms result = afterSendEvents .sync ms result := by
  refine hookLoop_congr (fun m hm => ?_) result
  have hm := h.reverse m hm
  exact ⟨by simp [refuseCoroutine, hm.afterExecution],
    by simp only [Hook.called_plain hm.afterSendEvents]⟩

end MiddlewareManager

/-! ## Ordinary exceptions -/

namespace Async
variable {σ α : Type}

/-- An exception that coroutines let through as it is. -/
def Ordinary (e : PyError) : Prop := isStopIteration e = false

theorem ordinary_of_cls {e : PyError} (h : e.cls ≠ .stopIteration) : Ordinary e := by
  simp [Ordinary, isStopIteration, h]

theorem coroutine_eq {m : Exec σ α} (h : Raises Ordinary m) : coroutine m = m :=
  Comp.mapExc_eq (fun e he => by simp [leaving, Ordinary] at he ⊢; simp [he]) h

def Proper {α : Type} (x : Except PyError α) : Prop := ∀ e, x = .error e → Ordinary e

end Async

/-! ## The step methods -/

namespace Execution
open Async
variable {σ : Type} (env : Env σ) (info : StepInfo)

theorem raises_popMemo : Raises Ordinary (popMemo env info) := by
  intro r s e h
  rw [(popMemo_done env info r s).outcome] at h
  cases h

theorem raises_dispatch (memo : Option Output) : Raises Ordinary (dispatch env info memo) := by
  intro r s e h
  rw [dispatch_eq] at h
  cases hv : verdict env r info memo <;> simp [hv] at h

end Execution

namespace Step
open Async Execution
variable {σ : Type} (env : Env σ)

theorem proper_remembered {decode : Json → Except PyError Json} (h : ∀ v, Proper (decode v))
    (memo : Output) : Proper (remembered decode memo) := by
  intro e he
  cases hm : memo.error with
  | some err =>
    simp only [remembered, hm, Except.error.injEq] at he
    subst he
    exact ordinary_of_cls (by simp [stepError])
  | none => exact h _ e (by simpa [remembered, hm] using he)

theorem raises_reported {info : StepInfo} {decode : Json → Except PyError Json}
    {otherwise : Exec σ Json} (hdecode : ∀ v, Proper (decode v))
    (hotherwise : Raises Ordinary otherwise) :
    Raises Ordinary (reported env info decode otherwise) := by
  intro r s e h
  rw [reported_eq] at h
  cases hv : verdict env r info (s.memos.lookup info.id) with
  | answer memo =>
    cases hr : r.inStep with
    | true => simp [hv, settle, hr] at h
    | false =>
      simp only [hv, settle, hr, Bool.false_eq_true, if_false, Done.after_outcome] at h
      exact raises_ofExcept (proper_remembered hdecode memo) _ _ e h
  | skip => simp [hv, settle] at h
  | respond op => simp [hv, settle] at h
  | go =>
    cases hr : r.inStep with
    | true => simp [hv, settle, hr] at h
    | false =>
      simp only [hv, settle, hr, Bool.false_eq_true, if_false, Done.after_outcome] at h
      exact hotherwise _ _ e h

theorem raises_execute (info : StepInfo) (outputType : Option OutputType) (handler : Exec σ Json) :
    Raises Ordinary (execute env info outputType handler) := by
  intro r s e h
  rw [execute_eq] at h
  cases ho : serialized env outputType (handler r s).outcome with
  | ok output => simp [ho, endOf] at h
  | exc e' =>
    cases hb : bubbles e' with
    | false => simp [ho, endOf, hb] at h
    | true =>
      simp only [ho, endOf, hb, if_true, Outcome.exc.injEq] at h
      subst h
      refine ordinary_of_cls fun hcls => ?_
      simp [bubbles, hcls] at hb
  | intr i => cases i <;> simp [ho, endOf] at h

theorem raises_run {stepId : String} {outputType : Option OutputType} {handler : Exec σ Json}
    (hdeserialize : ∀ v, Proper (env.deserialize v outputType)) :
    Raises Ordinary (run env stepId outputType handler) := by
  intro r s e h
  rw [run_eq] at h
  exact raises_reported env hdeserialize (raises_execute env _ _ _) _ _ e h

theorem raises_call {c : StepCall} (hopts : Proper c.opts) (hdecode : ∀ v, Proper (c.decode v)) :
    Raises Ordinary (call env c) := by
  intro r s e h
  cases ho : c.opts with
  | error err =>
    rw [call_error env ho] at h
    exact hopts e (ho.trans (congrArg _ (Outcome.exc.inj h)))
  | ok opts =>
    rw [call_eq env ho] at h
    exact raises_reported env hdecode 
      (raises_raise (e := exception "Exception" "unreachable") rfl) _ _ e h

end Step

namespace Async
variable {σ α : Type}

/-! ## `async with` and `with` -/

/-- The asynchronous object of a step that was just reported. -/
def ReportedStep.reported (step : Inngest.ReportedStep) : ReportedStep := ⟨step, true, false, false⟩

def ReportedStep.entered (step : Inngest.ReportedStep) : ReportedStep := ⟨step, true, false, true⟩

theorem ReportedStep.release_ofInfo (info : StepInfo) :
    (ReportedStep.ofInfo info).release =
      ReportedStep.reported (Inngest.ReportedStep.ofInfo info) := rfl

theorem asyncWith_eq (manager : Exec σ Inngest.ReportedStep) (code : ReportedStep → Exec σ α) :
    asyncWith (manager >>= fun step => pure (ReportedStep.reported step)) code =
      manager >>= fun step => step.guard (code (ReportedStep.entered step)) := by
  rw [asyncWith, Comp.bind_assoc]
  refine bind_congr fun step => ?_
  funext r s
  cases hr : r.inStep with
  | true =>
    simp [ReportedStep.reported, ReportedStep.aenter, hr, Inngest.ReportedStep.guard]
  | false =>
    simp [ReportedStep.reported, ReportedStep.aenter, hr, Inngest.ReportedStep.guard,
      ReportedStep.aexit, ReportedStep.entered, Done.after]

namespace ExecutionV0
variable {env : ClientEnv σ}

theorem answer_eq (info : StepInfo) (memo : Option Output) :
    answer env (ReportedStep.ofInfo info).release info memo =
      Execution.dispatch env.sync info memo >>= fun step => pure (ReportedStep.reported step) := by
  cases memo with
  | some memo =>
    cases he : memo.error <;> simp only [answer, Execution.dispatch, he] <;> rfl
  | none =>
    rw [answer, Execution.dispatch, Comp.bind_assoc]
    refine bind_congr fun _ => ?_
    rw [Comp.bind_assoc]
    refine bind_congr fun r => ?_
    funext r' s
    cases ht : env.targetHashedId with
    | none =>
      by_cases hop : info.op = .stepRun <;> cases hp : r.inParallel <;>
        cases hd : env.request.disableImmediateExecution <;>
          simp [ClientEnv.sync, ht, hop, hd, ReportedStep.release_ofInfo]
    | some t =>
      by_cases hop : info.op = .stepRun <;>
        simp [ClientEnv.sync, ht, hop, ReportedStep.release_ofInfo]

theorem reportStep_eq (hms : MiddlewareManager.SyncOnly env.middleware) (info : StepInfo) :
    reportStep env info =
      Execution.reportStep env.sync info >>= fun step => pure (ReportedStep.reported step) := by
  have hpop : Execution.popMemo env.async info = Execution.popMemo env.sync info := by
    simp only [Execution.popMemo, ClientEnv.async, ClientEnv.sync,
      MiddlewareManager.beforeExecution_plain hms]
  rw [reportStep, hpop, Execution.reportStep, Comp.bind_assoc]
  simp only [answer_eq]
  exact coroutine_eq (raises_bind (Execution.raises_popMemo _ _) fun memo =>
    raises_bind (Execution.raises_dispatch _ _ memo) fun step => raises_pure _)

end ExecutionV0

namespace Step
variable {env : ClientEnv σ} (hms : MiddlewareManager.SyncOnly env.middleware)
include hms

theorem reported_eq (info : StepInfo) (decode : Json → Except PyError Json)
    (otherwise : Exec σ Json) :
    asyncWith (ExecutionV0.reportStep env info) (answered info decode otherwise) =
      Step.reported env.sync info decode otherwise := by
  rw [ExecutionV0.reportStep_eq hms, asyncWith_eq]
  rfl

theorem run_eq {outputType : Option OutputType} {handler : Exec σ Json}
    (hdeserialize : ∀ v, Proper (env.deserialize v outputType)) (hhandler : Raises Ordinary handler)
    (stepId : String) :
    run env stepId outputType true handler = StepSync.run env stepId outputType handler := by
  have hawait : awaitHandler true handler = handler := coroutine_eq hhandler
  simp only [run, reported_eq hms, hawait]
  exact coroutine_eq (Step.raises_run env.sync hdeserialize)

theorem call_eq {c : StepCall} (hopts : Proper c.opts) (hdecode : ∀ v, Proper (c.decode v)) :
    call env c = StepSync.call env c := by
  simp only [call, reported_eq hms]
  exact coroutine_eq (Step.raises_call env.sync hopts hdecode)

end Step
end Async

/-! ## Sending events -/

/-- An HTTP client and a reader of replies whose exceptions are ordinary. -/
structure Http.Proper {σ : Type} (http : Http σ) : Prop where
  buildSendRequest : ∀ events s, Async.Proper (http.buildSendRequest events s).2
  fetch : ∀ req s e, (http.fetch req s).2 = .raised e → Async.Ordinary e
  json : ∀ resp, Async.Proper (http.json resp)
  fromRaw : ∀ raw, Async.Proper (http.fromRaw raw)

/-- A hook that raises no `StopIteration`. -/
def Hook.Proper {σ α : Type} (hook : Hook σ α) : Prop :=
  ∀ s a e, (hook.call s a).2 = some e → Async.Ordinary e

theorem Hook.Proper.called {σ α : Type} {hook : Hook σ α} (h : hook.Proper) (flavor : Flavor) :
    (hook.called flavor).Proper := by
  rw [Hook.called]
  split
  · intro s a e he
    cases he
  · exact h

namespace Client
open Async
variable {σ : Type} {env : ClientEnv σ}

theorem raises_act {α : Type} (f : σ → σ × α) : Raises Ordinary (act f) := by
  intro r s e h
  cases h

theorem raises_act_bind {α β : Type} {f : σ → σ × α} {k : α → Exec σ β}
    (hk : ∀ s, Raises Ordinary (k (f s).2)) : Raises Ordinary (act f >>= k) := by
  refine raises_bind_ok (raises_act f) fun a ha => ?_
  obtain ⟨r, s, h⟩ := ha
  exact Outcome.ok.inj h ▸ hk s.store

theorem raises_attempts (hhttp : env.http.Proper) (req : Json) (n : ℕ)
    (resp : Option HttpxResponse) : Raises Ordinary (attempts env req n resp) := by
  induction n generalizing resp with
  | zero => exact raises_pure resp
  | succ n ih =>
    refine raises_act_bind fun s => ?_
    cases hf : (env.http.fetch req s).2 with
    | raised e => exact raises_raise (hhttp.fetch req s e hf)
    | requestError =>
      simp only
      split
      · exact raises_pure _
      · exact ih _
    | response resp =>
      simp only
      split
      · exact raises_pure _
      · exact ih _

theorem raises_sendRequest (hhttp : env.http.Proper) (events : List ServerLib.Event) :
    Raises Ordinary (sendRequest env events) := by
  refine raises_act_bind fun s => ?_
  refine raises_bind (raises_ofExcept (hhttp.buildSendRequest events s)) fun req => ?_
  refine raises_bind (raises_attempts hhttp req _ _) fun resp => ?_
  cases resp with
  | none => exact raises_pure _
  | some resp =>
    refine raises_bind (raises_ofExcept (hhttp.json resp)) fun raw => ?_
    refine raises_bind (raises_ofExcept (hhttp.fromRaw raw)) fun result => ?_
    cases result.error <;> exact raises_pure _

theorem send_eq (hhttp : env.http.Proper) (events : List ServerLib.Event) :
    Async.Client.send env events = sendSync env events :=
  coroutine_eq (raises_sendRequest hhttp events)

end Client

namespace MiddlewareManager
open Async
variable {σ : Type} {ms : List (Middleware σ)}

theorem hookLoop_proper {α : Type} {refuse : Hooks σ → Bool} {hook : Hooks σ → Hook σ α}
    (h : ∀ m, .user m ∈ ms → (hook m).Proper) (a : α) (r : Scope) (s : State σ)
    {x : Except PyError α} (hx : (hookLoop refuse hook ms a r s).outcome = .ok x) : Proper x := by
  induction ms generalizing a s with
  | nil =>
    obtain rfl := Outcome.ok.inj hx
    intro e he
    cases he
  | cons m ms ih =>
    have hms := fun m' hm' => h m' (List.mem_cons_of_mem _ hm')
    cases m with
    | logger => exact ih hms a s hx
    | user m =>
      cases hrefuse : refuse m with
      | true =>
        simp only [hookLoop, hrefuse, if_true, Outcome.ok.injEq] at hx
        subst hx
        intro e he
        obtain rfl := Except.error.inj he
        exact ordinary_of_cls (by decide)
      | false =>
        rw [hookLoop_user hrefuse] at hx
        cases herr : ((hook m).call s.store a).2 with
        | some err =>
          simp only [herr, Outcome.ok.injEq] at hx
          subst hx
          intro e he
          obtain rfl := Except.error.inj he
          exact h m (by simp) s.store a err herr
        | none =>
          rw [herr] at hx
          exact ih hms _ _ hx

theorem raises_hookLoop {α : Type} (refuse : Hooks σ → Bool) (hook : Hooks σ → Hook σ α) (a : α) :
    Raises Ordinary (hookLoop refuse hook ms a) := by
  intro r s e h
  obtain ⟨x, hx⟩ := (hookLoop_spec refuse hook ms a r s).1
  rw [hx] at h
  cases h

end MiddlewareManager

namespace Step
open Async
variable {σ : Type} {env : ClientEnv σ}

/-- The hooks around a send raise no `StopIteration`. -/
structure SendHooks (ms : List (Middleware σ)) : Prop where
  before : ∀ m, .user m ∈ ms → m.beforeSendEvents.Proper
  after : ∀ m, .user m ∈ ms → m.afterSendEvents.Proper

theorem afterSend_eq (hms : MiddlewareManager.SyncOnly env.middleware)
    (result : SendEventsResult) (err : Option PyError) :
    afterSend env .async result err = afterSend env .sync result err := by
  rw [afterSend, afterSend, MiddlewareManager.afterSendEvents_plain hms]

theorem postEvents_eq (hms : MiddlewareManager.SyncOnly env.middleware)
    (hhttp : env.http.Proper) (events : SentEvents) :
    postEvents env .async (Async.Client.send env) events =
      postEvents env .sync (Client.sendSync env) events := by
  have hsend : Async.Client.send env = Client.sendSync env := funext (Client.send_eq hhttp)
  have hafter : afterSend env .async = afterSend env .sync := by
    funext result err
    exact afterSend_eq hms result err
  rw [postEvents, postEvents, MiddlewareManager.beforeSendEvents_plain hms, hsend, hafter]

theorem raises_afterSend (hooks : SendHooks env.middleware) (flavor : Flavor)
    (result : SendEventsResult) {err : Option PyError} (herr : ∀ e, err = some e → Ordinary e) :
    Raises Ordinary (afterSend env flavor result err) := by
  refine raises_bind_ok (MiddlewareManager.raises_hookLoop _ _ _) fun x hx => ?_
  obtain ⟨r, s, hx⟩ := hx
  cases x with
  | error e =>
    refine raises_raise (MiddlewareManager.hookLoop_proper (fun m hm => ?_) _ r s hx e rfl)
    exact (hooks.after m (List.mem_reverse.mp hm)).called flavor
  | ok result =>
    cases err with
    | none => exact raises_pure _
    | some e => exact raises_raise (herr e rfl)

theorem raises_postEvents (hooks : SendHooks env.middleware) (hhttp : env.http.Proper)
    (flavor : Flavor) (events : SentEvents) :
    Raises Ordinary (postEvents env flavor (Client.sendSync env) events) := by
  refine raises_bind_ok (MiddlewareManager.raises_hookLoop _ _ _) fun x hx => ?_
  obtain ⟨r, s, hx⟩ := hx
  cases x with
  | error e => exact raises_raise (MiddlewareManager.hookLoop_proper hooks.before _ r s hx e rfl)
  | ok changed =>
    refine raises_andThen (Client.raises_sendRequest hhttp _) fun x hx => ?_
    rcases x with e | e | ids
    · refine raises_afterSend hooks flavor _ fun e' he' => ?_
      exact Option.some.inj he' ▸ hx e rfl
    · refine raises_afterSend hooks flavor _ fun e' he' => ?_
      obtain rfl := Option.some.inj he'
      exact ordinary_of_cls (by simp [SendEventsError.toPyError, error])
    · exact raises_afterSend hooks flavor _ (by simp)

end Step

/-! ## Programs -/

/-- What the program calls lets no `StopIteration` out: the serializer, the
hooks around a send and the HTTP client. -/
structure ClientEnv.Proper {σ : Type} (env : ClientEnv σ) : Prop where
  deserialize : ∀ v typ, Async.Proper (env.deserialize v typ)
  hooks : Step.SendHooks env.middleware
  http : env.http.Proper

namespace Program
open Async
variable {σ : Type} {env : ClientEnv σ}

/-- No function of the program lets a `StopIteration` out when none came in. -/
def Contained : Program σ → Prop
  | .ret _ => True
  | .raise e => Ordinary e
  | .code _ k => ∀ s, Contained (k s)
  | .look _ _ p => Contained p
  | .log _ _ p => Contained p
  | .site _ p => Contained p
  | .run _ _ handler k => Contained handler ∧ ∀ x, Proper x → Contained (k x)
  | .sendEvent _ _ k => ∀ x, Proper x → Contained (k x)
  | .call c k => (Proper c.opts ∧ ∀ v, Proper (c.decode v)) ∧ ∀ x, Proper x → Contained (k x)
  | .parallel _ callables _ k => (∀ i, Contained (callables i)) ∧ ∀ x, Proper x → Contained (k x)

theorem raises_parallel {callables : List (Exec σ Json)} (mode : ParallelMode)
    (h : ∀ m ∈ callables, Raises Ordinary m) : Raises Ordinary (Group.parallel callables mode) := by
  refine raises_within _ (raises_bind (raises_collect h) fun x => ?_)
  simp only
  split
  · exact raises_interrupt _
  · exact raises_pure _

theorem raises_sendEvent (henv : env.Proper) (stepId : String) (events : SentEvents) :
    Raises Ordinary (StepSync.sendEvent env stepId events) :=
  Step.raises_run env.sync fun v => henv.deserialize v none

theorem raises_getattr (name method : String) :
    Raises Ordinary (FilteredLogger.getattr name method : Exec σ Unit) :=
  raises_bind raises_get fun _ => raises_bind (raises_mark _) fun _ => raises_modify _

theorem raises_logCall (name message : String) :
    Raises Ordinary (FilteredLogger.call name message : Exec σ Unit) := by
  refine raises_bind raises_get fun s => ?_
  cases s.held name with
  | none => exact raises_pure _
  | some found => exact raises_mark _

theorem raises_interpSync (henv : env.Proper) {p : Program σ} (hp : p.Contained) :
    Raises Ordinary (p.interpSync env) := by
  induction p with
  | ret v => exact raises_done v
  | raise e => exact raises_raise hp
  | code f k ih => exact fun r s e h => ih _ (hp _) r _ e h
  | look name method p ih => exact raises_bind (raises_getattr name method) fun _ => ih hp
  | log name message p ih => exact raises_bind (raises_logCall name message) fun _ => ih hp
  | site n p ih => exact raises_within _ (ih hp)
  | run stepId outputType handler k ihh ihk =>
    refine raises_andThen (Step.raises_run env.sync fun v => henv.deserialize v outputType) ?_
    exact fun x hx => raises_within _ (ihk x (hp.2 x hx))
  | sendEvent stepId events k ih =>
    refine raises_andThen (raises_sendEvent henv stepId events) ?_
    exact fun x hx => raises_within _ (ih x (hp x hx))
  | call c k ih =>
    refine raises_andThen (Step.raises_call env.sync hp.1.1 hp.1.2) ?_
    exact fun x hx => raises_within _ (ih x (hp.2 x hx))
  | parallel n callables mode k ihc ihk =>
    refine raises_andThen (raises_parallel mode fun m hm => ?_) fun x hx => ?_
    · obtain ⟨i, rfl⟩ := List.mem_ofFn.mp hm
      exact raises_within _ (ihc i (hp.1 i))
    · exact raises_bind (raises_mark _) fun _ => raises_within _ (ihk x (hp.2 x hx))

theorem sendEvent_eq (hms : MiddlewareManager.SyncOnly env.middleware) (henv : env.Proper)
    (stepId : String) (events : SentEvents) :
    Async.Step.sendEvent env stepId events = StepSync.sendEvent env stepId events := by
  have hfn := Step.raises_postEvents henv.hooks henv.http .sync events
  rw [Async.Step.sendEvent, Step.postEvents_eq hms henv.http,
    Async.Step.run_eq hms (fun v => henv.deserialize v none) hfn]
  exact coroutine_eq (raises_sendEvent henv stepId events)

theorem parallel_eq {callables : List (Exec σ Json)} (mode : ParallelMode)
    (h : ∀ m ∈ callables, Raises Ordinary m) :
    Async.Group.parallel callables mode = Group.parallel callables mode := by
  have hmap : callables.map coroutine = callables := by
    rw [List.map_congr_left fun m hm => coroutine_eq (h m hm), List.map_id']
  rw [Async.Group.parallel, hmap]
  exact coroutine_eq (raises_parallel mode h)

theorem interp_eq (hms : MiddlewareManager.SyncOnly env.middleware) (henv : env.Proper)
    {p : Program σ} (hp : p.Contained) : p.interp env = p.interpSync env := by
  induction p with
  | ret v => rfl
  | raise e => rfl
  | code f k ih =>
    funext r s
    exact congrFun (congrFun (ih (f s.store) (hp _)) r) _
  | look name method p ih => simp only [interp, interpSync, ih hp]
  | log name message p ih => simp only [interp, interpSync, ih hp]
  | site n p ih => simp only [interp, interpSync, ih hp]
  | run stepId outputType handler k ihh ihk =>
    have hhandler := raises_within (σ := State σ) Scope.handler (raises_interpSync henv hp.1)
    rw [interp, interpSync, ihh hp.1,
      Async.Step.run_eq hms (fun v => henv.deserialize v outputType) hhandler]
    refine andThen_congr (Step.raises_run env.sync fun v => henv.deserialize v outputType) ?_
    exact fun x hx => by rw [ihk x (hp.2 x hx)]
  | sendEvent stepId events k ih =>
    rw [interp, interpSync, sendEvent_eq hms henv]
    refine andThen_congr (raises_sendEvent henv stepId events) ?_
    exact fun x hx => by rw [ih x (hp x hx)]
  | call c k ih =>
    rw [interp, interpSync, Async.Step.call_eq hms hp.1.1 hp.1.2]
    refine andThen_congr (Step.raises_call env.sync hp.1.1 hp.1.2) ?_
    exact fun x hx => by rw [ih x (hp.2 x hx)]
  | parallel n callables mode k ihc ihk =>
    have hcallables : ∀ m ∈ List.ofFn fun i =>
        Comp.within (Scope.callable i) ((callables i).interpSync env), Raises Ordinary m := by
      intro m hm
      obtain ⟨i, rfl⟩ := List.mem_ofFn.mp hm
      exact raises_within _ (raises_interpSync henv (hp.1 i))
    rw [interp, interpSync]
    simp only [fun i => ihc i (hp.1 i)]
    rw [parallel_eq mode hcallables]
    refine andThen_congr (raises_parallel mode hcallables) ?_
    exact fun x hx => by rw [ihk x (hp.2 x hx)]

end Program

/-! ## `Function.call` and `Function.call_sync` -/

namespace Execution
open Async
variable {σ : Type} {env : ClientEnv σ}

theorem afterExecutionThen_plain (hms : MiddlewareManager.SyncOnly env.middleware) :
    afterExecutionThen env.async = afterExecutionThen env.sync := by
  funext result
  simp only [afterExecutionThen, ClientEnv.async, ClientEnv.sync,
    MiddlewareManager.afterExecution_plain hms]

theorem callHandler_plain (hms : MiddlewareManager.SyncOnly env.middleware) (body : Exec σ Json)
    (outputType : Option OutputType) :
    callHandler env.async body outputType = callHandler env.sync body outputType := by
  have hfinish : finish env.async = finish env.sync := by
    funext o
    rcases o with output | e | (responses | stepId | -)
    · rw [finish, finish, afterExecutionThen_plain hms]
    · rfl
    · rw [finish, finish, afterExecutionThen_plain hms]
    · rfl
    · rfl
  rw [callHandler, callHandler, hfinish]
  rfl

theorem run_plain (hms : MiddlewareManager.SyncOnly env.middleware) (ctx : Context)
    (handler : Context → Exec σ Json) (outputType : Option OutputType) :
    run env.async ctx handler outputType = run env.sync ctx handler outputType := by
  simp only [run, callHandler_plain hms]
  simp only [ClientEnv.async, ClientEnv.sync, MiddlewareManager.transformInput_plain hms,
    MiddlewareManager.beforeExecution_plain hms]

theorem raises_run (env : Env σ) (ctx : Context) (handler : Context → Exec σ Json)
    (outputType : Option OutputType) : Raises Ordinary (run env ctx handler outputType) := by
  have hafter : ∀ result, Raises Ordinary (afterExecutionThen env result) := by
    intro result
    refine raises_bind (MiddlewareManager.raises_hookLoop _ _ _) fun x => ?_
    cases x <;> exact raises_pure _
  have hcall : ∀ body, Raises Ordinary (callHandler env body outputType) := by
    refine fun body => raises_afterwards fun o => ?_
    rcases o with output | e | (responses | stepId | -)
    · exact hafter _
    · exact raises_pure _
    · exact hafter _
    · exact raises_pure _
    · exact raises_interrupt _
  have hbefore : Raises Ordinary (MiddlewareManager.beforeExecution env.flavor env.middleware) := by
    intro r s e h
    obtain ⟨err, herr, -⟩ :=
      (MiddlewareManager.beforeExecution_done env.flavor env.middleware r s).ran
    rw [herr] at h
    cases h
  refine raises_bind raises_get fun s => ?_
  refine raises_bind (MiddlewareManager.raises_hookLoop _ _ _) fun x => ?_
  rcases x with e | ⟨ctx, memos⟩
  · exact raises_pure _
  refine raises_bind (raises_modify _) fun _ => ?_
  split
  · refine raises_bind hbefore fun err => ?_
    cases err with
    | none => exact hcall _
    | some e => exact raises_pure _
  · exact hcall _

end Execution

namespace ProgramFunction
open Async
variable {σ : Type} {env : ClientEnv σ}

theorem executionV0_run_eq (hms : MiddlewareManager.SyncOnly env.middleware) (ctx : Context)
    {handler : Context → Exec σ Json} (hhandler : ∀ ctx, Raises Ordinary (handler ctx))
    (outputType : Option OutputType) :
    ExecutionV0.run env ctx handler outputType =
      Execution.run env.sync ctx handler outputType := by
  have hcoroutine : (fun ctx => coroutine (handler ctx)) = handler :=
    funext fun ctx => coroutine_eq (hhandler ctx)
  rw [ExecutionV0.run, hcoroutine, Execution.run_plain hms]
  exact coroutine_eq (Execution.raises_run env.sync ctx handler outputType)

theorem afterRun_eq (hms : MiddlewareManager.SyncOnly env.middleware) (result : CallResult) :
    Function.afterRun env.async result = Function.afterRun env.sync result := by
  simp only [Function.afterRun, ClientEnv.async, ClientEnv.sync,
    MiddlewareManager.transformOutput_plain hms, MiddlewareManager.beforeResponse_plain hms]

theorem raises_transformOutput (flavor : Flavor) (ms : List (Middleware σ)) (result : CallResult) :
    Raises Ordinary (MiddlewareManager.transformOutput flavor ms result) := by
  have hitem : ∀ item, Raises Ordinary (MiddlewareManager.transformItem flavor ms item) := by
    intro item
    rw [MiddlewareManager.transformItem]
    split
    · exact raises_pure _
    · refine raises_bind (MiddlewareManager.raises_hookLoop _ _ _) fun x => ?_
      cases x <;> exact raises_pure _
  rw [MiddlewareManager.transformOutput]
  split
  · exact raises_raise (e := exception "IndexError" "list index out of range") rfl
  · refine raises_bind (hitem _) fun x => ?_
    cases x <;> exact raises_pure _
  · exact raises_pure _
  · refine raises_bind (hitem _) fun x => ?_
    cases x <;> exact raises_pure _

theorem raises_afterRun (env : Env σ) (result : CallResult) :
    Raises Ordinary (Function.afterRun env result) := by
  refine raises_bind (raises_transformOutput _ _ _) fun x => ?_
  cases x with
  | error e => exact raises_pure _
  | ok result =>
    refine raises_bind (MiddlewareManager.raises_hookLoop _ _ _) fun x => ?_
    cases x <;> exact raises_pure _

/-- The handlers of the function let no `StopIteration` out. -/
structure Contained (fn : ProgramFunction σ) : Prop where
  handler : ∀ ctx, (fn.handler ctx).Contained
  onFailure : ∀ handler, fn.onFailure = some handler → ∀ ctx, (handler ctx).Contained

theorem Contained.of_select {fn : ProgramFunction σ} (h : fn.Contained) {fnId : String}
    {handler : Context → Program σ} {outputType : Option OutputType}
    (hselect : fn.select fnId = .ok (handler, outputType)) (ctx : Context) :
    (handler ctx).Contained := by
  rw [select] at hselect
  by_cases hmain : fn.id = fnId
  · rw [if_pos hmain] at hselect
    obtain rfl := (Prod.mk.inj (Except.ok.inj hselect)).1
    exact h.handler ctx
  · rw [if_neg hmain] at hselect
    split at hselect
    · cases hfailure : fn.onFailure with
      | none => simp [hfailure] at hselect
      | some onFailure =>
        rw [hfailure] at hselect
        obtain rfl := (Prod.mk.inj (Except.ok.inj hselect)).1
        exact h.onFailure _ hfailure ctx
    · cases hselect

theorem call_eq_callSync (fn : ProgramFunction σ)
    (hms : MiddlewareManager.SyncOnly (addMiddleware env fn).middleware)
    (henv : (addMiddleware env fn).Proper) (hfn : fn.Contained) (fnId : String) (ctx : Context) :
    fn.call env fnId ctx = fn.callSync env fnId ctx := by
  rw [call, callSync]
  cases hselect : fn.select fnId with
  | error e => exact coroutine_eq (raises_pure _)
  | ok x =>
    obtain ⟨handler, outputType⟩ := x
    have hcontained := hfn.of_select hselect
    have hinterp : (fun ctx => (handler ctx).interp (addMiddleware env fn)) =
        fun ctx => (handler ctx).interpSync (addMiddleware env fn) :=
      funext fun ctx => Program.interp_eq hms henv (hcontained ctx)
    have hrun := executionV0_run_eq hms ctx
      (fun ctx => Program.raises_interpSync henv (hcontained ctx)) outputType
    have hafter : Function.afterRun (addMiddleware env fn).async =
        Function.afterRun (addMiddleware env fn).sync := funext (afterRun_eq hms)
    simp only [hinterp, hrun, hafter]
    exact coroutine_eq (raises_bind (Execution.raises_run _ _ _ _) fun result =>
      raises_afterRun _ result)

/-! ## The agreement -/

/-- The function with middleware of its own that derives from `MiddlewareSync`. -/
def withMiddleware (fn : ProgramFunction σ) (own : List (MiddlewareSync σ)) : ProgramFunction σ :=
  { fn with middleware := own.map Subtype.val }

end ProgramFunction

/-- The client's environment with middleware that derives from `MiddlewareSync`. -/
def ClientEnv.withMiddleware {σ : Type} (env : ClientEnv σ) (client : List (MiddlewareSync σ)) :
    ClientEnv σ :=
  { env with middleware := MiddlewareManager.fromClient (client.map Subtype.val) [] }

/-- Nothing that a run calls lets a `StopIteration` out of a coroutine. -/
structure NoStopIteration {σ : Type} (env : ClientEnv σ) (middleware : List (MiddlewareSync σ))
    (fn : ProgramFunction σ) : Prop where
  handlers : fn.Contained
  deserialize : ∀ v typ, Async.Proper (env.deserialize v typ)
  beforeSendEvents : ∀ m ∈ middleware, m.val.beforeSendEvents.Proper
  afterSendEvents : ∀ m ∈ middleware, m.val.afterSendEvents.Proper
  http : env.http.Proper

namespace EngineAgreement
variable {σ : Type}

theorem mem_middleware {env : ClientEnv σ} {client own : List (MiddlewareSync σ)}
    {fn : ProgramFunction σ} {m : Hooks σ}
    (hm : .user m ∈ (ProgramFunction.addMiddleware (env.withMiddleware client)
      (fn.withMiddleware own)).middleware) : ∃ m' ∈ client ++ own, m'.val = m := by
  simp only [ProgramFunction.addMiddleware, ClientEnv.withMiddleware,
    ProgramFunction.withMiddleware, MiddlewareManager.fromClient, List.append_nil,
    List.cons_append, List.mem_cons, reduceCtorEq, false_or, ← List.map_append, List.map_map,
    List.mem_map, Function.comp_apply, Middleware.user.injEq] at hm
  exact hm

/-- The two calls are one run: the same result, the same history of handlers
that were entered, and the same state. The store is any type, so it may hold a
record of every hook that was called and of its argument. -/
theorem engines_agree (env : ClientEnv σ) (client own : List (MiddlewareSync σ))
    (fn : ProgramFunction σ) (h : NoStopIteration env (client ++ own) fn) (fnId : String)
    (ctx : Context) (r : Scope) (s : State σ) :
    (fn.withMiddleware own).call (env.withMiddleware client) fnId ctx r s =
      (fn.withMiddleware own).callSync (env.withMiddleware client) fnId ctx r s := by
  have hms : MiddlewareManager.SyncOnly (ProgramFunction.addMiddleware
      (env.withMiddleware client) (fn.withMiddleware own)).middleware := by
    intro m hm
    obtain ⟨m', -, rfl⟩ := mem_middleware hm
    exact m'.property
  have henv : (ProgramFunction.addMiddleware (env.withMiddleware client)
      (fn.withMiddleware own)).Proper := by
    refine ⟨h.deserialize, ⟨fun m hm => ?_, fun m hm => ?_⟩, h.http⟩
    · obtain ⟨m', hm', rfl⟩ := mem_middleware hm
      exact h.beforeSendEvents m' hm'
    · obtain ⟨m', hm', rfl⟩ := mem_middleware hm
      exact h.afterSendEvents m' hm'
  have hfn : (fn.withMiddleware own).Contained := ⟨h.handlers.handler, h.handlers.onFailure⟩
  rw [ProgramFunction.call_eq_callSync _ hms henv hfn]

/-! Sample runs: a network that accepts every event, and continuations that
return or raise what they get. -/

def network (σ : Type) : Http σ where
  buildSendRequest events s := (s, .ok (.arr (events.map fun e => .str e.name)))
  fetch _ s := (s, .response ⟨200, ""⟩)
  json _ := .ok .null
  fromRaw _ := .ok ⟨none, ["e1"]⟩

theorem network_proper (σ : Type) : (network σ).Proper := by
  constructor <;> intros <;> simp_all [network, Async.Proper]

def pass : Except PyError Json → Program σ
  | .ok v => .ret v
  | .error e => .raise e

theorem pass_contained {x : Except PyError Json} (hx : Async.Proper x) :
    (pass x : Program σ).Contained := by
  cases x with
  | ok v => trivial
  | error e => exact hx e rfl

def noting {α : Type} (name : String) : Hook (List String) α :=
  ⟨false, fun s a => ((s ++ [name], a), none)⟩

theorem noting_proper {α : Type} (name : String) : (noting (α := α) name).Proper := by
  intro s a e he
  cases he

def notes : MiddlewareSync (List String) where
  val := {
    isMiddleware := false
    beforeExecution := noting "before_execution"
    afterExecution := noting "after_execution"
    beforeResponse := noting "before_response"
    transformInput := noting "transform_input"
    transformOutput := noting "transform_output"
    beforeSendEvents := noting "before_send_events"
    afterSendEvents := noting "after_send_events" }
  property := by constructor <;> rfl

def targeting : ClientEnv (List String) where
  flavor := .async
  hash := Sample.hashStepId
  serializer := none
  middleware := []
  request := ⟨0, false, none, "run"⟩
  targetHashedId := some (Sample.hashStepId "b")
  http := network (List String)

def sending : ProgramFunction (List String) where
  id := "fn"
  handler _ := .parallel 2 (fun
    | 0 => .run "a" none (.ret (.int 1)) pass
    | 1 => .sendEvent "b" (.one ⟨[], "", "sent", 0⟩) pass) .wait fun
    | .ok vs => .ret (.arr vs)
    | .error e => .raise e
  outputType := none
  onFailure := none
  middleware := []

def nothingMemoized : State (List String) := ⟨∅, fun _ => 0, false, false, fun _ => none, []⟩

theorem engines_agree_sending :
    ((sending.withMiddleware []).call (targeting.withMiddleware [notes]) "fn"
        (Sample.invocation []).ctx .top nothingMemoized).state.store =
      ["transform_input", "before_execution", "before_send_events", "after_send_events",
        "after_execution", "transform_output", "before_response"] := by
  have hfn : sending.Contained := by
    refine ⟨fun ctx => ⟨fun i => ?_, fun x hx => ?_⟩, by simp [sending]⟩
    · match i with
      | 0 => exact ⟨trivial, fun x hx => pass_contained hx⟩
      | 1 => exact fun x hx => pass_contained hx
    · cases x with
      | ok vs => trivial
      | error e => exact hx e rfl
  have hhooks : ∀ m ∈ [notes] ++ [],
      m.val.beforeSendEvents.Proper ∧ m.val.afterSendEvents.Proper := by
    intro m hm
    obtain rfl : m = notes := by simpa using hm
    exact ⟨noting_proper _, noting_proper _⟩
  have hserializer : ∀ v typ, Async.Proper (targeting.deserialize v typ) := by
    intro v typ e he
    cases typ <;> cases he
  rw [engines_agree targeting [notes] [] sending ⟨hfn, hserializer, fun m hm => (hhooks m hm).1,
    fun m hm => (hhooks m hm).2, network_proper _⟩]
  decide

/-! A handler that lets a `StopIteration` out, as `next` does when an iterator
has come to its end. -/

def host : ClientEnv Unit := { Sample.env none with http := network Unit, middleware := [] }

def exhausted : ProgramFunction Unit where
  id := "fn"
  handler _ := .run "a" none (.raise stopIteration) pass
  outputType := none
  onFailure := none
  middleware := []

def failedWith (e : PyError) : CallResult := CallResult.fromResponses
  [⟨.null, some e, ⟨"a", Sample.hashStepId "a", some "a", .stepError, none, some ⟨"a", none⟩⟩⟩]

theorem stopIteration_converted :
    ((exhausted.withMiddleware []).callSync (host.withMiddleware []) "fn"
        (Sample.invocation []).ctx .top (Sample.invocation []).initial).outcome =
        .ok (failedWith stopIteration) ∧
      ((exhausted.withMiddleware []).call (host.withMiddleware []) "fn"
        (Sample.invocation []).ctx .top (Sample.invocation []).initial).outcome =
        .ok (failedWith (exception "RuntimeError" "coroutine raised StopIteration")) := by
  decide

end EngineAgreement

end Inngest
