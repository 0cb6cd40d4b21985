import Inngest.Program

/-!
# The asynchronous engine

`ExecutionV0`, `Step` and `Group`, with what only they have: coroutines, and a
reported step with two futures, whose opcode is rewritten when it is found to
be nested. Where the text is that of the synchronous class, it is shared.
-/

set_option autoImplicit false

namespace Inngest
open ServerLib Errors StepLib Effect Engine

def ClientEnv.async {σ : Type} (env : ClientEnv σ) : Env σ := { env.toEnv with flavor := .async }

namespace Async
variable {σ α : Type}

/-! ## Coroutines -/

def isStopIteration (e : PyError) : Bool := e.cls = .stopIteration

/-- What leaves a coroutine when `e` is raised in it and not caught. -/
def leaving (e : PyError) : PyError :=
  if isStopIteration e then exception "RuntimeError" "coroutine raised StopIteration" else e

def coroutine (m : Exec σ α) : Exec σ α := m.mapExc leaving

/-! ## `ReportedStep` -/

/-- The two signals tell whether the futures are done, the token whether there
is one. -/
structure ReportedStep extends Inngest.ReportedStep where
  releaseSignal : Bool
  doneSignal : Bool
  inStepToken : Bool

namespace ReportedStep

def ofInfo (info : StepInfo) : ReportedStep :=
  ⟨Inngest.ReportedStep.ofInfo info, false, false, false⟩

def release (step : ReportedStep) : ReportedStep :=
  if step.releaseSignal then step else { step with releaseSignal := true }

/-- `__aenter__`: the step as it is left, and the interrupt that is raised. -/
def aenter (step : ReportedStep) (inStep : Bool) : ReportedStep × Option Interrupt :=
  if inStep then ({ step with info := { step.info with op := .stepError } }, some .nested)
  else ({ step with inStepToken := true }, none)

def missingToken : PyError := exception "UnreachableError" "missing in_step token"

def invalidState : PyError := exception "InvalidStateError" "invalid state"

def aexit (step : ReportedStep) : Except PyError ReportedStep :=
  if step.inStepToken then
    if step.doneSignal then .error invalidState else .ok { step with doneSignal := true }
  else .error missingToken

end ReportedStep

def asyncWith (reported : Exec σ ReportedStep) (code : ReportedStep → Exec σ α) : Exec σ α := do
  let step ← reported
  let r ← Comp.ask
  match step.aenter r.inStep with
  | (step, some i) => do
    Comp.mark (.nestedEnter step.info.id r.running)
    Comp.interrupt i
  | (step, none) =>
    Comp.afterwards (Comp.within (Scope.inHandler step.info.id) (code step)) fun outcome =>
      match step.aexit with
      | .error e => Comp.raise e
      | .ok _ => Comp.ofOutcome outcome

/-! ## `ExecutionV0` -/

namespace ExecutionV0
variable (env : ClientEnv σ)

def answer (step : ReportedStep) (info : StepInfo) : Option Output → Exec σ ReportedStep
  | some memo =>
    match memo.error with
    | some e => pure { step with error := some (stepError e.message e.name e.stack) }
    | none => pure { step with output := some memo.data }
  | none => do
    Execution.handleSkip env.async info
    let isTargetingEnabled := env.targetHashedId.isSome
    let r ← Comp.ask
    if r.inParallel ∧ ¬ isTargetingEnabled then
      let op := if info.op = .stepRun then .planned else info.op
      Comp.interrupt (.response [.ofStep { info with op := op }])
    else if info.op = .stepRun ∧ env.request.disableImmediateExecution
        ∧ ¬ isTargetingEnabled then
      Comp.interrupt (.response [.ofStep { info with op := .planned }])
    else if info.op = .stepRun then
      pure step
    else
      Comp.interrupt (.response [.ofStep info])

def reportStep (info : StepInfo) : Exec σ ReportedStep := coroutine do
  let step := (ReportedStep.ofInfo info).release
  let memo ← Execution.popMemo env.async info
  answer env step info memo

/-- `run` awaits the function's handler and the manager's methods. -/
def run (ctx : Context) (handler : Context → Exec σ Json) (outputType : Option OutputType) :
    Exec σ CallResult :=
  coroutine (Execution.run env.async ctx (fun ctx => coroutine (handler ctx)) outputType)

end ExecutionV0

/-! ## `Step` and `Group` -/

namespace Client
variable (env : ClientEnv σ)

def send (events : List ServerLib.Event) : Exec σ (Except SendEventsError (List String)) :=
  coroutine (Client.sendRequest env events)

end Client

namespace Step
variable (env : ClientEnv σ)

/-- The code under `async with`, as every step method has it. -/
def answered (info : StepInfo) (decode : Json → Except PyError Json) (otherwise : Exec σ Json)
    (step : ReportedStep) : Exec σ Json :=
  if step.skip then Comp.interrupt (.skip info.displayName)
  else match step.error, step.output with
    | some e, _ => Comp.raise e
    | none, some output => Comp.ofExcept (decode output)
    | none, none => otherwise

/-- A coroutine function is awaited; what any other handler returns is awaited
when it is awaitable. -/
def awaitHandler (isCoroutineFunction : Bool) (handler : Exec σ Json) : Exec σ Json :=
  if isCoroutineFunction then coroutine handler else handler

def run (stepId : String) (outputType : Option OutputType) (isCoroutineFunction : Bool)
    (handler : Exec σ Json) : Exec σ Json := coroutine do
  let parsed ← Step.parse env.async stepId
  let info := Step.runInfo parsed
  asyncWith (ExecutionV0.reportStep env info)
    (answered info (fun output => env.deserialize output outputType)
      (Step.execute env.async info outputType (awaitHandler isCoroutineFunction handler)))

def call (c : StepCall) : Exec σ Json := coroutine do
  let parsed ← Step.parse env.async c.stepId
  let opts ← Comp.ofExcept c.opts
  let info := Step.callInfo c parsed opts
  asyncWith (ExecutionV0.reportStep env info)
    (answered info c.decode (Comp.raise (exception "Exception" "unreachable")))

def sendEvent (stepId : String) (events : SentEvents) : Exec σ Json :=
  coroutine (run env stepId none true
    (Step.postEvents env .async (Client.send env) events))

end Step

namespace Group

def parallel (callables : List (Exec σ Json)) (mode : ParallelMode) : Exec σ (List Json) :=
  coroutine (Inngest.Group.parallel (callables.map coroutine) mode)

end Group
end Async

namespace Program
variable {σ : Type} (env : ClientEnv σ)

def interp : Program σ → Exec σ Json
  | .ret v => Comp.done v
  | .raise e => Comp.raise e
  | .code f k => fun r s => interp (k (f s.store)) r { s with store := f s.store }
  | .look name method p => do
    FilteredLogger.getattr name method
    interp p
  | .log name message p => do
    FilteredLogger.call name message
    interp p
  | .site n p => Comp.within (Scope.site n) (interp p)
  | .run stepId outputType handler k =>
    (Async.Step.run env stepId outputType true
      (Comp.within Scope.handler (interp handler))).andThen
      (fun x => Comp.within Scope.next (interp (k x)))
  | .sendEvent stepId events k =>
    (Async.Step.sendEvent env stepId events).andThen
      (fun x => Comp.within Scope.next (interp (k x)))
  | .call c k =>
    (Async.Step.call env c).andThen (fun x => Comp.within Scope.next (interp (k x)))
  | .parallel n callables mode k =>
    (Async.Group.parallel
      (List.ofFn fun i => Comp.within (Scope.callable i) (interp (callables i))) mode).andThen
      (fun x => do
        Comp.mark (.groupEnded (Body.completes n x))
        Comp.within Scope.next (interp (k x)))

end Program

def ProgramFunction.call {σ : Type} (env : ClientEnv σ) (fn : ProgramFunction σ) (fnId : String)
    (ctx : Context) : Exec σ CallResult := Async.coroutine <|
  let env := addMiddleware env fn
  match fn.select fnId with
  | .error e => pure (CallResult.ofError e)
  | .ok (handler, outputType) => do
    let result ← Async.ExecutionV0.run env ctx (fun ctx => (handler ctx).interp env) outputType
    Function.afterRun env.async result

end Inngest
