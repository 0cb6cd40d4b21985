import Inngest.Middleware

/-!
# The replay engine

`ExecutionV0`, `Step` and `Group` with their synchronous twins. Every step
method reports its step to the execution, which answers from the memos,
raises an interrupt, or lets a `step.run` handler run. The function body
itself is an argument here: any computation that returns a value.
-/

set_option autoImplicit false

namespace Inngest
open ServerLib Errors StepLib Effect Engine

abbrev OutputType := String

structure Serializer where
  serialize : Json → OutputType → Except PyError Json
  deserialize : Json → OutputType → Except PyError Json

/-- What one request fixes: the client, the middleware and the request. `hash`
is `transforms.hash_step_id`. -/
structure Env (σ : Type) where
  flavor : Flavor
  hash : String → String
  serializer : Option Serializer
  middleware : List (Middleware σ)
  request : ServerRequestCtx
  targetHashedId : Option String

def Env.serialize {σ : Type} (env : Env σ) (obj : Json) (typ : Option OutputType) :
    Except PyError Json :=
  match env.serializer, typ with
  | some s, some t => s.serialize obj t
  | _, _ => .ok obj

def Env.deserialize {σ : Type} (env : Env σ) (obj : Json) (typ : Option OutputType) :
    Except PyError Json :=
  match env.serializer, typ with
  | some s, some t => s.deserialize obj t
  | _, _ => .ok obj

/-! ## `ExecutionV0.report_step` -/

structure ReportedStep where
  error : Option PyError
  info : StepInfo
  output : Option Json
  skip : Bool
  deriving DecidableEq, Repr

def ReportedStep.ofInfo (info : StepInfo) : ReportedStep := ⟨none, info, none, false⟩

namespace Execution
variable {σ : Type} (env : Env σ)

def handleSkip (info : StepInfo) : Exec σ Unit :=
  let isTargetingEnabled := env.targetHashedId.isSome
  let isTargeted := env.targetHashedId = some info.id
  if isTargetingEnabled ∧ ¬ isTargeted then Comp.interrupt (.skip info.displayName)
  else Comp.done ()

/-- The first half of `report_step`: the memo is taken, and once no memo is
left `before_execution` runs. Its result is not looked at. -/
def popMemo (info : StepInfo) : Exec σ (Option Output) := do
  let s ← Comp.get
  let (memo, memos) := StepMemos.pop s.memos info.id
  Comp.modify (fun s => { s with memos := memos })
  let r ← Comp.ask
  Comp.mark (.reported info.id memo.isSome r.inParallel)
  if Dict.size memos = 0 then
    let _ ← MiddlewareManager.beforeExecution env.flavor env.middleware
    pure memo
  else
    pure memo

def dispatch (info : StepInfo) : Option Output → Exec σ ReportedStep
  | some memo =>
    match memo.error with
    | some e =>
      pure { ReportedStep.ofInfo info with error := some (stepError e.message e.name e.stack) }
    | none => pure { ReportedStep.ofInfo info with output := some memo.data }
  | none => do
    handleSkip env info
    let isTargetingEnabled := env.targetHashedId.isSome
    let r ← Comp.ask
    if r.inParallel ∧ ¬ isTargetingEnabled then
      let op := if info.op = .stepRun then .planned else info.op
      Comp.interrupt (.response [.ofStep { info with op := op }])
    else if info.op = .stepRun ∧ env.request.disableImmediateExecution
        ∧ ¬ isTargetingEnabled then
      Comp.interrupt (.response [.ofStep { info with op := .planned }])
    else if info.op = .stepRun then
      pure (ReportedStep.ofInfo info)
    else
      Comp.interrupt (.response [.ofStep info])

def reportStep (info : StepInfo) : Exec σ ReportedStep := do
  let memo ← popMemo env info
  dispatch env info memo

end Execution

/-- `ReportedStep.__aenter__` and `__aexit__` around the code of the step.
The opcode that the async version sets before it raises is never read: the
inner step's information is dropped. -/
def ReportedStep.guard {σ α : Type} (step : ReportedStep) (code : Exec σ α) : Exec σ α := do
  let r ← Comp.ask
  if r.inStep then
    Comp.mark (.nestedEnter step.info.id r.running)
    Comp.interrupt .nested
  else
    Comp.within (Scope.inHandler step.info.id) code

/-! ## `Step` -/

/-- The arguments of a step method other than `run`, and what the method does
around `report_step`: it may fail while it builds the options, and it decodes
the memoized output. No such method asks the SDK to run code. -/
structure StepCall where
  stepId : String
  op : Opcode
  name : Option String
  opts : Except PyError (Option (List (String × Json)))
  decode : Json → Except PyError Json
  awaits : op = .sleep ∨ op = .invoke ∨ op = .waitForEvent ∨ op = .aiGateway := by decide

theorem StepCall.not_stepRun (c : StepCall) : c.op ≠ .stepRun := by
  rcases c.awaits with h | h | h | h <;> simp [h]

namespace Step
variable {σ : Type} (env : Env σ)

def parse (stepId : String) : Exec σ ParsedStepID := do
  let s ← Comp.get
  let (parsed, counts) := parseStepId env.hash stepId s.counts
  Comp.modify (fun s => { s with counts := counts })
  let r ← Comp.ask
  Comp.mark (.parsed r.path parsed.hashed r.running)
  pure parsed

/-- `async with await report_step(step_info) as step`, as every step method
has it: a memoized error is raised, a memoized output is decoded and returned,
and otherwise the method goes on. -/
def reported (info : StepInfo) (decode : Json → Except PyError Json) (otherwise : Exec σ Json) :
    Exec σ Json := do
  let step ← Execution.reportStep env info
  step.guard (
    if step.skip then Comp.interrupt (.skip info.displayName)
    else match step.error, step.output with
      | some e, _ => Comp.raise e
      | none, some output => Comp.ofExcept (decode output)
      | none, none => otherwise)

def runInfo (parsed : ParsedStepID) : StepInfo where
  displayName := parsed.userFacing
  id := parsed.hashed
  name := some parsed.userFacing
  op := .stepRun
  opts := none
  userland := some parsed.userlandInfo

def bubbles (e : PyError) : Bool := e.cls = .nonRetriableError ∨ e.cls = .retryAfterError

def failedOp : Opcode :=
  match env.request.maxAttempts with
  | some n => if env.request.attempt + 1 ≥ n then .stepFailed else .stepError
  | none => .stepError

def nestedError : PyError := codedError .stepNested "Nested steps are not supported." false

def conclude (info : StepInfo) : Outcome PyError Interrupt Json → Exec σ Json
  | .ok output => do
    Comp.mark (.leave info.id (.returned output))
    Comp.interrupt (.response [⟨output, none, info⟩])
  | .exc e =>
    if bubbles e then do
      Comp.mark (.leave info.id (.bubbled e))
      Comp.raise e
    else do
      Comp.mark (.leave info.id (.failed e))
      Comp.interrupt (.response [⟨.null, some e, { info with op := failedOp env }⟩])
  | .intr .nested => do
    Comp.mark (.leave info.id .nested)
    Comp.interrupt (.response [⟨.null, some nestedError, { info with op := .stepError }⟩])
  | .intr i => do
    Comp.mark (.leave info.id .interrupted)
    Comp.interrupt i

def execute (info : StepInfo) (outputType : Option OutputType) (handler : Exec σ Json) :
    Exec σ Json := do
  let r ← Comp.ask
  let s ← Comp.get
  Comp.mark (.enter info.id r.inParallel (Dict.size s.memos))
  Comp.afterwards
    (handler >>= fun output => Comp.ofExcept (env.serialize output outputType))
    (conclude env info)

def run (stepId : String) (outputType : Option OutputType) (handler : Exec σ Json) :
    Exec σ Json := do
  let parsed ← parse env stepId
  let info := runInfo parsed
  reported env info (fun output => env.deserialize output outputType)
    (execute env info outputType handler)

def callInfo (c : StepCall) (parsed : ParsedStepID) (opts : Option (List (String × Json))) :
    StepInfo where
  displayName := parsed.userFacing
  id := parsed.hashed
  name := c.name
  op := c.op
  opts := opts
  userland := some parsed.userlandInfo

/-- The body shared by `invoke_by_id`, `sleep_until`, `wait_for_event` and
`AI.infer`. -/
def call (c : StepCall) : Exec σ Json := do
  let parsed ← parse env c.stepId
  let opts ← Comp.ofExcept c.opts
  reported env (callInfo c parsed opts) c.decode
    (Comp.raise (exception "Exception" "unreachable"))

def sleepUntil (stepId until_ : String) : StepCall where
  stepId := stepId
  op := .sleep
  name := some until_
  opts := .ok none
  decode := .ok

/-- `data` is the dumped payload, `null` when no data is given. -/
def invokeById (stepId appId functionId : String) (data : Json) (timeout : Option ℤ)
    (v : Option String) : StepCall where
  stepId := stepId
  op := .invoke
  name := some stepId
  opts := (Transforms.toMaybeDurationStr timeout).map fun t =>
    some [("function_id", .str (appId ++ "-" ++ functionId)),
      ("payload", .obj [("data", data), ("v", v.elim .null .str)]),
      ("timeout", t.elim .null .str)]
  decode := .ok

def invoke (stepId appId functionId : String) (data : Json) (timeout : Option ℤ)
    (v : Option String) (outputType : Option OutputType) : StepCall :=
  { invokeById stepId appId functionId data timeout v with
    decode := fun output => env.deserialize output outputType }

/-- `validate` is `server_lib.Event.model_validate`. -/
def waitForEvent (validate : Json → Except PyError Json) (stepId event : String)
    (ifExp : Option String) (timeout : ℤ) : StepCall where
  stepId := stepId
  op := .waitForEvent
  name := some event
  opts := (Transforms.toDurationStr timeout).map fun t =>
    some [("if", ifExp.elim .null .str), ("timeout", .str t)]
  decode := fun output => match output with
    | .null => .ok .null
    | output => validate output

structure Adapter where
  authKey : String
  format : String
  headers : List (String × Json)
  urlInfer : Option String

def infer (stepId : String) (adapter : Adapter) (body : List (String × Json)) : StepCall where
  stepId := stepId
  op := .aiGateway
  name := some stepId
  opts := .ok (some [("auth_key", .str adapter.authKey), ("body", .obj body),
    ("format", .str adapter.format), ("headers", .obj adapter.headers),
    ("type", .str "step.ai.infer"), ("url", adapter.urlInfer.elim .null .str)])
  decode := .ok

end Step

/-! ## `Group.parallel` -/

namespace Group
variable {σ : Type}

/-- The `except` clauses of the loop: a skip is passed over, a response is
kept, and nothing else is caught. -/
def caught : Interrupt → Option (List StepResponse)
  | .response responses => some responses
  | .skip _ => some []
  | .nested => none

def discover (callables : List (Exec σ Json)) : Exec σ (List Json × List StepResponse) :=
  collect caught (fun responses => [.abandoned responses]) callables [] []

def parallel (callables : List (Exec σ Json)) (mode : ParallelMode) : Exec σ (List Json) :=
  Comp.within Scope.inGroup do
    let (outputs, responses) ← discover callables
    if responses.length > 0 then
      Comp.interrupt (.response (responses.map (fun r => r.setParallelMode mode)))
    else
      pure outputs

end Group

/-! ## `ExecutionV0.run` -/

structure CallItem where
  error : Option PyError
  output : Option Json
  step : Option StepInfo
  deriving DecidableEq, Repr

structure CallResult extends CallItem where
  multi : Option (List CallItem)
  deriving DecidableEq, Repr

namespace CallResult

def ofError (e : PyError) : CallResult := ⟨⟨some e, none, none⟩, none⟩

def ofOutput (output : Json) : CallResult := ⟨⟨none, some output, none⟩, none⟩

def itemOf (r : StepResponse) : CallItem := ⟨r.originalError, some r.output, some r.step⟩

def fromResponses (responses : List StepResponse) : CallResult :=
  ⟨⟨none, none, none⟩, some (responses.map itemOf)⟩

end CallResult

namespace Execution
variable {σ : Type} (env : Env σ)

def afterExecutionThen (result : CallResult) : Exec σ CallResult := do
  match ← MiddlewareManager.afterExecution env.flavor env.middleware with
  | .error e => pure (CallResult.ofError e)
  | .ok _ => pure result

def skipMessage (stepId : String) : String :=
  "found step \"" ++ stepId ++ "\" when targeting a different step"

/-- The `except` clauses of `run`. A nested-step interrupt has none. -/
def finish : Outcome PyError Interrupt Json → Exec σ CallResult
  | .ok output => afterExecutionThen env (CallResult.ofOutput output)
  | .exc e => pure (CallResult.ofError e)
  | .intr (.response responses) => afterExecutionThen env (CallResult.fromResponses responses)
  | .intr (.skip stepId) => pure (CallResult.ofError (stepUnexpectedError (skipMessage stepId)))
  | .intr .nested => Comp.interrupt .nested

def callHandler (body : Exec σ Json) (outputType : Option OutputType) : Exec σ CallResult :=
  Comp.afterwards
    (body >>= fun output => Comp.ofExcept (env.serialize output outputType))
    (finish env)

def run (ctx : Context) (handler : Context → Exec σ Json) (outputType : Option OutputType) :
    Exec σ CallResult := do
  let s ← Comp.get
  match ← MiddlewareManager.transformInput env.flavor env.middleware ctx s.memos with
  | .error e => pure (CallResult.ofError e)
  | .ok (ctx, memos) =>
    Comp.modify (fun s => { s with memos := memos })
    if Dict.size memos = 0 then
      match ← MiddlewareManager.beforeExecution env.flavor env.middleware with
      | some e => pure (CallResult.ofError e)
      | none => callHandler env (handler ctx) outputType
    else
      callHandler env (handler ctx) outputType

end Execution

end Inngest
