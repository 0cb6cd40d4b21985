import Inngest.Response

/-!
# Programs and the synchronous engine

A program is a function body that may also send events. It is written once:
here it runs on `ExecutionV0Sync`, `StepSync` and `GroupSync`, and each of its
functions is an ordinary one.
-/

set_option autoImplicit false

namespace Inngest
open ServerLib Errors StepLib Effect Engine

/-! ## `client.send` and `client.send_sync` -/

structure HttpxResponse where
  statusCode : ℕ
  content : String

/-- What one try to send a request gives; the first is an `httpx.RequestError`. -/
inductive Fetched where
  | requestError
  | response (resp : HttpxResponse)
  | raised (e : PyError)

/-- What the client needs to send events. The two engines have the same network
behind their HTTP clients; `fromRaw` is `SendEventsResult.from_raw`. -/
structure Http (σ : Type) where
  buildSendRequest : List ServerLib.Event → σ → σ × Except PyError Json
  fetch : Json → σ → σ × Fetched
  json : HttpxResponse → Except PyError Json
  fromRaw : Json → Except PyError SendEventsResult

structure ClientEnv (σ : Type) extends Env σ where
  http : Http σ

structure SendEventsError where
  message : String
  ids : List String
  deriving DecidableEq, Repr

def SendEventsError.toPyError (e : SendEventsError) : PyError :=
  error "SendEventsError" .sendEventFailed e.message

def act {σ α : Type} (f : σ → σ × α) : Exec σ α := fun _ s =>
  ⟨.ok (f s.store).2, { s with store := (f s.store).1 }, []⟩

namespace Client
variable {σ : Type} (env : ClientEnv σ)

def maxSendAttempts : ℕ := 5

/-- Only a 5xx response and no response at all are tried again. -/
def settled (resp : Option HttpxResponse) : Bool := resp.any fun resp => resp.statusCode < 500

def attempts (req : Json) : ℕ → Option HttpxResponse → Exec σ (Option HttpxResponse)
  | 0, resp => pure resp
  | n + 1, resp => do
    let fetched ← act (env.http.fetch req)
    match fetched with
    | .raised e => Comp.raise e
    | .requestError => if settled resp then pure resp else attempts req n resp
    | .response resp => if settled (some resp) then pure (some resp) else attempts req n (some resp)

/-- `send(events, skip_middleware=True)`. A `SendEventsError` is handed out as
a value, since it carries the ids that were sent. -/
def sendRequest (events : List ServerLib.Event) :
    Exec σ (Except SendEventsError (List String)) := do
  let built ← act (env.http.buildSendRequest events)
  let req ← Comp.ofExcept built
  let resp ← attempts env req maxSendAttempts none
  match resp with
  | none => pure (.error ⟨"never received response while sending events", []⟩)
  | some resp => do
    let raw ← Comp.ofExcept (env.http.json resp)
    let result ← Comp.ofExcept (env.http.fromRaw raw)
    match result.error with
    | some message => pure (.error ⟨message, result.ids⟩)
    | none => pure (.ok result.ids)

def sendSync (events : List ServerLib.Event) : Exec σ (Except SendEventsError (List String)) :=
  sendRequest env events

end Client

/-! ## The handler of `send_event` -/

inductive SentEvents where
  | one (event : ServerLib.Event)
  | many (events : EventList)

namespace SentEvents

def list : SentEvents → EventList
  | .one event => ⟨fun _ => event, [0]⟩
  | .many events => events

/-- What the argument is after the hooks: an event may be changed in place, but
the list around a single event is not the argument. -/
def after : SentEvents → EventList → List ServerLib.Event
  | .one _, changed => [changed.heap 0]
  | .many _, changed => changed.events

end SentEvents

namespace Step
variable {σ : Type} (env : ClientEnv σ) (flavor : Flavor)

/-- The `finally` block: an error of the hooks replaces the one of the send. -/
def afterSend (result : SendEventsResult) (err : Option PyError) : Exec σ Json := do
  match ← MiddlewareManager.afterSendEvents flavor env.middleware result with
  | .error e => Comp.raise e
  | .ok result =>
    match err with
    | some e => Comp.raise e
    | none => pure (.arr (result.ids.map .str))

def postEvents (send : List ServerLib.Event → Exec σ (Except SendEventsError (List String)))
    (events : SentEvents) : Exec σ Json := do
  match ← MiddlewareManager.beforeSendEvents flavor env.middleware events.list with
  | .error e => Comp.raise e
  | .ok changed => (send (events.after changed)).andThen fun
    | .ok (.ok ids) => afterSend env flavor ⟨none, ids⟩ none
    | .ok (.error e) => afterSend env flavor ⟨some e.message, e.ids⟩ (some e.toPyError)
    | .error e => afterSend env flavor ⟨some e.message, []⟩ (some e)

end Step

/-! ## Programs -/

/-- As for a `Body`: a continuation gets the value or the exception of a step
method, and `raise` is an exception that leaves the function. -/
inductive Program (σ : Type) : Type where
  | ret (v : Json)
  | raise (e : PyError)
  | code (f : σ → σ) (k : σ → Program σ)
  | look (name method : String) (p : Program σ)
  | log (name message : String) (p : Program σ)
  | site (n : ℕ) (p : Program σ)
  | run (stepId : String) (outputType : Option OutputType) (handler : Program σ)
      (k : Except PyError Json → Program σ)
  | sendEvent (stepId : String) (events : SentEvents) (k : Except PyError Json → Program σ)
  | call (c : StepCall) (k : Except PyError Json → Program σ)
  | parallel (n : ℕ) (callables : Fin n → Program σ) (mode : ParallelMode)
      (k : Except PyError (List Json) → Program σ)

def ClientEnv.sync {σ : Type} (env : ClientEnv σ) : Env σ := { env.toEnv with flavor := .sync }

namespace StepSync
variable {σ : Type} (env : ClientEnv σ)

def run (stepId : String) (outputType : Option OutputType) (handler : Exec σ Json) :
    Exec σ Json :=
  Step.run env.sync stepId outputType handler

def call (c : StepCall) : Exec σ Json := Step.call env.sync c

def sendEvent (stepId : String) (events : SentEvents) : Exec σ Json :=
  run env stepId none (Step.postEvents env .sync (Client.sendSync env) events)

end StepSync

namespace Program
variable {σ : Type} (env : ClientEnv σ)

def interpSync : Program σ → Exec σ Json
  | .ret v => Comp.done v
  | .raise e => Comp.raise e
  | .code f k => fun r s => interpSync (k (f s.store)) r { s with store := f s.store }
  | .look name method p => do
    FilteredLogger.getattr name method
    interpSync p
  | .log name message p => do
    FilteredLogger.call name message
    interpSync p
  | .site n p => Comp.within (Scope.site n) (interpSync p)
  | .run stepId outputType handler k =>
    (StepSync.run env stepId outputType (Comp.within Scope.handler (interpSync handler))).andThen
      (fun x => Comp.within Scope.next (interpSync (k x)))
  | .sendEvent stepId events k =>
    (StepSync.sendEvent env stepId events).andThen
      (fun x => Comp.within Scope.next (interpSync (k x)))
  | .call c k =>
    (StepSync.call env c).andThen (fun x => Comp.within Scope.next (interpSync (k x)))
  | .parallel n callables mode k =>
    (Group.parallel
      (List.ofFn fun i => Comp.within (Scope.callable i) (interpSync (callables i))) mode).andThen
      (fun x => do
        Comp.mark (.groupEnded (Body.completes n x))
        Comp.within Scope.next (interpSync (k x)))

end Program

/-! ## `Function.call_sync` -/

/-- A function whose handlers are programs, with the middleware of its own. -/
structure ProgramFunction (σ : Type) where
  id : String
  handler : Context → Program σ
  outputType : Option OutputType
  onFailure : Option (Context → Program σ)
  middleware : List (Hooks σ)

namespace ProgramFunction
variable {σ : Type} (env : ClientEnv σ) (fn : ProgramFunction σ) (fnId : String)

def addMiddleware : ClientEnv σ :=
  { env with middleware := env.middleware ++ fn.middleware.map .user }

def onFailureFnId : Option String := fn.onFailure.map fun _ => fn.id ++ "-failure"

def select : Except PyError ((Context → Program σ) × Option OutputType) :=
  if fn.id = fnId then .ok (fn.handler, fn.outputType)
  else if fn.onFailureFnId = some fnId then
    match fn.onFailure with
    | none => .error (functionNotFoundError "on_failure not defined")
    | some handler => .ok (handler, some "object")
  else .error (functionNotFoundError "function ID mismatch")

def callSync (ctx : Context) : Exec σ CallResult :=
  let env := addMiddleware env fn
  match fn.select fnId with
  | .error e => pure (CallResult.ofError e)
  | .ok (handler, outputType) => do
    let result ← Execution.run env.sync ctx (fun ctx => (handler ctx).interpSync env) outputType
    Function.afterRun env.sync result

end ProgramFunction

/-! ## Bodies as programs

A body runs as the program that it is. -/

namespace Body
variable {σ : Type}

def program : Body σ → Program σ
  | .ret v => .ret v
  | .raise e => .raise e
  | .code f k => .code f fun s => program (k s)
  | .look name method b => .look name method (program b)
  | .log name message b => .log name message (program b)
  | .site n b => .site n (program b)
  | .run stepId outputType handler k =>
    .run stepId outputType (program handler) fun x => program (k x)
  | .call c k => .call c fun x => program (k x)
  | .parallel n callables mode k =>
    .parallel n (fun i => program (callables i)) mode fun x => program (k x)

theorem program_interpSync (env : ClientEnv σ) (b : Body σ) :
    b.program.interpSync env = b.interp env.sync := by
  induction b with
  | ret v => rfl
  | raise e => rfl
  | code f k ih =>
    funext r s
    exact congrFun (congrFun (ih (f s.store)) r) _
  | look name method b ih => simp only [program, Program.interpSync, interp, ih]
  | log name message b ih => simp only [program, Program.interpSync, interp, ih]
  | site n b ih => simp only [program, Program.interpSync, interp, ih]
  | run stepId outputType handler k ihh ihk =>
    simp only [program, Program.interpSync, interp, StepSync.run, ihh, ihk]
  | call c k ih => simp only [program, Program.interpSync, interp, StepSync.call, ih]
  | parallel n callables mode k ihc ihk =>
    simp only [program, Program.interpSync, interp, ihc, ihk]

end Body

namespace Function
variable {σ : Type}

/-- The function with its bodies as programs; the middleware of its own is
already with the manager. -/
def toProgram (fn : Function σ) : ProgramFunction σ where
  id := fn.id
  handler := fun ctx => (fn.handler ctx).program
  outputType := fn.outputType
  onFailure := fn.onFailure.map fun handler ctx => (handler ctx).program
  middleware := []

theorem toProgram_callSync (env : ClientEnv σ) (fn : Function σ) (fnId : String) (ctx : Context) :
    fn.toProgram.callSync env fnId ctx = fn.call env.sync fnId ctx := by
  have hadd : ProgramFunction.addMiddleware env fn.toProgram = env := by
    simp [ProgramFunction.addMiddleware, toProgram]
  have hid : fn.toProgram.onFailureFnId = fn.onFailureFnId := by
    cases h : fn.onFailure <;> simp [ProgramFunction.onFailureFnId, onFailureFnId, toProgram, h]
  rw [ProgramFunction.callSync, call, hadd, ProgramFunction.select, select, hid]
  by_cases hmain : fn.id = fnId
  · simp [toProgram, hmain, Body.program_interpSync]
  · by_cases hfailure : fn.onFailureFnId = some fnId
    · cases h : fn.onFailure with
      | none => simp [toProgram, hmain, hfailure, h]
      | some handler => simp [toProgram, hmain, hfailure, h, Body.program_interpSync]
    · simp [toProgram, hmain, hfailure]

end Function

end Inngest
