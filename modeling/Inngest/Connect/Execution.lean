import Inngest.Connect.Buffer
import Inngest.Connect.State

/-!
# `ExecutionHandler`: the executions

A request's task goes from the acknowledgement over the user's function to the
reply. The tasks are numbered in the order of their acceptance; the pending
map and the lease extender know a request's data by the number of its task,
so that a new lease is seen wherever the data is held.
-/

set_option autoImplicit false

namespace Inngest.Connect
open Errors

inductive Stage where
  | created
  | waitingWs
  | acking (n : ℕ)
  | executing
  | replying (n : ℕ)
  | failing (n : ℕ)
  | cancelling
  | finished
  | removed
  deriving DecidableEq, Repr

/-- The task is done; `removed` says that its callback has run too. -/
def Stage.done : Stage → Bool
  | .finished | .removed => true
  | _ => false

/-- `nacked`: an acknowledgement without a new lease has been processed for
this request. The code keeps no such flag. -/
structure Execution where
  req : GatewayExecutorRequestData
  stage : Stage
  nacked : Bool
  deriving DecidableEq, Repr

structure Reply where
  task : ℕ
  payload : Bytes
  deriving DecidableEq, Repr

abbrev ReplyBuffer := SizeConstrainedBuffer Reply

def Reply.len (r : Reply) : ℕ := r.payload.length

inductive LeaseMark where
  | accepted (id lease : String)
  | acked (id lease : String)
  | nacked (id : String)
  | removed (id : String)
  | extended (data : WorkerRequestExtendLeaseData)
  deriving DecidableEq, Repr

/-- What happens to a reply, by the number of its task. `replying` is the
moment before the send is attempted. -/
inductive ReplyMark where
  | stored (i : ℕ) (id : String)
  | rejected (i : ℕ)
  | evicted (i : ℕ)
  | replying (i : ℕ)
  | acked (id : String)
  | flushStart (i : ℕ)
  | flushEnd (i : ℕ)
  deriving DecidableEq, Repr

structure Executions where
  closing : Bool
  tasks : List Execution
  pending : OrderedDict String ℕ

namespace Executions
variable (cfg : Config) (x : Executions)

def initial : Executions := ⟨false, [], .empty⟩

def setStage (i : ℕ) (stage : Stage) : Executions :=
  { x with tasks := x.tasks.modify i fun e => { e with stage := stage } }

/-! ## The messages -/

def add (req : GatewayExecutorRequestData) : Executions :=
  { x with
    tasks := x.tasks ++ [⟨req, .created, false⟩]
    pending := x.pending.put req.requestId x.tasks.length }

def accepts (msg : GatewayMessage) : Option GatewayExecutorRequestData :=
  match msg with
  | .executorRequest (.ok req) =>
    if x.closing then none
    else if req.appName ∈ cfg.apps.map AppConfig.appId then some req else none
  | _ => none

def cancel (e : Execution) : Execution :=
  { e with stage := if e.stage.done then e.stage else .cancelling, nacked := true }

def renew (lease : String) (e : Execution) : Execution :=
  { e with req := { e.req with leaseId := lease } }

def leaseExtendAck (data : WorkerRequestExtendLeaseAckData) : Executions × List LeaseMark :=
  match x.pending.lookup data.requestId with
  | none => (x, [])
  | some i =>
    let lease := data.newLeaseId.getD ""
    if lease ≠ "" then
      ({ x with tasks := x.tasks.modify i (renew lease) }, [.acked data.requestId lease])
    else
      ({ x with tasks := x.tasks.modify i cancel }, [.nacked data.requestId])

end Executions

structure ExecutionState where
  state : State
  executions : Executions
  buffer : ReplyBuffer
  leases : List LeaseMark
  replies : List ReplyMark

namespace ExecutionState
variable (cfg : Config) (w : ExecutionState)

def add (req : GatewayExecutorRequestData) : ExecutionState :=
  { w with
    executions := w.executions.add req
    state := { w.state with
      pendingRequestCount :=
        w.state.pendingRequestCount.set (w.state.pendingRequestCount.value + 1) }
    leases := .accepted req.requestId req.leaseId :: w.leases }

def leaseExtendAck (data : WorkerRequestExtendLeaseAckData) : ExecutionState :=
  let r := w.executions.leaseExtendAck data
  { w with executions := r.1, leases := r.2 ++ w.leases }

def workerReplyAck (data : WorkerReplyAckData) : ExecutionState :=
  { w with
    buffer := w.buffer.delete Reply.len data.requestId
    replies := .acked data.requestId :: w.replies }

def handleMsg (msg : GatewayMessage) : ExecutionState :=
  match msg with
  | .executorRequest _ =>
    match w.executions.accepts cfg msg with
    | some req => w.add req
    | none => w
  | .extendLeaseAck (.ok data) => w.leaseExtendAck data
  | .replyAck (.ok data) => w.workerReplyAck data
  | _ => w

/-- The done callback: it takes the request's entry, whichever task put it
there. -/
def callback (i : ℕ) : ExecutionState :=
  match w.executions.tasks[i]? with
  | none => w
  | some e =>
    let removed := w.executions.setStage i .removed
    match w.executions.pending.lookup e.req.requestId with
    | none => { w with executions := removed }
    | some _ =>
      { w with
        executions := { removed with pending := removed.pending.erase e.req.requestId }
        state := { w.state with
          pendingRequestCount :=
            w.state.pendingRequestCount.set (w.state.pendingRequestCount.value - 1) }
        leases := .removed e.req.requestId :: w.leases }

end ExecutionState

/-! ## `_execute_request` -/

structure ExecutionBlock where
  state : State
  stage : Stage
  sent : Option (ℕ × WorkerMessage)
  buffer : ReplyBuffer
  replies : List ReplyMark

namespace ExecuteRequest
variable (cfg : Config) (i : ℕ) (req : GatewayExecutorRequestData) (now : ℚ)

def noWebSocket : PyError := exception "Exception" "No WebSocket connection"

def status (res : CommResponse) : SDKResponseStatus :=
  if res.statusCode = 200 then .done else if res.statusCode = 206 then .notCompleted else .error

/-- The header properties of `CommResponse` and the request make the reply. -/
def sdkResponse (res : CommResponse) (body : Bytes) : SDKResponse where
  accountId := req.accountId
  appId := req.appId
  body := body
  envId := req.envId
  noRetry := res.headers.lookup "x-inngest-no-retry" = some "true"
  requestId := req.requestId
  requestVersion := (res.headers.lookup "x-inngest-req-version").bind cfg.int
  retryAfter := res.headers.lookup "retry-after"
  sdkVersion := res.headers.lookup "x-inngest-sdk"
  status := status res
  systemTraceCtx := req.systemTraceCtx
  userTraceCtx := req.userTraceCtx

def internalError : CommResponse where
  body := .obj [("code", .str "unknown"), ("message", .str "internal error")]
  headers := ∅
  statusCode := 500

def errorReply (body : Bytes) : SDKResponse where
  accountId := req.accountId
  appId := req.appId
  body := body
  envId := req.envId
  noRetry := false
  requestId := req.requestId
  requestVersion := none
  retryAfter := none
  sdkVersion := none
  status := .error
  systemTraceCtx := []
  userTraceCtx := []

/-- The `except` clause. Its reply does not go to the buffer. -/
def fail (s : State) (b : ReplyBuffer) : ExecutionBlock :=
  match cfg.bodyBytes internalError with
  | .error _ => ⟨s, .finished, none, b, []⟩
  | .ok body =>
    match s.ws.value with
    | none => ⟨s, .finished, none, b, [.replying i]⟩
    | some n =>
      ⟨s, .failing n, some (n, .reply (cfg.serialize (errorReply req body))), b, [.replying i]⟩

def storeMarks (added : Added Reply) : List ReplyMark :=
  if added.accepted then
    .stored i req.requestId :: added.evicted.map fun item => .evicted item.data.task
  else [.rejected i]

def reply (payload : Bytes) (s : State) (b : ReplyBuffer) : ExecutionBlock :=
  let added := b.add Reply.len req.requestId ⟨i, payload⟩ now
  let marks := .replying i :: storeMarks i req added
  match s.ws.value with
  | none => ⟨s, .finished, none, added.buffer, marks⟩
  | some n => ⟨s, .replying n, some (n, .reply payload), added.buffer, marks⟩

def respond (res : CommResponse) (s : State) (b : ReplyBuffer) : ExecutionBlock :=
  match cfg.bodyBytes res with
  | .error _ => fail cfg i req s b
  | .ok body => reply i req now (cfg.serialize (sdkResponse cfg req res body)) s b

def acked (r : SendResult) (s : State) (b : ReplyBuffer) : ExecutionBlock :=
  match r with
  | .ok => ⟨s, .executing, none, b, []⟩
  | .connectionClosed e => respond cfg i req now (CommResponse.fromError e) s.closeWs b
  | .failed e => respond cfg i req now (CommResponse.fromError e) s b

def ack (s : State) (b : ReplyBuffer) : ExecutionBlock :=
  match s.ws.value with
  | none => respond cfg i req now (CommResponse.fromError noWebSocket) s b
  | some n => ⟨s, .acking n, some (n, .requestAck req.ackData), b, []⟩

def posted (r : Except PyError CommResponse) (s : State) (b : ReplyBuffer) : ExecutionBlock :=
  match r with
  | .error _ => fail cfg i req s b
  | .ok res => respond cfg i req now res s b

def resume (stage : Stage) (s : State) (b : ReplyBuffer) : ExecutionBlock :=
  match stage with
  | .created =>
    if s.ws.value.isSome then ack cfg i req now s b
    else ⟨s.waitWs (.execution i), .waitingWs, none, b, []⟩
  | .waitingWs => ack cfg i req now (s.release (.execution i)) b
  | .cancelling => ⟨s.release (.execution i), .finished, none, b, []⟩
  | stage => ⟨s, stage, none, b, []⟩

def resumable (stage : Stage) (s : State) : Bool :=
  match stage with
  | .created | .cancelling => true
  | .waitingWs => (s.ws.woken (.execution i) Option.isSome).isSome
  | _ => false

def settled (stage : Stage) (r : SendResult) (s : State) (b : ReplyBuffer) : ExecutionBlock :=
  match stage with
  | .acking _ => acked cfg i req now r s b
  | _ => ⟨r.settle s, .finished, none, b, []⟩

end ExecuteRequest

end Inngest.Connect
