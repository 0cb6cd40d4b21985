import Inngest.Connect.ConnInitStarter
import Inngest.Connect.ExecutionTasks
import Inngest.Connect.Heartbeat
import Inngest.Connect.InitHandshake
import Inngest.Transition

/-!
# The worker

The worker thread of `IsolatedWorker`, with the handlers' tasks, and the main
thread's `close()`. One event is the code of one task between two of its
awaits, or one call of the main thread. What comes from outside (messages,
responses, how a send ends, the clock) comes with the event.
-/

set_option autoImplicit false

namespace Inngest.Connect
open Errors Transition

/-! ## The pieces -/

inductive Wait (α : Type) where
  | created
  | waiting
  | done (v : α)

namespace Wait
variable {α : Type}

def value? : Wait α → Option α
  | .done v => some v
  | _ => none

/-- It has been created, or what it waits for has come. -/
def ready (woken : Option α) : Wait α → Bool
  | .created => true
  | .waiting => woken.isSome
  | .done _ => false

end Wait

structure Gateway where
  init : Wait ConnInit
  closing : Wait Unit
  fatal : Wait PyError

inductive GatewayTask where
  | init
  | closing
  | fatal
  deriving DecidableEq, Repr

inductive Selection where
  | fatal (e : PyError)
  | closing
  | endpoint (init : ConnInit)

/-- Where `run` is suspended: while a gateway is selected and while the losers
of the selection are awaited, in `websockets.connect`, in
`conn_init.wait_for_change`, in the two delays, in the end of the connection,
and in the `finally` block. -/
inductive RunPc where
  | notStarted
  | selecting (g : Gateway)
  | losing (sel : Selection)
  | connecting (init : ConnInit)
  | watching (n : ℕ)
  | settling (n : ℕ)
  | leaving (n : ℕ)
  | retrying
  | finishing (raising : Option PyError)
  | stopping (raising : Option PyError)
  | ended (raising : Option PyError)

inductive CloserPc where
  | scheduled
  | pausing (n : ℕ)
  | waiting
  | done
  deriving DecidableEq, Repr

inductive Background where
  | startRequest
  | startWatcher
  | heartbeatSender
  | sendData
  | reconnectWatcher
  | leaseExtender
  | flushPoller
  deriving DecidableEq, Repr

def Handler.afterCloseDrained : Handler → List Background
  | .connInit => [.startRequest, .startWatcher]
  | .heartbeat => [.heartbeatSender]
  | .initHandshake => [.sendData, .reconnectWatcher]
  | .execution => [.leaseExtender, .flushPoller]
  | .drain => []

/-- A handler's `_close_sequence`. `draining b rest`: `b` has been cancelled
and is awaited. -/
inductive CloseSequence where
  | idle
  | created
  | waiting
  | draining (b : Background) (rest : List Background)
  | closed
  deriving DecidableEq, Repr

inductive WireMark where
  | connected (n : ℕ) (init : ConnInit)
  | received (n : ℕ) (msg : GatewayMessage)
  | completed (n : ℕ)
  | sent (n : ℕ) (msg : WorkerMessage)
  deriving DecidableEq

/-- `wire`, `leases` and `replies` are what has happened, the newest first. -/
structure Worker where
  now : ℚ
  loop : Bool
  state : State
  closing : Bool
  run : RunPc
  connections : ℕ
  reader : Option ℕ
  closers : List CloserPc
  closeSequence : Handler → CloseSequence
  starter : StartPc
  heartbeat : HeartbeatPc
  handshake : InitHandshake
  executions : Executions
  leaseExtender : LeasePc
  buffer : ReplyBuffer
  flushPoller : FlushPc
  wire : List WireMark
  leases : List LeaseMark
  replies : List ReplyMark

namespace Worker

def initial : Worker where
  now := 0
  loop := false
  state := .initial
  closing := false
  run := .notStarted
  connections := 0
  reader := none
  closers := []
  closeSequence := fun _ => .idle
  starter := .created
  heartbeat := .created
  handshake := .initial
  executions := .initial
  leaseExtender := .created
  buffer := .empty defaultMaxBufferSizeBytes
  flushPoller := .created
  wire := []
  leases := []
  replies := []

variable (cfg : Config) (w : Worker)

def closed (h : Handler) : Bool := w.closeSequence h = .closed

def allClosed : Bool :=
  w.closed .connInit && w.closed .heartbeat && w.closed .initHandshake && w.closed .execution &&
    w.closed .drain

/-- The worker's loop is running and `run` has started the handlers. -/
def running : Bool :=
  match w.run with
  | .notStarted | .ended _ => false
  | _ => true

def sentMark (sent : Option (ℕ × WorkerMessage)) : List WireMark :=
  sent.toList.map fun m => .sent m.1 m.2

/-! ## Closing -/

/-- `h.close()` for every handler: nothing happens the second time. -/
def closeHandlers : Worker :=
  { w with
    executions := { w.executions with closing := true }
    closeSequence := fun h =>
      match w.closeSequence h with
      | .idle => .created
      | seq => seq }

def setSequence (h : Handler) (seq : CloseSequence) : Worker :=
  { w with closeSequence := Function.update w.closeSequence h seq }

def cancel (b : Background) : Worker :=
  match b with
  | .startRequest => { w with starter := .stopped, state := w.state.release .startRequest }
  | .startWatcher => w
  | .heartbeatSender => { w with heartbeat := .stopped, state := w.state.release .heartbeatSender }
  | .sendData =>
    { w with
      handshake := { w.handshake with sendData := none }
      state := w.state.release .sendData }
  | .reconnectWatcher =>
    { w with
      handshake := { w.handshake with reconnectWatcher := .stopped }
      state := w.state.release .reconnectWatcher }
  | .leaseExtender => { w with leaseExtender := .stopped, state := w.state.release .leaseExtender }
  | .flushPoller =>
    { w with
      flushPoller := FlushPoller.cancel w.flushPoller
      state := w.state.release .flushPoller }

def cancelled (b : Background) : Bool :=
  match b with
  | .flushPoller => w.flushPoller = .stopped
  | _ => true

def drain (h : Handler) (rest : List Background) : Worker :=
  match rest with
  | [] => w.setSequence h .closed
  | b :: rest => (w.cancel b).setSequence h (.draining b rest)

def resumeSequence (h : Handler) : Worker :=
  match w.closeSequence h with
  | .created =>
    if w.state.pendingRequestCount.value = 0 then w.drain h h.afterCloseDrained
    else
      { w.setSequence h .waiting with
        state := w.state.waitPendingRequestCount (.closeSequence h) }
  | .waiting =>
    { w with state := w.state.release (.closeSequence h) }.drain h h.afterCloseDrained
  | .draining _ rest => w.drain h rest
  | _ => w

def sequenceResumable (h : Handler) : Bool :=
  match w.closeSequence h with
  | .created => true
  | .waiting => (w.state.pendingRequestCount.woken (.closeSequence h) (· = 0)).isSome
  | .draining b _ => w.cancelled b
  | _ => false

/-- The second part of `_close`, up to the wait for the handlers. -/
def beginClose (i : ℕ) : Worker :=
  { w.closeHandlers with closing := true, closers := w.closers.set i .waiting }

def resumeCloser (i : ℕ) : Worker :=
  match w.closers[i]? with
  | some .scheduled =>
    match w.state.ws.value with
    | some n =>
      { w with closers := w.closers.set i (.pausing n), wire := .sent n .pause :: w.wire }
    | none => w.beginClose i
  | some (.pausing _) => w.beginClose i
  | _ => w

def closerResumable (i : ℕ) : Bool :=
  match w.closers[i]? with
  | some .scheduled | some (.pausing _) => true
  | _ => false

def finishClose (i : ℕ) : Worker :=
  { w with
    closers := w.closers.set i .done
    state := { w.state with
      connState := w.state.connState.set .closed
      connInit := w.state.connInit.set none } }

/-! ## `run` -/

/-- The `finally` block of `run`, up to the wait for the handlers. -/
def finish (raising : Option PyError) : Worker :=
  if w.closing then { w with run := .finishing raising }
  else { w.closeHandlers with run := .finishing raising }

def loopHead : Worker :=
  if w.state.allowReconnect then { w with run := .selecting ⟨.created, .created, .created⟩ }
  else w.finish none

def gatewayReady (t : GatewayTask) (g : Gateway) : Bool :=
  match t with
  | .init => g.init.ready (w.state.connInit.woken .gatewayInit Option.isSome).join
  | .closing =>
    g.closing.ready ((w.state.connState.woken .gatewayClosing (· = .closed)).map fun _ => ())
  | .fatal => g.fatal.ready (w.state.fatalError.woken .gatewayFatal Option.isSome).join

/-- A task of `_wait_for_gateway_endpoint` finds the value it waits for, or
waits for it, or is woken with it. -/
def resumeGateway (t : GatewayTask) (g : Gateway) : State × Gateway :=
  match t with
  | .init =>
    match g.init, w.state.connInit.value, w.state.connInit.woken .gatewayInit Option.isSome with
    | .created, some v, _ => (w.state, { g with init := .done v })
    | .created, none, _ => (w.state.waitConnInit .gatewayInit, { g with init := .waiting })
    | .waiting, _, some (some v) =>
      (w.state.release .gatewayInit, { g with init := .done v })
    | _, _, _ => (w.state, g)
  | .closing =>
    match g.closing with
    | .created =>
      if w.state.connState.value = .closed then (w.state, { g with closing := .done () })
      else (w.state.waitConnState .gatewayClosing, { g with closing := .waiting })
    | .waiting => (w.state.release .gatewayClosing, { g with closing := .done () })
    | .done _ => (w.state, g)
  | .fatal =>
    match g.fatal, w.state.fatalError.value,
      w.state.fatalError.woken .gatewayFatal Option.isSome with
    | .created, some e, _ => (w.state, { g with fatal := .done e })
    | .created, none, _ => (w.state.waitFatalError .gatewayFatal, { g with fatal := .waiting })
    | .waiting, _, some (some e) =>
      (w.state.release .gatewayFatal, { g with fatal := .done e })
    | _, _, _ => (w.state, g)

/-- Fatal errors first, then closing, then the endpoint. -/
def select (g : Gateway) : Option Selection :=
  match g.fatal, g.closing, g.init with
  | .done e, _, _ => some (.fatal e)
  | _, .done _, _ => some .closing
  | _, _, .done v => some (.endpoint v)
  | _, _, _ => none

def proceed (sel : Selection) : Worker :=
  match sel with
  | .fatal e => w.finish (some e)
  | .closing => w.finish none
  | .endpoint init => { w with run := .connecting init }

/-- `asyncio.wait` has returned: the losers are cancelled, one after another. -/
def selectGateway (g : Gateway) : Worker :=
  match select g with
  | none => w
  | some sel =>
    if g.fatal.value?.isSome ∧ g.closing.value?.isSome ∧ g.init.value?.isSome then w.proceed sel
    else
      { w with
        run := .losing sel
        state := ((w.state.release .gatewayInit).release .gatewayClosing).release .gatewayFatal }

def connected (init : ConnInit) : Worker :=
  { w with
    run := .watching w.connections
    connections := w.connections + 1
    reader := some w.connections
    state := { w.state with ws := w.state.ws.set (some w.connections) }.waitConnInit .run
    wire := .connected w.connections init :: w.wire }

/-- The `finally` block of `run` after the wait for the handlers. -/
def finishRun (raising : Option PyError) : Worker :=
  { w with
    run := .stopping raising
    state := { w.state with connState := w.state.connState.set .closed }.closeWs }

def endRun (raising : Option PyError) : Worker :=
  { w with
    run := .ended raising
    state := { w.state with
      connState :=
        if raising.isSome then
          (w.state.connState.setIf .closed fun v => v ≠ .closed).2
        else w.state.connState } }

/-! ## `_handle_msg` -/

/-- The handlers one after another. `ConnInitHandler` and `HeartbeatHandler`
do nothing. -/
def dispatch (n : ℕ) (msg : GatewayMessage) (init : ConnInit) (connId : String) : Worker :=
  let h := InitHandshake.handleMsg cfg msg init.authData connId w.state w.handshake
  let x := ExecutionState.handleMsg cfg
    ⟨h.state, w.executions, w.buffer, w.leases, w.replies⟩ msg
  { w with
    state :=
      match msg with
      | .closing => x.state.closeWs
      | _ => x.state
    handshake := h.handshake
    executions := x.executions
    buffer := x.buffer
    leases := x.leases
    replies := x.replies
    wire := (if h.completed then [.completed n] else []) ++ .received n msg :: w.wire }

def handleMsg (n : ℕ) (raw : RawMessage) : Worker :=
  match w.state.connInit.value with
  | none => { w with reader := none }
  | some init =>
    match raw with
    | .text | .bytes (.error _) => w
    | .bytes (.ok msg) =>
      match w.state.connId with
      | none => { w with reader := none, state := w.state.closeWs }
      | some connId => w.dispatch cfg n msg init connId

def disconnected : Worker :=
  { w with
    reader := none
    state := if w.state.ws.value.isSome then w.state.closeWs else w.state }

/-! ## The tasks of the handlers -/

def runHeartbeat (b : Block HeartbeatPc) : Worker :=
  { w with state := b.state, heartbeat := b.pc, wire := sentMark b.sent ++ w.wire }

def runSendData (b : Block (Option SendDataPc)) : Worker :=
  { w with
    state := b.state
    handshake := { w.handshake with sendData := b.pc }
    wire := sentMark b.sent ++ w.wire }

def dataSent (r : SendResult) : Worker :=
  { w with
    state := r.settle w.state
    handshake := { w.handshake with
      state := InitHandshake.sentState r w.handshake.state
      sendData := none } }

def runExecution (i : ℕ) (b : ExecutionBlock) : Worker :=
  { w with
    state := b.state
    executions := w.executions.setStage i b.stage
    buffer := b.buffer
    replies := b.replies ++ w.replies
    wire := sentMark b.sent ++ w.wire }

def executionDone (i : ℕ) : Worker :=
  let x := ExecutionState.callback ⟨w.state, w.executions, w.buffer, w.leases, w.replies⟩ i
  { w with state := x.state, executions := x.executions, leases := x.leases }

def runLeases (b : LeaseBlock) : Worker :=
  { w with
    state := b.state
    leaseExtender := b.pc
    leases := (b.sent.toList.map fun m => .extended m.2) ++ w.leases
    wire := sentMark (b.sent.map fun m => (m.1, .extendLease m.2)) ++ w.wire }

def runFlush (b : FlushBlock) : Worker :=
  { w with
    state := b.state
    flushPoller := b.pc
    buffer := b.buffer
    replies := b.replies ++ w.replies }

end Worker

/-! ## The machine -/

inductive Event where
  /-- `start()` has made the loop. -/
  | start
  /-- `close()` on the main thread -/
  | close
  | clock (t : ℚ)
  | runStarted
  | gatewayTask (t : GatewayTask)
  | gatewaySelected
  | losersCancelled
  | connected
  | connectFailed
  | connInitChanged
  | connectionSettled
  | connectionLeft
  | retry
  | handlersClosed
  | handlersTimedOut
  | runStopped
  | message (raw : RawMessage)
  | disconnected
  | closer (i : ℕ)
  | closeFinished (i : ℕ)
  | closeTimedOut (i : ℕ)
  | closeSequence (h : Handler)
  | startRequest
  | startResponse (res : StartResult)
  | heartbeat
  | heartbeatSent (r : SendResult)
  | reconnectWatcher
  | sendData
  | dataSent (r : SendResult)
  | execution (i : ℕ)
  | executionSent (i : ℕ) (r : SendResult)
  | executionPosted (i : ℕ) (r : Except PyError CommResponse)
  | executionCallback (i : ℕ)
  | leaseExtender
  | leaseSent (r : SendResult)
  | flushPoller
  | flushed

namespace Event

def onLoop : Event → Bool
  | .start | .close | .clock _ | .runStarted => false
  | _ => true

end Event

namespace Worker
variable (cfg : Config)

def stage? (w : Worker) (i : ℕ) : Option Stage := w.executions.tasks[i]?.map Execution.stage

def ready (w : Worker) : Event → Bool
  | .start => !w.loop
  | .close | .clock _ => true
  | .runStarted => w.loop && match w.run with | .notStarted => true | _ => false
  | .gatewayTask t => match w.run with | .selecting g => w.gatewayReady t g | _ => false
  | .gatewaySelected => match w.run with | .selecting g => (select g).isSome | _ => false
  | .losersCancelled => match w.run with | .losing _ => true | _ => false
  | .connected | .connectFailed => match w.run with | .connecting _ => true | _ => false
  | .connInitChanged =>
    match w.run with | .watching _ => !(w.state.connInit.queued .run).isEmpty | _ => false
  | .connectionSettled => match w.run with | .settling _ => true | _ => false
  | .connectionLeft => match w.run with | .leaving _ => w.reader.isNone | _ => false
  | .retry => match w.run with | .retrying => true | _ => false
  | .handlersClosed => match w.run with | .finishing _ => w.allClosed | _ => false
  | .handlersTimedOut => match w.run with | .finishing _ => true | _ => false
  | .runStopped => match w.run with | .stopping _ => true | _ => false
  | .message _ | .disconnected => w.reader.isSome
  | .closer i => w.closerResumable i
  | .closeFinished i => w.closers[i]? = some .waiting && w.allClosed
  | .closeTimedOut i => w.closers[i]? = some .waiting
  | .closeSequence h => w.sequenceResumable h
  | .startRequest => ConnInitStarter.resumable w.starter w.state
  | .startResponse _ => match w.starter with | .fetching _ _ => true | _ => false
  | .heartbeat => Heartbeat.resumable w.heartbeat w.state
  | .heartbeatSent _ => match w.heartbeat with | .sending _ => true | _ => false
  | .reconnectWatcher => InitHandshake.watcherResumable w.handshake.reconnectWatcher w.state
  | .sendData => w.handshake.sendData.any fun pc => InitHandshake.sendResumable pc w.state
  | .dataSent _ => match w.handshake.sendData with | some (.sending _) => true | _ => false
  | .execution i => (w.stage? i).any fun stage => ExecuteRequest.resumable i stage w.state
  | .executionSent i _ =>
    match w.stage? i with
    | some (.acking _) | some (.replying _) | some (.failing _) => true
    | _ => false
  | .executionPosted i _ => w.stage? i = some .executing
  | .executionCallback i => w.stage? i = some .finished
  | .leaseExtender => LeaseExtender.resumable w.leaseExtender w.state
  | .leaseSent _ => match w.leaseExtender with | .sending _ _ => true | _ => false
  | .flushPoller => FlushPoller.resumable w.flushPoller w.state
  | .flushed => match w.flushPoller with | .flushing _ _ _ => true | _ => false

def enabled (e : Event) (w : Worker) : Bool := w.ready e && (!e.onLoop || w.running)

def close (w : Worker) : Worker :=
  if w.state.connState.value = .closing ∨ w.state.connState.value = .closed then w
  else
    { w with
      state := { w.state with connState := w.state.connState.set .closing }
      closers :=
        match w.loop, w.run with
        | true, .ended _ | false, _ => w.closers
        | true, _ => w.closers ++ [.scheduled] }

def onExecution (w : Worker) (i : ℕ) (f : Execution → ExecutionBlock) : Worker :=
  match w.executions.tasks[i]? with
  | none => w
  | some e => w.runExecution i (f e)

def effect (e : Event) (w : Worker) : Worker :=
  match e with
  | .start => { w with loop := true }
  | .close => w.close
  | .clock t => { w with now := t }
  | .runStarted | .connectionLeft | .retry => w.loopHead
  | .gatewayTask t =>
    match w.run with
    | .selecting g =>
      { w with state := (w.resumeGateway t g).1, run := .selecting (w.resumeGateway t g).2 }
    | _ => w
  | .gatewaySelected => match w.run with | .selecting g => w.selectGateway g | _ => w
  | .losersCancelled => match w.run with | .losing sel => w.proceed sel | _ => w
  | .connected => match w.run with | .connecting init => w.connected init | _ => w
  | .connectFailed => { w with state := w.state.closeWs, run := .retrying }
  | .connInitChanged =>
    match w.run with
    | .watching n => { w with state := w.state.release .run, run := .settling n }
    | _ => w
  | .connectionSettled => match w.run with | .settling n => { w with run := .leaving n } | _ => w
  | .handlersClosed | .handlersTimedOut =>
    match w.run with | .finishing raising => w.finishRun raising | _ => w
  | .runStopped => match w.run with | .stopping raising => w.endRun raising | _ => w
  | .message raw => match w.reader with | some n => w.handleMsg cfg n raw | none => w
  | .disconnected => w.disconnected
  | .closer i => w.resumeCloser i
  | .closeFinished i | .closeTimedOut i => w.finishClose i
  | .closeSequence h => w.resumeSequence h
  | .startRequest =>
    let r := ConnInitStarter.resume (w.closed .connInit) w.starter w.state
    { w with state := r.1, starter := r.2 }
  | .startResponse res =>
    match w.starter with
    | .fetching attempts _ =>
      let r := ConnInitStarter.responded cfg (w.closed .connInit) attempts res w.state
      { w with state := r.1, starter := r.2 }
    | _ => w
  | .heartbeat => w.runHeartbeat (Heartbeat.resume (w.closed .heartbeat) w.heartbeat w.state)
  | .heartbeatSent r => w.runHeartbeat (Heartbeat.settled r w.state)
  | .reconnectWatcher =>
    let r := InitHandshake.resumeWatcher (w.closed .initHandshake) w.state w.handshake
    { w with state := r.1, handshake := r.2 }
  | .sendData =>
    match w.handshake.sendData with
    | some pc => w.runSendData (InitHandshake.resumeSend cfg pc w.state)
    | none => w
  | .dataSent r => w.dataSent r
  | .execution i =>
    w.onExecution i fun e => ExecuteRequest.resume cfg i e.req w.now e.stage w.state w.buffer
  | .executionSent i r =>
    w.onExecution i fun e => ExecuteRequest.settled cfg i e.req w.now e.stage r w.state w.buffer
  | .executionPosted i r =>
    w.onExecution i fun e => ExecuteRequest.posted cfg i e.req w.now r w.state w.buffer
  | .executionCallback i => w.executionDone i
  | .leaseExtender =>
    w.runLeases (LeaseExtender.resume (w.closed .execution) w.executions w.leaseExtender w.state)
  | .leaseSent r =>
    w.runLeases
      (LeaseExtender.settled (w.closed .execution) w.executions w.leaseExtender r w.state)
  | .flushPoller =>
    w.runFlush
      (FlushPoller.resume (w.closed .execution) w.now w.flushPoller w.state w.buffer)
  | .flushed => w.runFlush (FlushPoller.flushed w.flushPoller w.state w.buffer)

end Worker

def machine (cfg : Config) : Machine Worker Event where
  init := .initial
  enabled e w := Worker.enabled e w = true
  effect := Worker.effect cfg

instance (cfg : Config) (e : Event) (w : Worker) : Decidable ((machine cfg).enabled e w) :=
  inferInstanceAs (Decidable (Worker.enabled e w = true))

/-! ## A configuration and the beginning of its runs -/

namespace Sample

def config : Config where
  apps := [⟨"app", .ok [], none⟩]
  env := none
  instanceId := "host"
  maxWorkerConcurrency := none
  extendLeaseInterval := some 5
  rewriteGatewayEndpoint := none
  urlparse := fun _ => .ok ("ws", some "gateway")
  isSpace := fun c => c = ' '
  digitValue := fun _ => none
  int := fun _ => none
  bodyBytes := fun _ => .ok []
  serialize := SDKResponse.body

def startResponse (connectionId : String) : Event :=
  .startResponse (.ok (200, .ok ⟨connectionId, "ws://gateway", connectionId, "sync"⟩))

def message (msg : GatewayMessage) : Event := .message (.bytes (.ok msg))

def started : List Event :=
  [.start, .runStarted, .startRequest, startResponse "first", .gatewayTask .init,
    .gatewayTask .closing, .gatewayTask .fatal, .gatewaySelected, .losersCancelled]

def ready : Event := message (.connectionReady (.ok ⟨"5s"⟩))

def handshake : List Event := [message .hello, .sendData, .dataSent .ok, ready]

/-- The first connection is there and its handshake is complete. -/
def active : List Event := started ++ [.connected, .reconnectWatcher] ++ handshake

def request (id lease : String) : GatewayExecutorRequestData where
  requestId := id
  accountId := "account"
  envId := "env"
  appId := "id"
  appName := "app"
  functionSlug := "fn"
  stepId := none
  requestPayload := []
  systemTraceCtx := []
  userTraceCtx := []
  runId := "run"
  leaseId := lease

def requested (id lease : String) : Event := message (.executorRequest (.ok (request id lease)))

def executed (i : ℕ) : List Event :=
  [.execution i, .executionSent i .ok, .executionPosted i (.ok ⟨.null, ∅, 200⟩),
    .executionSent i .ok]

def done (i : ℕ) : List Event := executed i ++ [.executionCallback i]

def reconnected (connectionId : String) : List Event :=
  [.disconnected, .connInitChanged, .connectionSettled, .connectionLeft, .startRequest,
    startResponse connectionId, .gatewayTask .init, .gatewayTask .closing, .gatewayTask .fatal,
    .gatewaySelected, .losersCancelled, .connected]

/-- `close()`: the pause is sent and the handlers are told to close. -/
def closing : List Event := [.close, .closer 0, .closer 0]

def drained : List Event :=
  [.closeSequence .connInit, .closeSequence .connInit, .closeSequence .connInit,
    .closeSequence .heartbeat, .closeSequence .heartbeat, .closeSequence .initHandshake,
    .closeSequence .initHandshake, .closeSequence .initHandshake, .closeSequence .execution,
    .closeSequence .execution, .closeSequence .execution, .closeSequence .drain]

end Sample

end Inngest.Connect
