import Inngest.Connect.Worker

/-!
# What a step does to the shared state

Most events only begin and end waits and close the connection. `waits` says
whose waits an event may touch.
-/

set_option autoImplicit false

namespace Inngest.Connect
open Errors Transition

def Background.task : Background → Task → Prop
  | .startRequest => (· = .startRequest)
  | .startWatcher => fun _ => False
  | .heartbeatSender => (· = .heartbeatSender)
  | .sendData => (· = .sendData)
  | .reconnectWatcher => (· = .reconnectWatcher)
  | .leaseExtender => (· = .leaseExtender)
  | .flushPoller => (· = .flushPoller)

namespace Event

def waits : Event → Task → Prop
  | .gatewayTask _ | .gatewaySelected =>
    fun t => t = .gatewayInit ∨ t = .gatewayClosing ∨ t = .gatewayFatal
  | .connInitChanged => (· = .run)
  | .closeSequence h => fun t => t = .closeSequence h ∨ ∃ b : Background, b.task t
  | .heartbeat => (· = .heartbeatSender)
  | .reconnectWatcher => (· = .reconnectWatcher)
  | .sendData => (· = .sendData)
  | .execution i => (· = .execution i)
  | .leaseExtender | .leaseSent _ => (· = .leaseExtender)
  | .flushPoller => (· = .flushPoller)
  | _ => fun _ => False

def sets : Event → Bool
  | .close | .connected | .handlersClosed | .handlersTimedOut | .runStopped | .message _
  | .closeFinished _ | .closeTimedOut _ | .startRequest | .startResponse _
  | .executionCallback _ => true
  | _ => false

end Event

/-- What a block has begun to send, it sends on the connection that it found. -/
def SentOn (s : State) (p : WorkerMessage → Prop) (sent : Option (ℕ × WorkerMessage)) : Prop :=
  ∀ m ∈ sent, s.ws.value = some m.1 ∧ p m.2

theorem SentOn.none (s : State) (p : WorkerMessage → Prop) : SentOn s p none := by
  intro m hm
  simp at hm

namespace ExecuteRequest
variable {cfg : Config} {i : ℕ} {req : GatewayExecutorRequestData} {now : ℚ} {s : State}
  {b : ReplyBuffer} {stage : Stage} {r : SendResult} {res : CommResponse} {payload : Bytes}
  {W : Task → Prop}

/-- A block that answers the request: the state stays as it is, and the reply
is sent on the connection that was found. Only the callback removes. -/
structure Answers (s : State) (r : ExecutionBlock) : Prop where
  state : r.state = s
  stage : r.stage ≠ .removed
  sent : SentOn s (fun m => ∃ payload, m = .reply payload) r.sent

theorem fail_answers : Answers s (fail cfg i req s b) := by
  unfold fail
  split
  · exact ⟨rfl, by simp, .none _ _⟩
  · split
    · exact ⟨rfl, by simp, .none _ _⟩
    · refine ⟨rfl, by simp, ?_⟩
      rintro m ⟨⟩
      exact ⟨‹_›, _, rfl⟩

theorem reply_answers : Answers s (reply i req now payload s b) := by
  unfold reply
  dsimp only
  split
  · exact ⟨rfl, by simp, .none _ _⟩
  · refine ⟨rfl, by simp, ?_⟩
    rintro m ⟨⟩
    exact ⟨‹_›, _, rfl⟩

theorem respond_answers : Answers s (respond cfg i req now res s b) := by
  unfold respond
  split
  · exact fail_answers
  · exact reply_answers

theorem posted_answers {p : Except PyError CommResponse} :
    Answers s (posted cfg i req now p s b) := by
  unfold posted
  split
  · exact fail_answers
  · exact respond_answers

theorem ack_state : (ack cfg i req now s b).state = s := by
  unfold ack
  split
  · exact respond_answers.state
  · rfl

theorem resume_calm : State.Calm (· = .execution i) s (resume cfg i req now stage s b).state := by
  cases stage with
  | created =>
    unfold resume
    dsimp only
    split
    · rw [ack_state]
      exact .refl
    · exact .of_sameBut (.waitWs _ _) rfl
  | waitingWs =>
    rw [resume, ack_state]
    exact .of_sameBut (.release _ _) rfl
  | cancelling => exact .of_sameBut (.release _ _) rfl
  | acking n | executing | replying n | failing n | finished | removed => exact .refl

theorem settled_calm : State.Calm W s (settled cfg i req now stage r s b).state := by
  unfold settled
  split
  · cases r with
    | ok => exact .refl
    | connectionClosed e =>
      rw [acked, respond_answers.state]
      exact .closeWs .refl
    | failed e =>
      rw [acked, respond_answers.state]
      exact .refl
  · exact r.settle_calm

end ExecuteRequest

namespace Worker
variable {cfg : Config} {w : Worker} {e : Event}

inductive Proceeds (w : Worker) : Worker → Prop where
  | on (run : RunPc) : Proceeds w { w with run := run }
  | closing (run : RunPc) : Proceeds w { w.closeHandlers with run := run }

theorem finish_proceeds (raising : Option PyError) : Proceeds w (w.finish raising) := by
  rw [finish]
  split
  · exact .on _
  · exact .closing _

theorem loopHead_proceeds : Proceeds w w.loopHead := by
  rw [loopHead]
  split
  · exact .on _
  · exact finish_proceeds none

theorem proceed_proceeds (sel : Selection) : Proceeds w (w.proceed sel) := by
  cases sel with
  | fatal e => exact finish_proceeds _
  | closing => exact finish_proceeds _
  | endpoint init => exact .on _

theorem Proceeds.state {w' : Worker} (h : Proceeds w w') : w'.state = w.state := by
  cases h <;> rfl

theorem selectGateway_calm (g : Gateway) :
    State.Calm (Event.waits .gatewaySelected) w.state (w.selectGateway g).state := by
  rw [selectGateway]
  split
  · exact .refl
  · split
    · rw [(proceed_proceeds _).state]
      exact .refl
    · exact .wait (.wait (.of_sameBut (.release _ _) (.inl rfl)) (.inr (.inl rfl)) (.release _ _))
        (.inr (.inr rfl)) (.release _ _)

theorem resumeGateway_calm (t : GatewayTask) (g : Gateway) :
    State.Calm (Event.waits (.gatewayTask t)) w.state (w.resumeGateway t g).1 := by
  cases t with
  | init =>
    unfold resumeGateway
    dsimp only
    split
    · exact .refl
    · exact .of_sameBut (.waitConnInit _ _) (.inl rfl)
    · exact .of_sameBut (.release _ _) (.inl rfl)
    · exact .refl
  | closing =>
    unfold resumeGateway
    dsimp only
    split
    · split
      · exact .refl
      · exact .of_sameBut { State.SameBut.refl _ _ with connState := .watch _ _ } (.inr (.inl rfl))
    · exact .of_sameBut (.release _ _) (.inr (.inl rfl))
    · exact .refl
  | fatal =>
    unfold resumeGateway
    dsimp only
    split
    · exact .refl
    · exact .of_sameBut { State.SameBut.refl _ _ with fatalError := .watch _ _ } (.inr (.inr rfl))
    · exact .of_sameBut (.release _ _) (.inr (.inr rfl))
    · exact .refl

theorem resumeCloser_state (i : ℕ) : (w.resumeCloser i).state = w.state := by
  rw [resumeCloser]
  split
  · split <;> rfl
  · rfl
  · rfl

theorem cancel_calm (b : Background) : State.Calm b.task w.state (w.cancel b).state := by
  cases b with
  | startWatcher => exact .refl
  | startRequest | heartbeatSender | sendData | reconnectWatcher | leaseExtender | flushPoller =>
    exact .of_sameBut (.release _ _) rfl

theorem drain_calm (h : Handler) (rest : List Background) :
    State.Calm (Event.waits (.closeSequence h)) w.state (w.drain h rest).state := by
  cases rest with
  | nil => exact .refl
  | cons b rest => exact (cancel_calm b).mono fun t ht => .inr ⟨b, ht⟩

theorem resumeSequence_calm (h : Handler) :
    State.Calm (Event.waits (.closeSequence h)) w.state (w.resumeSequence h).state := by
  unfold resumeSequence
  split
  · split
    · exact drain_calm _ _
    · exact .of_sameBut (.waitPendingRequestCount _ _) (.inl rfl)
  · refine .trans (.of_sameBut (.release (.closeSequence h) w.state) (.inl rfl)) ?_
    exact drain_calm (w := { w with state := w.state.release (.closeSequence h) }) h _
  · exact drain_calm _ _
  · exact .refl

theorem onExecution_calm {W : Task → Prop} (i : ℕ) (f : Execution → ExecutionBlock)
    (hf : ∀ x, State.Calm W w.state (f x).state) :
    State.Calm W w.state (w.onExecution i f).state := by
  unfold onExecution
  split
  · exact .refl
  · exact hf _

variable (cfg) in
theorem calm_step (he : e.sets = false) :
    State.Calm e.waits w.state (effect cfg e w).state := by
  cases e with
  | start | clock t => exact .refl
  | runStarted | connectionLeft | retry =>
    rw [effect, loopHead_proceeds.state]
    exact .refl
  | gatewayTask t =>
    unfold effect
    dsimp only
    split
    · exact resumeGateway_calm _ _
    · exact .refl
  | gatewaySelected =>
    unfold effect
    dsimp only
    split
    · exact selectGateway_calm _
    · exact .refl
  | losersCancelled =>
    unfold effect
    dsimp only
    split
    · rw [(proceed_proceeds _).state]
      exact .refl
    · exact .refl
  | connectFailed => exact .closeWs .refl
  | connInitChanged =>
    unfold effect
    dsimp only
    split
    · exact .of_sameBut (.release _ _) rfl
    · exact .refl
  | connectionSettled =>
    unfold effect
    dsimp only
    split <;> exact .refl
  | disconnected =>
    change State.Calm _ w.state (if _ then _ else _)
    split
    · exact .closeWs .refl
    · exact .refl
  | closer i =>
    rw [effect, resumeCloser_state]
    exact .refl
  | closeSequence h => exact resumeSequence_calm h
  | heartbeat => exact .of_sameBut Heartbeat.resume_sameBut rfl
  | heartbeatSent r => exact r.settle_calm
  | reconnectWatcher => exact .of_sameBut InitHandshake.resumeWatcher_sameBut rfl
  | sendData =>
    unfold effect
    dsimp only
    split
    · exact .of_sameBut InitHandshake.resumeSend_sameBut rfl
    · exact .refl
  | dataSent r => exact r.settle_calm
  | execution i => exact onExecution_calm i _ fun x => ExecuteRequest.resume_calm
  | executionSent i r => exact onExecution_calm i _ fun x => ExecuteRequest.settled_calm
  | executionPosted i r =>
    refine onExecution_calm i _ fun x => ?_
    rw [ExecuteRequest.posted_answers.state]
    exact .refl
  | leaseExtender => exact .of_sameBut LeaseExtender.resume_sameBut rfl
  | leaseSent r => exact r.settle_calm.trans (.of_sameBut LeaseExtender.extend_sameBut rfl)
  | flushPoller => exact .of_sameBut FlushPoller.resume_sameBut rfl
  | flushed =>
    change State.Calm _ w.state (FlushPoller.flushed _ _ _).state
    rw [FlushPoller.flushed_state]
    exact .refl
  | close | connected | handlersClosed | handlersTimedOut | runStopped | message raw
  | closeFinished i | closeTimedOut i | startRequest | startResponse res
  | executionCallback i => simp [Event.sets] at he

/-! ## The messages -/

def completes (raw : RawMessage) (w : Worker) : Bool :=
  match raw with
  | .bytes (.ok (.connectionReady (.ok _))) =>
    w.handshake.state = .awaitingReady && w.state.connInit.value.isSome && w.state.connId.isSome
  | _ => false

/-- The values that a message has set, before the queue of a replaced sync
task goes and a drain closes the connection. -/
structure MessageBase (w : Worker) (raw : RawMessage) (b : State) : Prop where
  connId : b.connId = w.state.connId
  connInit : b.connInit = w.state.connInit
  ws : b.ws = w.state.ws
  connState : b.connState = w.state.connState ∨
    completes raw w = true ∧ b.connState = w.state.connState.set .active
  initHandshakeComplete : b.initHandshakeComplete = w.state.initHandshakeComplete ∨
    b.initHandshakeComplete = w.state.initHandshakeComplete.set false ∨
    completes raw w = true ∧ b.initHandshakeComplete = w.state.initHandshakeComplete.set true

theorem MessageBase.refl (raw : RawMessage) : MessageBase w raw w.state :=
  ⟨rfl, rfl, rfl, .inl rfl, .inl rfl⟩

variable (cfg) in
theorem handshake_calm (msg : GatewayMessage) {init : ConnInit} {c : String}
    (hi : w.state.connInit.value = some init) (hc : w.state.connId = some c) :
    ∃ b, MessageBase w (.bytes (.ok msg)) b ∧ State.Calm (· = .sendData) b
      (InitHandshake.handleMsg cfg msg init.authData c w.state w.handshake).state := by
  have hsync : ∀ (s : State) (h : InitHandshake), State.Calm (· = .sendData) s
      (InitHandshake.sync init.authData c s h).state := by
    intro s h
    unfold InitHandshake.sync
    dsimp only
    split
    · exact .of_sameBut (.release _ _) rfl
    · exact .refl
  unfold InitHandshake.handleMsg
  split
  · exact ⟨{ w.state with
      initHandshakeComplete := w.state.initHandshakeComplete.set false },
      ⟨rfl, rfl, rfl, .inl rfl, .inr (.inl rfl)⟩, hsync _ _⟩
  · exact ⟨_, .refl _, hsync _ _⟩
  · rename_i data hstate
    have hcompletes : completes (.bytes (.ok (.connectionReady (.ok data)))) w = true := by
      simp [completes, hstate, hi, hc]
    exact ⟨(InitHandshake.ready cfg data w.state w.handshake).state,
      ⟨rfl, rfl, rfl, .inr ⟨hcompletes, rfl⟩, .inr (.inr ⟨hcompletes, rfl⟩)⟩, .refl⟩
  · exact ⟨_, .refl _, .refl⟩

variable (cfg) in
theorem executionMsg_state (x : ExecutionState) (msg : GatewayMessage) :
    ∃ c, (x.handleMsg cfg msg).state = { x.state with pendingRequestCount := c } := by
  unfold ExecutionState.handleMsg
  split
  · split
    · exact ⟨_, rfl⟩
    · exact ⟨_, rfl⟩
  · exact ⟨_, rfl⟩
  · exact ⟨_, rfl⟩
  · exact ⟨_, rfl⟩

theorem calm_count {W : Task → Prop} {s s' : State} (h : State.Calm W s s')
    (c : ValueWatcher Task ℤ) :
    ∃ c', State.Calm W { s with pendingRequestCount := c' }
      { s' with pendingRequestCount := c } := by
  induction h with
  | refl => exact ⟨c, .refl⟩
  | wait _ ht hw ih =>
    obtain ⟨c', h'⟩ := ih
    exact ⟨c', .wait h' ht { hw with pendingRequestCount := .refl _ _ }⟩
  | closeWs _ ih =>
    obtain ⟨c', h'⟩ := ih
    exact ⟨c', .closeWs h'⟩

variable (cfg) in
theorem dispatch_calm (n : ℕ) (msg : GatewayMessage) {init : ConnInit} {c : String}
    (hi : w.state.connInit.value = some init) (hc : w.state.connId = some c) :
    ∃ b, MessageBase w (.bytes (.ok msg)) b ∧ State.Calm (· = .sendData) b
      (w.dispatch cfg n msg init c).state := by
  obtain ⟨b, hb, hcalm⟩ := handshake_calm cfg msg hi hc
  obtain ⟨count, hx⟩ := executionMsg_state cfg
    ⟨(InitHandshake.handleMsg cfg msg init.authData c w.state w.handshake).state, w.executions,
      w.buffer, w.leases, w.replies⟩ msg
  obtain ⟨count', hcalm'⟩ := calm_count hcalm count
  refine ⟨{ b with pendingRequestCount := count' },
    ⟨hb.connId, hb.connInit, hb.ws, hb.connState, hb.initHandshakeComplete⟩, ?_⟩
  unfold dispatch
  dsimp only
  rw [hx]
  split
  · exact hcalm'.closeWs
  · exact hcalm'

variable (cfg) in
theorem handleMsg_calm (n : ℕ) (raw : RawMessage) :
    ∃ b, MessageBase w raw b ∧ State.Calm (· = .sendData) b (w.handleMsg cfg n raw).state := by
  unfold handleMsg
  split
  · exact ⟨_, .refl _, .refl⟩
  · split
    · exact ⟨_, .refl _, .refl⟩
    · exact ⟨_, .refl _, .refl⟩
    · split
      · exact ⟨_, .refl _, .closeWs .refl⟩
      · exact dispatch_calm cfg _ _ ‹_› ‹_›

theorem executionDone_state (i : ℕ) :
    ∃ c, (w.executionDone i).state = { w.state with pendingRequestCount := c } := by
  unfold executionDone ExecutionState.callback
  split
  · exact ⟨_, rfl⟩
  · dsimp only
    split <;> exact ⟨_, rfl⟩

end Worker

/-! ## The start request -/

namespace ConnInitStarter
variable {cfg : Config} {closed : Bool} {s s' : State} {pc : StartPc} {err : Option PyError}
  {answers : Prop}

/-- What the start task does to the state between two suspensions. A response
is written only where a request has ended. -/
inductive Starts (answers : Prop) (s : State) : State → Prop where
  | refl : Starts answers s s
  | wait {s' s'' : State} (h : Starts answers s s') (hw : State.SameBut .startRequest s' s'') :
    Starts answers s s''
  | connecting {s' : State} (h : Starts answers s s') (hs : s'.connState.value ≠ .closed) :
    Starts answers s { s' with connState := s'.connState.set .connecting }
  | failed {s' : State} (h : Starts answers s s') (e : PyError) :
    Starts answers s { s' with fatalError := s'.fatalError.set (some e) }
  | named {s' : State} (h : Starts answers s s') (id : String) :
    Starts answers s { s' with connId := some id }
  | answered {s' : State} (h : Starts answers s s') (ha : answers) (init : ConnInit) :
    Starts answers s { s' with connInit := s'.connInit.set (some init) }

theorem begin_starts (h : Starts answers s s') : Starts answers s (begin closed s').1 := by
  rw [begin]
  split
  · exact h
  · exact h.connecting ‹_›

theorem loop_starts (h : Starts answers s s') : Starts answers s (loop closed err s').1 := by
  unfold loop
  split
  · exact h
  · cases err with
    | some e => exact h.failed e
    | none =>
      dsimp only
      split
      · exact begin_starts h
      · exact h.wait (.waitConnInit _ _)

theorem resume_starts : Starts False s (resume closed pc s).1 := by
  cases pc with
  | created => exact loop_starts .refl
  | waiting => exact begin_starts (.wait .refl (.release _ _))
  | fetching a e | sleeping a e | stopped => exact .refl

variable (cfg) in
theorem attempt_starts (res : StartResult) : Starts True s (attempt cfg res s).1 := by
  unfold attempt
  repeat' split
  all_goals first
    | exact .refl
    | exact .named .refl _
    | exact .answered (.named .refl _) trivial _

theorem responded_starts {attempts : ℕ} {res : StartResult} :
    Starts True s (responded cfg closed attempts res s).1 := by
  have h := attempt_starts cfg (s := s) res
  unfold responded afterAttempt
  repeat' split
  all_goals first | exact loop_starts h | exact h

end ConnInitStarter

namespace ConnInitStarter.Starts
variable {s s' : State} {answers : Prop}

theorem ws (h : Starts answers s s') : s'.ws.value = s.ws.value := by
  induction h with
  | refl => rfl
  | wait _ hw ih => exact hw.ws.1.trans ih
  | connecting _ _ ih | failed _ _ ih | named _ _ ih | answered _ _ _ ih => exact ih

theorem connInit (h : Starts False s s') : s'.connInit.value = s.connInit.value := by
  induction h with
  | refl => rfl
  | wait _ hw ih => exact hw.connInit.1.trans ih
  | connecting _ _ ih | failed _ _ ih | named _ _ ih => exact ih
  | answered _ ha => exact ha.elim

theorem closed (h : Starts answers s s') (hs : s.connState.value = .closed) :
    s'.connState.value = .closed := by
  induction h with
  | refl => exact hs
  | wait _ hw ih => rw [hw.connState.1, ih]
  | connecting _ hopen ih => exact absurd ih hopen
  | failed _ _ ih | named _ _ ih | answered _ _ _ ih => exact ih

theorem initHandshakeComplete (h : Starts answers s s') :
    SameBut .startRequest s.initHandshakeComplete s'.initHandshakeComplete := by
  induction h with
  | refl => exact .refl _ _
  | wait _ hw ih => exact ih.trans hw.initHandshakeComplete
  | connecting _ _ ih | failed _ _ ih | named _ _ ih | answered _ _ _ ih => exact ih

end ConnInitStarter.Starts

end Inngest.Connect
