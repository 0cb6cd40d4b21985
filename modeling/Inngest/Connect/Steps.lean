import Inngest.Connect.SharedState

/-!
# What a step leaves alone

The events of one part of the worker leave the others alone, and a step sends
nothing, or one message on the present connection.
-/

set_option autoImplicit false

namespace Inngest.Connect
open Errors Transition

namespace Worker
variable {cfg : Config} {w : Worker} {e : Event}

theorem close_run : w.close.run = w.run := by
  rw [close]
  split <;> rfl

theorem resumeCloser_run (i : ℕ) : (w.resumeCloser i).run = w.run := by
  rw [resumeCloser]
  split
  · split <;> rfl
  · rfl
  · rfl

theorem cancel_run (b : Background) : (w.cancel b).run = w.run := by
  cases b <;> rfl

theorem drain_run (h : Handler) (rest : List Background) : (w.drain h rest).run = w.run := by
  cases rest with
  | nil => rfl
  | cons b rest => exact cancel_run b

theorem resumeSequence_run (h : Handler) : (w.resumeSequence h).run = w.run := by
  unfold resumeSequence
  split
  · split
    · exact drain_run _ _
    · rfl
  · exact drain_run _ _
  · exact drain_run _ _
  · rfl

theorem handleMsg_run (n : ℕ) (raw : RawMessage) : (w.handleMsg cfg n raw).run = w.run := by
  unfold handleMsg
  repeat' split
  all_goals rfl

theorem onExecution_run (i : ℕ) (f : Execution → ExecutionBlock) :
    (w.onExecution i f).run = w.run := by
  unfold onExecution
  split <;> rfl

end Worker

def Event.ofRun : Event → Bool
  | .runStarted | .gatewayTask _ | .gatewaySelected | .losersCancelled | .connected
  | .connectFailed | .connInitChanged | .connectionSettled | .connectionLeft | .retry
  | .handlersClosed | .handlersTimedOut | .runStopped => true
  | _ => false

namespace Worker
variable {cfg : Config} {w : Worker} {e : Event}

theorem effect_run (he : e.ofRun = false) : (effect cfg e w).run = w.run := by
  cases e with
  | start | clock t | disconnected | closeFinished i | closeTimedOut i | startRequest | heartbeat
  | heartbeatSent r | reconnectWatcher | dataSent r | executionCallback i | leaseExtender
  | leaseSent r | flushPoller | flushed => rfl
  | close => exact close_run
  | message raw =>
    unfold effect
    dsimp only
    split
    · exact handleMsg_run _ _
    · rfl
  | closer i => exact resumeCloser_run i
  | closeSequence h => exact resumeSequence_run h
  | startResponse res | sendData =>
    unfold effect
    dsimp only
    split <;> rfl
  | execution i | executionSent i r | executionPosted i r => exact onExecution_run _ _
  | runStarted | gatewayTask t | gatewaySelected | losersCancelled | connected | connectFailed
  | connInitChanged | connectionSettled | connectionLeft | retry | handlersClosed
  | handlersTimedOut | runStopped => simp [Event.ofRun] at he

end Worker

namespace Event

def ofConnection : Event → Bool
  | .connected | .message _ | .disconnected | .closeSequence _ | .startRequest | .startResponse _
  | .heartbeat | .heartbeatSent _ | .reconnectWatcher | .sendData | .dataSent _ => true
  | _ => false

def sends : Event → WorkerMessage → Prop
  | .closer _, m => m = .pause
  | .sendData, m => ∃ data, m = .connect data
  | .heartbeat, m => m = .heartbeat
  | .execution _, m | .executionSent _ _, m | .executionPosted _ _, m =>
    (∃ data, m = .requestAck data) ∨ ∃ payload, m = .reply payload
  | .leaseExtender, m | .leaseSent _, m => ∃ data, m = .extendLease data
  | _, _ => False

end Event

namespace Worker
variable {cfg : Config} {w w' : Worker} {e : Event}

structure Aside (w w' : Worker) : Prop where
  handshake : w'.handshake = w.handshake
  starter : w'.starter = w.starter
  reader : w'.reader = w.reader
  heartbeat : w'.heartbeat = w.heartbeat

theorem Aside.refl (w : Worker) : Aside w w := ⟨rfl, rfl, rfl, rfl⟩

theorem Proceeds.aside (h : Proceeds w w') : Aside w w' := by
  cases h <;> exact ⟨rfl, rfl, rfl, rfl⟩

variable (cfg) in
theorem aside_step (he : e.ofConnection = false) : Aside w (effect cfg e w) := by
  cases e with
  | start | clock t | connectFailed | closeFinished i | closeTimedOut i | executionCallback i
  | leaseExtender | leaseSent r | flushPoller | flushed => exact ⟨rfl, rfl, rfl, rfl⟩
  | close =>
    rw [effect, close]
    split <;> exact ⟨rfl, rfl, rfl, rfl⟩
  | runStarted | connectionLeft | retry => exact loopHead_proceeds.aside
  | gatewayTask t | connInitChanged | connectionSettled | handlersClosed | handlersTimedOut
  | runStopped =>
    unfold effect
    dsimp only
    split <;> exact ⟨rfl, rfl, rfl, rfl⟩
  | gatewaySelected =>
    unfold effect
    dsimp only
    split
    · unfold selectGateway
      split
      · exact .refl w
      · split
        · exact (proceed_proceeds _).aside
        · exact ⟨rfl, rfl, rfl, rfl⟩
    · exact .refl w
  | losersCancelled =>
    unfold effect
    dsimp only
    split
    · exact (proceed_proceeds _).aside
    · exact .refl w
  | closer i =>
    rw [effect, resumeCloser]
    split
    · split <;> exact ⟨rfl, rfl, rfl, rfl⟩
    · exact ⟨rfl, rfl, rfl, rfl⟩
    · exact .refl w
  | execution i | executionSent i r | executionPosted i r =>
    unfold effect onExecution
    dsimp only
    split <;> exact ⟨rfl, rfl, rfl, rfl⟩
  | connected | message raw | disconnected | closeSequence h | startRequest | startResponse res
  | heartbeat | heartbeatSent r | reconnectWatcher | sendData | dataSent r =>
    simp [Event.ofConnection] at he

structure Cancels (w w' : Worker) : Prop where
  state : w'.handshake.state = w.handshake.state
  sendData : w'.handshake.sendData = w.handshake.sendData ∨ w'.handshake.sendData = none
  starter : w'.starter = w.starter ∨ w'.starter = .stopped
  heartbeat : w'.heartbeat = w.heartbeat ∨ w'.heartbeat = .stopped
  reader : w'.reader = w.reader
  wire : w'.wire = w.wire

theorem Cancels.refl (w : Worker) : Cancels w w := ⟨rfl, .inl rfl, .inl rfl, .inl rfl, rfl, rfl⟩

theorem drain_cancels (h : Handler) (rest : List Background) : Cancels w (w.drain h rest) := by
  cases rest with
  | nil => exact ⟨rfl, .inl rfl, .inl rfl, .inl rfl, rfl, rfl⟩
  | cons b rest =>
    cases b with
    | startRequest => exact ⟨rfl, .inl rfl, .inr rfl, .inl rfl, rfl, rfl⟩
    | heartbeatSender => exact ⟨rfl, .inl rfl, .inl rfl, .inr rfl, rfl, rfl⟩
    | sendData => exact ⟨rfl, .inr rfl, .inl rfl, .inl rfl, rfl, rfl⟩
    | startWatcher | reconnectWatcher | leaseExtender | flushPoller =>
      exact ⟨rfl, .inl rfl, .inl rfl, .inl rfl, rfl, rfl⟩

theorem resumeSequence_cancels (h : Handler) : Cancels w (w.resumeSequence h) := by
  unfold resumeSequence
  split
  · split
    · exact drain_cancels _ _
    · exact ⟨rfl, .inl rfl, .inl rfl, .inl rfl, rfl, rfl⟩
  · obtain ⟨h1, h2, h3, h4, h5, h6⟩ :=
      drain_cancels (w := { w with state := w.state.release (.closeSequence h) }) h
        h.afterCloseDrained
    exact ⟨h1, h2, h3, h4, h5, h6⟩
  · exact drain_cancels _ _
  · exact .refl w

theorem drain_spares (h : Handler) (rest : List Background) :
    ∃ W, State.Calm W w.state (w.drain h rest).state ∧ (∀ k, W (.closeSequence k) → k = h) ∧
      (W .startRequest → (w.drain h rest).starter = .stopped) ∧
      (W .heartbeatSender → (w.drain h rest).heartbeat = .stopped) := by
  cases rest with
  | nil => exact ⟨fun _ => False, .refl, by simp, by simp, by simp⟩
  | cons b rest =>
    refine ⟨b.task, cancel_calm b, ?_, ?_, ?_⟩
    · intro k hk
      cases b <;> simp [Background.task] at hk
    · intro hb
      cases b <;> first | rfl | simp [Background.task] at hb
    · intro hb
      cases b <;> first | rfl | simp [Background.task] at hb

theorem resumeSequence_spares (h : Handler) :
    ∃ W, State.Calm W w.state (w.resumeSequence h).state ∧ (∀ k, W (.closeSequence k) → k = h) ∧
      (W .startRequest → (w.resumeSequence h).starter = .stopped) ∧
      (W .heartbeatSender → (w.resumeSequence h).heartbeat = .stopped) := by
  unfold resumeSequence
  split
  · split
    · exact drain_spares _ _
    · exact ⟨(· = .closeSequence h), .of_sameBut (.waitPendingRequestCount _ _) rfl,
        by simp, by simp, by simp⟩
  · obtain ⟨W, hc, hk, hs, hb⟩ :=
      drain_spares (w := { w with state := w.state.release (.closeSequence h) }) h
        h.afterCloseDrained
    refine ⟨fun t => t = .closeSequence h ∨ W t, ?_, ?_, ?_, ?_⟩
    · exact .trans (.of_sameBut (.release (.closeSequence h) w.state) (.inl rfl))
        (hc.mono fun t ht => .inr ht)
    · intro k hW
      rcases hW with hW | hW
      · simpa using hW
      · exact hk k hW
    · exact fun hW => hs (by simpa using hW)
    · exact fun hW => hb (by simpa using hW)
  · exact drain_spares _ _
  · exact ⟨fun _ => False, .refl, by simp, by simp, by simp⟩

variable (cfg) in
/-- A step that sets nothing ends a wait of the start task or of the heartbeat
sender only as their own step or to stop them. -/
theorem calm_spares (he : e.sets = false) :
    ∃ W, State.Calm W w.state (effect cfg e w).state ∧
      (W .startRequest → (effect cfg e w).starter = .stopped) ∧
      (W .heartbeatSender → e = .heartbeat ∨ (effect cfg e w).heartbeat = .stopped) := by
  by_cases hseq : ∃ h, e = .closeSequence h
  · obtain ⟨h, rfl⟩ := hseq
    obtain ⟨W, hc, -, hs, hb⟩ := resumeSequence_spares (w := w) h
    exact ⟨W, hc, hs, fun hW => .inr (hb hW)⟩
  · refine ⟨e.waits, calm_step cfg he, ?_, ?_⟩
    · intro hW
      cases e <;> simp [Event.waits] at hW hseq
    · intro hW
      cases e <;> simp [Event.waits] at hW hseq ⊢

/-! ## The connections -/

inductive WireStep (w : Worker) (e : Event) (w' : Worker) : Prop where
  | quiet (h : w'.wire = w.wire)
  | sent (n : ℕ) (msg : WorkerMessage) (hws : w.state.ws.value = some n) (hs : e.sends msg)
    (h : w'.wire = .sent n msg :: w.wire)

theorem WireStep.each {P : List WireMark → WireMark → Prop} (h : WireStep w e w')
    (hp : ∀ past n msg, e.sends msg → P past (.sent n msg)) :
    (∀ m ∈ w.wire, m ∈ w'.wire) ∧ (Each P w.wire → Each P w'.wire) := by
  cases h with
  | quiet h =>
    rw [h]
    exact ⟨fun _ hm => hm, id⟩
  | sent n msg hws hs h =>
    rw [h]
    exact ⟨fun _ hm => List.mem_cons_of_mem _ hm, fun he => ⟨hp _ n msg hs, he⟩⟩

end Worker

theorem SentOn.step {w w' : Worker} {e : Event} {sent : Option (ℕ × WorkerMessage)}
    (h : SentOn w.state e.sends sent) (hw : w'.wire = Worker.sentMark sent ++ w.wire) :
    Worker.WireStep w e w' := by
  cases sent with
  | none => exact .quiet hw
  | some m =>
    obtain ⟨hws, hs⟩ := h m rfl
    exact .sent m.1 m.2 hws hs hw

namespace ExecuteRequest
open Worker
variable {cfg : Config} {i : ℕ} {req : GatewayExecutorRequestData} {now : ℚ} {s : State}
  {b : ReplyBuffer} {stage : Stage} {r : SendResult} {res : CommResponse} {payload : Bytes}

theorem ack_sent : SentOn s (Event.sends (.execution i)) (ack cfg i req now s b).sent := by
  unfold ack
  split
  · exact fun m hm => (respond_answers.sent m hm).imp id .inr
  · rintro m ⟨⟩
    exact ⟨‹_›, .inl ⟨_, rfl⟩⟩

theorem resume_sent :
    SentOn s (Event.sends (.execution i)) (resume cfg i req now stage s b).sent := by
  cases stage with
  | created =>
    unfold resume
    dsimp only
    split
    · exact ack_sent
    · exact .none _ _
  | waitingWs => exact ack_sent (s := s.release _)
  | cancelling | acking n | executing | replying n | failing n | finished | removed =>
    exact .none _ _

theorem posted_sent {p : Except PyError CommResponse} :
    SentOn s (Event.sends (.executionPosted i p)) (posted cfg i req now p s b).sent :=
  fun m hm => (posted_answers.sent m hm).imp id .inr

theorem settled_sent : SentOn s (Event.sends (.executionSent i r))
    (settled cfg i req now stage r s b).sent := by
  unfold settled
  split
  · cases r with
    | ok => exact .none _ _
    | connectionClosed e =>
      intro m hm
      have := (respond_answers.sent m hm).1
      simp [State.closeWs] at this
    | failed e => exact fun m hm => (respond_answers.sent m hm).imp id .inr
  · exact .none _ _

end ExecuteRequest

namespace Heartbeat
open Worker
variable {closed : Bool} {pc : HeartbeatPc} {s : State}

theorem send_sent : SentOn s (Event.sends .heartbeat) (send s).sent := by
  unfold send
  split
  · exact .none _ _
  · rintro m ⟨⟩
    exact ⟨‹_›, rfl⟩

theorem awaitWs_sent : SentOn s (Event.sends .heartbeat) (awaitWs s).sent := by
  unfold awaitWs
  split
  · exact send_sent
  · exact .none _ _

theorem loop_sent : SentOn s (Event.sends .heartbeat) (loop closed s).sent := by
  unfold loop
  split
  · exact .none _ _
  · split
    · exact awaitWs_sent
    · exact .none _ _

theorem resume_sent : SentOn s (Event.sends .heartbeat) (resume closed pc s).sent := by
  cases pc with
  | created | sleeping => exact loop_sent
  | waitingReady => exact awaitWs_sent (s := s.release _)
  | waitingWs => exact send_sent (s := s.release _)
  | sending n | stopped => exact .none _ _

end Heartbeat

namespace InitHandshake
open Worker
variable {cfg : Config} {a : AuthData} {c : String} {pc : SendDataPc} {s : State}

theorem send_sent : SentOn s (Event.sends .sendData) (send cfg a c s).sent := by
  unfold send
  split
  · exact .none _ _
  · split
    · exact .none _ _
    · rintro m ⟨⟩
      exact ⟨‹_›, _, rfl⟩

theorem resumeSend_sent : SentOn s (Event.sends .sendData) (resumeSend cfg pc s).sent := by
  cases pc with
  | created a c =>
    unfold resumeSend
    dsimp only
    split
    · exact send_sent
    · exact .none _ _
  | waitingWs a c => exact send_sent (s := s.release _)
  | sending n => exact .none _ _

end InitHandshake

namespace LeaseExtender
open Worker
variable {closed : Bool} {x : Executions} {pc : LeasePc} {s : State} {tasks : List Execution}
  {rest : List ℕ} {r : SendResult}

def message (b : LeaseBlock) : Option (ℕ × WorkerMessage) :=
  b.sent.map fun m => (m.1, .extendLease m.2)

theorem loop_sent : (loop closed s).sent = none := by
  unfold loop awaitInterval
  repeat' split
  all_goals rfl

theorem extend_sent :
    SentOn s (Event.sends .leaseExtender) (message (extend closed tasks rest s)) := by
  unfold extend
  split
  · rename_i n i rest hws
    intro m hm
    simp only [message] at hm
    obtain ⟨y, hy, rfl⟩ := Option.map_eq_some_iff.mp hm
    obtain ⟨x, -, rfl⟩ := Option.map_eq_some_iff.mp hy
    exact ⟨hws, _, rfl⟩
  · rw [message, loop_sent]
    exact .none _ _

theorem resume_sent :
    SentOn s (Event.sends .leaseExtender) (message (resume closed x pc s)) := by
  cases pc with
  | created =>
    rw [resume, message, loop_sent]
    exact .none _ _
  | waitingWs =>
    unfold resume awaitInterval message
    dsimp only
    split <;> exact .none _ _
  | sleeping =>
    unfold resume wake
    dsimp only
    split
    · rw [message, loop_sent]
      exact .none _ _
    · exact extend_sent
  | waitingInterval | sending n rest | stopped => exact .none _ _

theorem settled_sent :
    SentOn s (Event.sends (.leaseSent r)) (message (settled closed x pc r s)) := by
  cases r with
  | ok | failed e => exact extend_sent (s := s)
  | connectionClosed e =>
    intro m hm
    have := (extend_sent (s := s.closeWs) m hm).1
    simp [State.closeWs] at this

end LeaseExtender

namespace Worker
variable {cfg : Config} {w w' : Worker} {e : Event}

theorem onExecution_wire {i : ℕ} {f : Execution → ExecutionBlock}
    (hf : ∀ x, SentOn w.state e.sends (f x).sent) : WireStep w e (w.onExecution i f) := by
  unfold onExecution
  split
  · exact .quiet rfl
  · exact (hf _).step rfl

variable (cfg) in
theorem wire_step (he : e ≠ .connected) (hm : ∀ raw, e ≠ .message raw) :
    WireStep w e (effect cfg e w) := by
  cases e with
  | connected => exact absurd rfl he
  | message raw => exact absurd rfl (hm raw)
  | start | clock t | connectFailed | disconnected | closeFinished i | closeTimedOut i
  | startRequest | heartbeatSent r | reconnectWatcher | dataSent r | executionCallback i
  | flushPoller | flushed => exact .quiet rfl
  | close =>
    rw [effect, close]
    split <;> exact .quiet rfl
  | runStarted | connectionLeft | retry =>
    unfold effect loopHead finish
    dsimp only
    repeat' split
    all_goals exact .quiet rfl
  | gatewayTask t | connInitChanged | connectionSettled | handlersClosed | handlersTimedOut
  | runStopped | startResponse res =>
    unfold effect
    dsimp only
    split <;> exact .quiet rfl
  | gatewaySelected =>
    unfold effect selectGateway proceed finish
    dsimp only
    repeat' split
    all_goals exact .quiet rfl
  | losersCancelled =>
    unfold effect proceed finish
    dsimp only
    repeat' split
    all_goals exact .quiet rfl
  | closer i =>
    rw [effect, resumeCloser]
    split
    · split
      · exact .sent _ _ ‹_› rfl rfl
      · exact .quiet rfl
    · exact .quiet rfl
    · exact .quiet rfl
  | closeSequence h => exact .quiet (resumeSequence_cancels h).wire
  | heartbeat => exact Heartbeat.resume_sent.step rfl
  | sendData =>
    unfold effect
    dsimp only
    split
    · exact InitHandshake.resumeSend_sent.step rfl
    · exact .quiet rfl
  | execution i => exact onExecution_wire fun x => ExecuteRequest.resume_sent
  | executionSent i r => exact onExecution_wire fun x => ExecuteRequest.settled_sent
  | executionPosted i r => exact onExecution_wire fun x => ExecuteRequest.posted_sent
  | leaseExtender => exact LeaseExtender.resume_sent.step rfl
  | leaseSent r => exact LeaseExtender.settled_sent.step rfl

end Worker

end Inngest.Connect
