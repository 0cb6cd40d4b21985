import Inngest.Connect.SharedState

/-!
# What a step does to the pending requests

Most events leave the executions, the counter and the close sequences alone.
The others are few: a message, a step or the end of an execution, the start of
a shutdown, and a step of a close sequence.
-/

set_option autoImplicit false

namespace Inngest.Connect
open Errors Transition

structure State.CountKept (s s' : State) : Prop where
  value : s'.pendingRequestCount.value = s.pendingRequestCount.value
  queues : ∀ h, s'.pendingRequestCount.queues (.closeSequence h) =
    s.pendingRequestCount.queues (.closeSequence h)

namespace State.CountKept
variable {s s' s'' : State} {t : Task}

theorem refl (s : State) : CountKept s s := ⟨rfl, fun _ => rfl⟩

theorem trans (h : CountKept s s') (h' : CountKept s' s'') : CountKept s s'' :=
  ⟨h'.value.trans h.value, fun k => (h'.queues k).trans (h.queues k)⟩

theorem of_sameBut (h : s.SameBut t s') (ht : ∀ k, t ≠ .closeSequence k) : CountKept s s' :=
  ⟨h.pendingRequestCount.1, fun k => h.pendingRequestCount.2 _ (ht k).symm⟩

theorem of_calm {W : Task → Prop} (h : State.Calm W s s') (hW : ∀ k, ¬ W (.closeSequence k)) :
    CountKept s s' := by
  induction h with
  | refl => exact refl s
  | wait _ ht hw ih => exact ih.trans (of_sameBut hw fun k hk => hW k (hk ▸ ht))
  | closeWs _ ih => exact ih.trans ⟨rfl, fun _ => rfl⟩

theorem of_starts {answers : Prop} (h : ConnInitStarter.Starts answers s s') : CountKept s s' := by
  induction h with
  | refl => exact refl s
  | wait _ hw ih => exact ih.trans (of_sameBut hw (by simp))
  | connecting _ _ ih | failed _ _ ih | named _ _ ih | answered _ _ _ ih =>
    exact ih.trans ⟨rfl, fun _ => rfl⟩

end State.CountKept

namespace Worker
variable {cfg : Config} {w w' : Worker}

structure SamePending (w w' : Worker) : Prop where
  executions : w'.executions = w.executions
  sequences : w'.closeSequence = w.closeSequence
  count : State.CountKept w.state w'.state

theorem SamePending.refl (w : Worker) : SamePending w w := ⟨rfl, rfl, .refl _⟩

def MayClose (w w' : Worker) : Prop := SamePending w w' ∨ SamePending w.closeHandlers w'

theorem Proceeds.mayClose (h : Proceeds w w') : MayClose w w' := by
  cases h with
  | on run => exact .inl ⟨rfl, rfl, .refl _⟩
  | closing run => exact .inr ⟨rfl, rfl, .refl _⟩

theorem selectGateway_mayClose (g : Gateway) : MayClose w (w.selectGateway g) := by
  rw [selectGateway]
  split
  · exact .inl (.refl w)
  · split
    · exact (proceed_proceeds _).mayClose
    · refine .inl ⟨rfl, rfl, ?_⟩
      have hrelease : ∀ (t : Task) (s : State), (∀ k, t ≠ .closeSequence k) →
          State.CountKept s (s.release t) := fun t s ht => .of_sameBut (.release t s) ht
      exact (hrelease .gatewayInit _ (by simp)).trans
        ((hrelease .gatewayClosing _ (by simp)).trans (hrelease .gatewayFatal _ (by simp)))

theorem resumeCloser_mayClose (i : ℕ) : MayClose w (w.resumeCloser i) := by
  rw [resumeCloser]
  split
  · split
    · exact .inl ⟨rfl, rfl, .refl _⟩
    · exact .inr ⟨rfl, rfl, .refl _⟩
  · exact .inr ⟨rfl, rfl, .refl _⟩
  · exact .inl (.refl w)

end Worker

namespace InitHandshake
variable {cfg : Config} {s : State} {h : InitHandshake}

variable (cfg) in
theorem handleMsg_count (msg : GatewayMessage) (a : AuthData) (c : String) :
    State.CountKept s (handleMsg cfg msg a c s h).state := by
  unfold handleMsg sync ready
  split
  · dsimp only
    split
    · exact ⟨rfl, fun h => by simp [State.release]⟩
    · exact ⟨rfl, fun _ => rfl⟩
  · dsimp only
    split
    · exact .of_sameBut (.release _ _) (by simp)
    · exact .refl _
  · exact ⟨rfl, fun _ => rfl⟩
  · exact .refl _

end InitHandshake

namespace ExecuteRequest
variable {cfg : Config} {i : ℕ} {req : GatewayExecutorRequestData} {now : ℚ} {s : State}
  {b : ReplyBuffer} {stage : Stage} {r : SendResult} {res : CommResponse} {payload : Bytes}

theorem ack_stage : (ack cfg i req now s b).stage ≠ .removed := by
  unfold ack
  split
  · exact respond_answers.stage
  · simp

theorem resume_stage (h : resumable i stage s = true) :
    (resume cfg i req now stage s b).stage ≠ .removed := by
  cases stage with
  | created =>
    unfold resume
    dsimp only
    split
    · exact ack_stage
    · simp
  | waitingWs => exact ack_stage
  | cancelling => simp [resume]
  | acking n | executing | replying n | failing n | finished | removed => simp [resumable] at h

theorem settled_stage : (settled cfg i req now stage r s b).stage ≠ .removed := by
  unfold settled
  split
  · cases r with
    | ok => simp [acked]
    | connectionClosed e | failed e => exact respond_answers.stage
  · simp

end ExecuteRequest

namespace Worker
variable {cfg : Config} {w w' : Worker} {e : Event}

theorem get_modify {l : List Execution} {i j : ℕ} {x : Execution} (f : Execution → Execution)
    (hx : l[j]? = some x) : (l.modify i f)[j]? = some (if i = j then f x else x) := by
  rw [List.getElem?_modify, hx]
  rfl

/-- The step changes one execution, but neither its id nor whether it is
pending. -/
structure Changed (w w' : Worker) (i : ℕ) (f : Execution → Execution) : Prop where
  executions : w'.executions = { w.executions with tasks := w.executions.tasks.modify i f }
  sequences : w'.closeSequence = w.closeSequence
  count : State.CountKept w.state w'.state
  keeps : ∀ x, w.executions.tasks[i]? = some x →
    (f x).req.requestId = x.req.requestId ∧ ((f x).stage = .removed ↔ x.stage = .removed)

structure Accepted (cfg : Config) (w w' : Worker) (req : GatewayExecutorRequestData) : Prop where
  accepts : w.executions.accepts cfg (.executorRequest (.ok req)) = some req
  executions : w'.executions = w.executions.add req
  sequences : w'.closeSequence = w.closeSequence
  count : ∃ s, State.CountKept w.state s ∧
    w'.state.pendingRequestCount = s.pendingRequestCount.set (s.pendingRequestCount.value + 1)

def read (e : Event) (w : Worker) : Option GatewayMessage :=
  match e with
  | .message (.bytes (.ok msg)) =>
    if w.state.connInit.value.isSome && w.state.connId.isSome then some msg else none
  | _ => none

inductive PendingStep (cfg : Config) (w : Worker) : Event → Worker → Prop where
  | quiet {e : Event} {w' : Worker} (h : MayClose w w') : PendingStep cfg w e w'
  | accepted {e : Event} {w' : Worker} {req : GatewayExecutorRequestData}
    (hr : read e w = some (.executorRequest (.ok req))) (h : Accepted cfg w w' req) :
    PendingStep cfg w e w'
  | changed {e : Event} {w' : Worker} {i : ℕ} {f : Execution → Execution}
    (h : Changed w w' i f) : PendingStep cfg w e w'
  | removed {i : ℕ} {x : Execution} (hi : w.executions.tasks[i]? = some x)
    (hx : x.stage = .finished) : PendingStep cfg w (.executionCallback i) (w.executionDone i)
  | sequence (h : Handler) : PendingStep cfg w (.closeSequence h) (w.resumeSequence h)

theorem accepts_eq_some {x : Executions} {msg : GatewayMessage}
    {req : GatewayExecutorRequestData} (h : x.accepts cfg msg = some req) :
    msg = .executorRequest (.ok req) ∧ x.closing = false := by
  unfold Executions.accepts at h
  split at h
  · split at h
    · simp at h
    · split at h
      · exact ⟨by simpa using h, by simp_all⟩
      · simp at h
  · simp at h

variable (cfg) in
theorem count_step (he : e.sets = false) (hne : ∀ h, e ≠ .closeSequence h) :
    State.CountKept w.state (effect cfg e w).state := by
  refine .of_calm (calm_step cfg he) fun k hk => ?_
  cases e <;> simp [Event.waits] at hk hne

theorem onExecution_step {i : ℕ} {f : Execution → ExecutionBlock}
    (hc : State.CountKept w.state (w.onExecution i f).state)
    (h : ∀ x, w.executions.tasks[i]? = some x → x.stage ≠ .removed ∧ (f x).stage ≠ .removed) :
    PendingStep cfg w e (w.onExecution i f) := by
  cases hi : w.executions.tasks[i]? with
  | none =>
    have heq : w.onExecution i f = w := by simp [onExecution, hi]
    rw [heq]
    exact .quiet (.inl (.refl w))
  | some x =>
    have heq : w.onExecution i f = w.runExecution i (f x) := by simp [onExecution, hi]
    rw [heq] at hc ⊢
    obtain ⟨hx, hf⟩ := h x hi
    refine .changed (f := fun e => { e with stage := (f x).stage }) ⟨rfl, rfl, hc, ?_⟩
    intro y hy
    obtain rfl := Option.some.inj (hi.symm.trans hy)
    exact ⟨rfl, by simp [hf, hx]⟩

theorem stage?_eq {i : ℕ} {x : Execution} (hx : w.executions.tasks[i]? = some x) :
    w.stage? i = some x.stage := by
  simp [stage?, hx]

theorem dispatch_step (n : ℕ) (msg : GatewayMessage) {init : ConnInit} {connId : String}
    (hi : w.state.connInit.value = some init) (hc : w.state.connId = some connId) :
    PendingStep cfg w (.message (.bytes (.ok msg))) (w.dispatch cfg n msg init connId) := by
  have hh := InitHandshake.handleMsg_count cfg (s := w.state) (h := w.handshake) msg
    init.authData connId
  cases msg with
  | executorRequest payload =>
    cases ha : w.executions.accepts cfg (.executorRequest payload) with
    | none =>
      refine .quiet (.inl ⟨?_, ?_, ?_⟩) <;> simp only [dispatch, ExecutionState.handleMsg, ha]
      exact hh
    | some req =>
      obtain rfl := GatewayMessage.executorRequest.inj (accepts_eq_some ha).1
      refine .accepted (by simp [read, hi, hc]) ⟨ha, ?_, ?_, _, hh, ?_⟩ <;>
        simp only [dispatch, ExecutionState.handleMsg, ha] <;> rfl
  | extendLeaseAck payload =>
    cases payload with
    | error e => exact .quiet (.inl ⟨rfl, rfl, hh⟩)
    | ok data =>
      cases hl : w.executions.pending.lookup data.requestId with
      | none =>
        refine .quiet (.inl ⟨?_, ?_, ?_⟩) <;>
          simp only [dispatch, ExecutionState.handleMsg, ExecutionState.leaseExtendAck,
            Executions.leaseExtendAck, hl]
        exact hh
      | some i =>
        by_cases hlease : data.newLeaseId.getD "" = ""
        · refine .changed (i := i) (f := Executions.cancel) ⟨?_, ?_, ?_, ?_⟩
          · simp [dispatch, ExecutionState.handleMsg, ExecutionState.leaseExtendAck,
              Executions.leaseExtendAck, hl, hlease]
          · rfl
          · exact hh
          · intro x _
            refine ⟨rfl, ?_⟩
            cases hs : x.stage <;> simp [Executions.cancel, Stage.done, hs]
        · refine .changed (i := i) (f := Executions.renew (data.newLeaseId.getD ""))
            ⟨?_, ?_, ?_, ?_⟩
          · simp [dispatch, ExecutionState.handleMsg, ExecutionState.leaseExtendAck,
              Executions.leaseExtendAck, hl, hlease]
          · rfl
          · exact hh
          · exact fun x _ => ⟨rfl, .rfl⟩
  | replyAck payload =>
    cases payload with
    | error e => exact .quiet (.inl ⟨rfl, rfl, hh⟩)
    | ok data => exact .quiet (.inl ⟨rfl, rfl, hh⟩)
  | closing => exact .quiet (.inl ⟨rfl, rfl, hh.trans ⟨rfl, fun _ => rfl⟩⟩)
  | hello | connectionReady payload | heartbeat | other => exact .quiet (.inl ⟨rfl, rfl, hh⟩)

theorem handleMsg_step (n : ℕ) (raw : RawMessage) :
    PendingStep cfg w (.message raw) (w.handleMsg cfg n raw) := by
  unfold handleMsg
  split
  · exact .quiet (.inl ⟨rfl, rfl, .refl _⟩)
  · split
    · exact .quiet (.inl (.refl w))
    · exact .quiet (.inl (.refl w))
    · split
      · exact .quiet (.inl ⟨rfl, rfl, ⟨rfl, fun _ => rfl⟩⟩)
      · exact dispatch_step _ _ ‹_› ‹_›

theorem loop_step (he : e = .gatewaySelected ∨ e = .losersCancelled ∨ e = .connected ∨
    e = .handlersClosed ∨ e = .handlersTimedOut ∨ e = .runStopped ∨
    ∃ res, e = .startResponse res) : MayClose w (effect cfg e w) := by
  rcases he with rfl | rfl | rfl | rfl | rfl | rfl | ⟨res, rfl⟩ <;> unfold effect <;>
    dsimp only <;> split
  · exact selectGateway_mayClose _
  · exact .inl (.refl w)
  · exact (proceed_proceeds _).mayClose
  · exact .inl (.refl w)
  · exact .inl ⟨rfl, rfl, ⟨rfl, fun _ => rfl⟩⟩
  · exact .inl (.refl w)
  · exact .inl ⟨rfl, rfl, ⟨rfl, fun _ => rfl⟩⟩
  · exact .inl (.refl w)
  · exact .inl ⟨rfl, rfl, ⟨rfl, fun _ => rfl⟩⟩
  · exact .inl (.refl w)
  · exact .inl ⟨rfl, rfl, ⟨rfl, fun _ => rfl⟩⟩
  · exact .inl (.refl w)
  · exact .inl ⟨rfl, rfl, .of_starts ConnInitStarter.responded_starts⟩
  · exact .inl (.refl w)

theorem execution_step {i : ℕ} (hready : w.ready (.execution i) = true) :
    PendingStep cfg w (.execution i) (effect cfg (.execution i) w) := by
  apply onExecution_step (count_step cfg (e := .execution i) rfl (by simp))
  intro x hx
  rw [ready, stage?_eq hx] at hready
  refine ⟨?_, ExecuteRequest.resume_stage hready⟩
  rintro hr
  simp [hr, ExecuteRequest.resumable] at hready

theorem executionSent_step {i : ℕ} {r : SendResult} (hready : w.ready (.executionSent i r) = true) :
    PendingStep cfg w (.executionSent i r) (effect cfg (.executionSent i r) w) := by
  apply onExecution_step (count_step cfg (e := .executionSent i r) rfl (by simp))
  intro x hx
  rw [ready, stage?_eq hx] at hready
  refine ⟨?_, ExecuteRequest.settled_stage⟩
  rintro hr
  simp [hr] at hready

theorem executionPosted_step {i : ℕ} {r : Except PyError CommResponse}
    (hready : w.ready (.executionPosted i r) = true) :
    PendingStep cfg w (.executionPosted i r) (effect cfg (.executionPosted i r) w) := by
  apply onExecution_step (count_step cfg (e := .executionPosted i r) rfl (by simp))
  intro x hx
  rw [ready, stage?_eq hx] at hready
  refine ⟨?_, ExecuteRequest.posted_answers.stage⟩
  rintro hr
  simp [hr] at hready

variable (cfg) in
theorem pendingStep (he : enabled e w = true) : PendingStep cfg w e (effect cfg e w) := by
  have hready : w.ready e = true := by
    simp only [enabled, Bool.and_eq_true] at he
    exact he.1
  cases e with
  | start | clock t => exact .quiet (.inl ⟨rfl, rfl, .refl _⟩)
  | close =>
    refine .quiet (.inl ?_)
    rw [effect, close]
    split
    · exact .refl w
    · exact ⟨rfl, rfl, ⟨rfl, fun _ => rfl⟩⟩
  | runStarted | connectionLeft | retry => exact .quiet loopHead_proceeds.mayClose
  | gatewayTask t | connInitChanged | connectionSettled | sendData =>
    refine .quiet (.inl ⟨?_, ?_, count_step cfg rfl (by simp)⟩) <;> unfold effect <;> dsimp only <;>
      split <;> rfl
  | gatewaySelected | losersCancelled | connected | handlersClosed | handlersTimedOut | runStopped
  | startResponse res => exact .quiet (loop_step (by simp))
  | connectFailed | disconnected | heartbeat | heartbeatSent r | reconnectWatcher | dataSent r
  | leaseExtender | leaseSent r | flushPoller | flushed =>
    exact .quiet (.inl ⟨rfl, rfl, count_step cfg rfl (by simp)⟩)
  | message raw =>
    unfold effect
    dsimp only
    split
    · exact handleMsg_step _ _
    · exact .quiet (.inl (.refl w))
  | closer i => exact .quiet (resumeCloser_mayClose i)
  | closeFinished i | closeTimedOut i => exact .quiet (.inl ⟨rfl, rfl, ⟨rfl, fun _ => rfl⟩⟩)
  | closeSequence h => exact .sequence h
  | startRequest => exact .quiet (.inl ⟨rfl, rfl, .of_starts ConnInitStarter.resume_starts⟩)
  | execution i => exact execution_step hready
  | executionSent i r => exact executionSent_step hready
  | executionPosted i r => exact executionPosted_step hready
  | executionCallback i =>
    have hs : w.stage? i = some .finished := by simpa [ready] using hready
    obtain ⟨x, hx, hf⟩ := Option.map_eq_some_iff.mp hs
    exact .removed hx hf

end Worker

end Inngest.Connect
