import Inngest.Connect.Pending

/-!
# What a step does to the executions, their leases and their replies

Most events are none of the execution handler's, and may only tell it to
close. What the others do to the pending requests, the lease extender, the
reply buffer and the flush poller is said here once.
-/

set_option autoImplicit false

namespace Inngest.Connect
open Errors Transition

namespace Event

def ofExecutions : Event → Bool
  | .message _ | .closeSequence _ | .execution _ | .executionSent _ _ | .executionPosted _ _
  | .executionCallback _ | .leaseExtender | .leaseSent _ | .flushPoller | .flushed => true
  | _ => false

def execution? : Event → Option ℕ
  | .execution i | .executionSent i _ | .executionPosted i _ => some i
  | _ => none

end Event

namespace Worker
variable {cfg : Config} {w w' w'' : Worker} {e : Event}

structure Elsewhere (w w' : Worker) : Prop where
  tasks : w'.executions.tasks = w.executions.tasks
  pending : w'.executions.pending = w.executions.pending
  leaseExtender : w'.leaseExtender = w.leaseExtender
  buffer : w'.buffer = w.buffer
  flushPoller : w'.flushPoller = w.flushPoller
  leases : w'.leases = w.leases
  replies : w'.replies = w.replies
  closed : w'.closed .execution = true → w.closed .execution = true

namespace Elsewhere

theorem refl (w : Worker) : Elsewhere w w := ⟨rfl, rfl, rfl, rfl, rfl, rfl, rfl, id⟩

theorem trans (h : Elsewhere w w') (h' : Elsewhere w' w'') : Elsewhere w w'' where
  tasks := h'.tasks.trans h.tasks
  pending := h'.pending.trans h.pending
  leaseExtender := h'.leaseExtender.trans h.leaseExtender
  buffer := h'.buffer.trans h.buffer
  flushPoller := h'.flushPoller.trans h.flushPoller
  leases := h'.leases.trans h.leases
  replies := h'.replies.trans h.replies
  closed hc := h.closed (h'.closed hc)

theorem closeHandlers (w : Worker) : Elsewhere w w.closeHandlers where
  tasks := rfl
  pending := rfl
  leaseExtender := rfl
  buffer := rfl
  flushPoller := rfl
  leases := rfl
  replies := rfl
  closed hc := by
    simp only [Worker.closed, Worker.closeHandlers, decide_eq_true_eq] at hc ⊢
    cases hs : w.closeSequence .execution <;> simp_all

end Elsewhere

theorem Proceeds.elsewhere (h : Proceeds w w') : Elsewhere w w' := by
  cases h with
  | on run => exact ⟨rfl, rfl, rfl, rfl, rfl, rfl, rfl, id⟩
  | closing run =>
    exact (Elsewhere.closeHandlers w).trans ⟨rfl, rfl, rfl, rfl, rfl, rfl, rfl, id⟩

theorem resumeCloser_elsewhere (i : ℕ) : Elsewhere w (w.resumeCloser i) := by
  have hbegin : Elsewhere w (w.beginClose i) :=
    (Elsewhere.closeHandlers w).trans ⟨rfl, rfl, rfl, rfl, rfl, rfl, rfl, id⟩
  rw [resumeCloser]
  split
  · split
    · exact ⟨rfl, rfl, rfl, rfl, rfl, rfl, rfl, id⟩
    · exact hbegin
  · exact hbegin
  · exact .refl w

variable (cfg) in
theorem elsewhere_step (he : e.ofExecutions = false) : Elsewhere w (effect cfg e w) := by
  cases e with
  | start | clock t | connectFailed | disconnected | closeFinished i | closeTimedOut i
  | startRequest | heartbeat | heartbeatSent r | reconnectWatcher | dataSent r =>
    exact ⟨rfl, rfl, rfl, rfl, rfl, rfl, rfl, id⟩
  | close =>
    rw [effect, close]
    split <;> exact ⟨rfl, rfl, rfl, rfl, rfl, rfl, rfl, id⟩
  | runStarted | connectionLeft | retry => exact loopHead_proceeds.elsewhere
  | gatewayTask t | connected | connInitChanged | connectionSettled | handlersClosed
  | handlersTimedOut | runStopped | startResponse res | sendData =>
    unfold effect
    dsimp only
    split <;> exact ⟨rfl, rfl, rfl, rfl, rfl, rfl, rfl, id⟩
  | gatewaySelected =>
    unfold effect
    dsimp only
    split
    · unfold selectGateway
      split
      · exact .refl w
      · split
        · exact (proceed_proceeds _).elsewhere
        · exact ⟨rfl, rfl, rfl, rfl, rfl, rfl, rfl, id⟩
    · exact .refl w
  | losersCancelled =>
    unfold effect
    dsimp only
    split
    · exact (proceed_proceeds _).elsewhere
    · exact .refl w
  | closer i => exact resumeCloser_elsewhere i
  | message raw | closeSequence h | execution i | executionSent i r | executionPosted i r
  | executionCallback i | leaseExtender | leaseSent r | flushPoller | flushed =>
    simp [Event.ofExecutions] at he

end Worker

/-! ## The messages -/

inductive ExecutionState.Handles (cfg : Config) (x : ExecutionState) :
    GatewayMessage → ExecutionState → Prop where
  | nothing {msg : GatewayMessage} : Handles cfg x msg x
  | accepted {msg : GatewayMessage} {req : GatewayExecutorRequestData}
    (h : x.executions.accepts cfg msg = some req) : Handles cfg x msg (x.add req)
  | renewed {data : WorkerRequestExtendLeaseAckData} {i : ℕ} {lease : String}
    (hi : x.executions.pending.lookup data.requestId = some i)
    (hl : data.newLeaseId.getD "" = lease) (hne : lease ≠ "") :
    Handles cfg x (.extendLeaseAck (.ok data)) { x with
      executions := { x.executions with
        tasks := x.executions.tasks.modify i (Executions.renew lease) }
      leases := .acked data.requestId lease :: x.leases }
  | nacked {data : WorkerRequestExtendLeaseAckData} {i : ℕ}
    (hi : x.executions.pending.lookup data.requestId = some i)
    (hl : data.newLeaseId.getD "" = "") :
    Handles cfg x (.extendLeaseAck (.ok data)) { x with
      executions := { x.executions with
        tasks := x.executions.tasks.modify i Executions.cancel }
      leases := .nacked data.requestId :: x.leases }
  | acked {data : WorkerReplyAckData} :
    Handles cfg x (.replyAck (.ok data)) (x.workerReplyAck data)

theorem ExecutionState.handleMsg_handles {cfg : Config} (x : ExecutionState)
    (msg : GatewayMessage) : Handles cfg x msg (x.handleMsg cfg msg) := by
  cases msg with
  | executorRequest payload =>
    cases ha : x.executions.accepts cfg (.executorRequest payload) with
    | none =>
      rw [handleMsg, ha]
      exact .nothing
    | some req =>
      rw [handleMsg, ha]
      exact .accepted ha
  | extendLeaseAck payload =>
    cases payload with
    | error e => exact .nothing
    | ok data =>
      rw [handleMsg, leaseExtendAck, Executions.leaseExtendAck]
      cases hi : x.executions.pending.lookup data.requestId with
      | none => exact .nothing
      | some i =>
        dsimp only
        split
        · exact .renewed hi rfl ‹_›
        · exact .nacked hi (not_not.mp ‹_›)
  | replyAck payload =>
    cases payload with
    | error e => exact .nothing
    | ok data => exact .acked
  | hello | connectionReady payload | heartbeat | closing | other => exact .nothing

/-! ## The executions -/

def Stage.early : Stage → Bool
  | .created | .waitingWs | .acking _ | .executing => true
  | _ => false

/-- With this response to answer with, the reply is an internal error, which
does not go to the buffer. -/
def unbuffered (cfg : Config) (answer : Option (Except PyError CommResponse)) : Bool :=
  match answer with
  | none => false
  | some (.error _) => (cfg.bodyBytes ExecuteRequest.internalError).isOk
  | some (.ok res) =>
    !(cfg.bodyBytes res).isOk && (cfg.bodyBytes ExecuteRequest.internalError).isOk

def payload? (cfg : Config) (req : GatewayExecutorRequestData)
    (answer : Option (Except PyError CommResponse)) : Option Bytes :=
  match answer with
  | some (.ok res) =>
    (cfg.bodyBytes res).toOption.map fun body =>
      cfg.serialize (ExecuteRequest.sdkResponse cfg req res body)
  | _ => none

inductive Files (cfg : Config) (i : ℕ) (x : Execution) (now : ℚ) (b : ReplyBuffer)
    (answer : Option (Except PyError CommResponse)) : ExecutionBlock → Prop where
  | nothing {r : ExecutionBlock} (hb : r.buffer = b) (hm : r.replies = [])
    (hs : r.stage.early = true → x.stage.early = true) : Files cfg i x now b answer r
  | stored {r : ExecutionBlock} {payload : Bytes} (hx : x.stage.early = true)
    (hp : payload? cfg x.req answer = some payload)
    (hb : r.buffer = (b.add Reply.len x.req.requestId ⟨i, payload⟩ now).buffer)
    (hm : r.replies = .replying i :: ExecuteRequest.storeMarks i x.req
      (b.add Reply.len x.req.requestId ⟨i, payload⟩ now))
    (hs : r.stage.early = false) : Files cfg i x now b answer r
  | failed {r : ExecutionBlock} (ha : unbuffered cfg answer = true) (hb : r.buffer = b)
    (hm : r.replies = [.replying i]) (hs : r.stage.early = false) : Files cfg i x now b answer r

namespace ExecuteRequest
variable {cfg : Config} {i : ℕ} {x : Execution} {now : ℚ} {s : State} {b : ReplyBuffer}
  {answer : Option (Except PyError CommResponse)}

theorem storeMarks_accepted {req : GatewayExecutorRequestData} {added : Added Reply}
    (ha : added.accepted = true) : storeMarks i req added =
      .stored i req.requestId :: added.evicted.map fun item => .evicted item.data.task := by
  rw [storeMarks, if_pos ha]

/-- A reply that is stored after these marks is the present one, or an earlier
one that they do not speak of. -/
theorem since_stored {Q : ReplyMark → Prop} {j : ℕ} {id id' : String}
    {evicted : List (BufferItem Reply)} {past : List ReplyMark}
    (h : Since Q (.stored j id') (.replying i :: .stored i id ::
      (evicted.map (fun item => .evicted item.data.task) ++ past))) :
    j = i ∧ id' = id ∨ ¬ Q (.stored i id) ∧ (∀ item ∈ evicted, ¬ Q (.evicted item.data.task)) ∧
      Since Q (.stored j id') past := by
  rw [since_cons, since_cons, since_append] at h
  rcases (h.resolve_left (by simp)).2 with heq | ⟨hne, hs⟩
  · left
    simpa [eq_comm] using heq
  · rcases hs with hs | ⟨hev, hs⟩
    · simpa using hs.mem
    · exact .inr ⟨hne, fun item hi => hev _ (List.mem_map_of_mem hi), hs⟩

theorem fail_files
    (ha : ∀ body, cfg.bodyBytes internalError = .ok body → unbuffered cfg answer = true) :
    Files cfg i x now b answer (fail cfg i x.req s b) := by
  unfold fail
  split
  · exact .nothing rfl rfl (by simp [Stage.early])
  · rename_i body hbody
    split
    · exact .failed (ha body hbody) rfl rfl rfl
    · exact .failed (ha body hbody) rfl rfl rfl

theorem reply_files (hx : x.stage.early = true) {payload : Bytes}
    (hp : payload? cfg x.req answer = some payload) :
    Files cfg i x now b answer (reply i x.req now payload s b) := by
  unfold reply
  dsimp only
  split <;> exact .stored hx hp rfl rfl rfl

theorem respond_files (hx : x.stage.early = true) (res : CommResponse) :
    Files cfg i x now b (some (.ok res)) (respond cfg i x.req now res s b) := by
  unfold respond
  split
  · rename_i e he
    apply fail_files
    intro body hbody
    simp [unbuffered, he, hbody, Except.isOk, Except.toBool]
  · rename_i body hbody
    exact reply_files hx (by simp [payload?, hbody, Except.toOption])

theorem posted_files (hx : x.stage.early = true) (r : Except PyError CommResponse) :
    Files cfg i x now b (some r) (posted cfg i x.req now r s b) := by
  unfold posted
  split
  · apply fail_files
    intro body hbody
    simp [unbuffered, hbody, Except.isOk, Except.toBool]
  · exact respond_files hx _

end ExecuteRequest

namespace Worker
variable {cfg : Config} {w w' : Worker} {e : Event} {i : ℕ} {x : Execution}

def answer (e : Event) (w : Worker) : Option (Except PyError CommResponse) :=
  match e with
  | .execution i =>
    if w.stage? i = some .waitingWs ∧ w.state.ws.value = none then
      some (.ok (CommResponse.fromError ExecuteRequest.noWebSocket))
    else none
  | .executionSent i r =>
    match w.stage? i, r with
    | some (.acking _), .connectionClosed e | some (.acking _), .failed e =>
      some (.ok (CommResponse.fromError e))
    | _, _ => none
  | .executionPosted _ r => some r
  | _ => none

theorem execution_files (hx : w.executions.tasks[i]? = some x) :
    Files cfg i x w.now w.buffer (answer (.execution i) w)
      (ExecuteRequest.resume cfg i x.req w.now x.stage w.state w.buffer) := by
  have hstage := stage?_eq hx
  cases hs : x.stage with
  | created =>
    cases hws : w.state.ws.value with
    | none =>
      simp only [ExecuteRequest.resume, hws]
      exact .nothing rfl rfl fun _ => by simp [hs, Stage.early]
    | some n =>
      simp only [ExecuteRequest.resume, ExecuteRequest.ack, hws]
      exact .nothing rfl rfl fun _ => by simp [hs, Stage.early]
  | waitingWs =>
    cases hws : w.state.ws.value with
    | none =>
      have ha : answer (.execution i) w =
          some (.ok (CommResponse.fromError ExecuteRequest.noWebSocket)) := by
        simp [answer, hstage, hs, hws]
      have hack : ExecuteRequest.resume cfg i x.req w.now .waitingWs w.state w.buffer =
          ExecuteRequest.respond cfg i x.req w.now
            (CommResponse.fromError ExecuteRequest.noWebSocket)
            (w.state.release (.execution i)) w.buffer := by
        simp [ExecuteRequest.resume, ExecuteRequest.ack, State.release, hws]
      rw [ha, hack]
      exact ExecuteRequest.respond_files (by simp [hs, Stage.early]) _
    | some n =>
      have hack : ExecuteRequest.resume cfg i x.req w.now .waitingWs w.state w.buffer =
          ⟨w.state.release (.execution i), .acking n, some (n, .requestAck x.req.ackData),
            w.buffer, []⟩ := by
        simp [ExecuteRequest.resume, ExecuteRequest.ack, State.release, hws]
      rw [hack]
      exact .nothing rfl rfl fun _ => by simp [hs, Stage.early]
  | cancelling => exact .nothing rfl rfl (by simp [ExecuteRequest.resume, Stage.early])
  | acking n | executing | replying n | failing n | finished | removed =>
    exact .nothing rfl rfl (by simp [ExecuteRequest.resume, hs])

theorem executionSent_files (hx : w.executions.tasks[i]? = some x) (r : SendResult) :
    Files cfg i x w.now w.buffer (answer (.executionSent i r) w)
      (ExecuteRequest.settled cfg i x.req w.now x.stage r w.state w.buffer) := by
  have hstage := stage?_eq hx
  cases hs : x.stage with
  | acking n =>
    rw [hs] at hstage
    have hearly : x.stage.early = true := by simp [hs, Stage.early]
    cases r with
    | ok => exact .nothing rfl rfl fun _ => hearly
    | connectionClosed e | failed e =>
      simp only [answer, hstage]
      exact ExecuteRequest.respond_files hearly _
  | created | waitingWs | executing | replying n | failing n | cancelling | finished | removed =>
    exact .nothing rfl rfl (by simp [ExecuteRequest.settled, Stage.early])

theorem executionPosted_files (hx : w.executions.tasks[i]? = some x)
    {r : Except PyError CommResponse} (he : w.ready (.executionPosted i r) = true) :
    Files cfg i x w.now w.buffer (answer (.executionPosted i r) w)
      (ExecuteRequest.posted cfg i x.req w.now r w.state w.buffer) := by
  have hs : x.stage = .executing := by simpa [ready, stage?_eq hx] using he
  exact ExecuteRequest.posted_files (by simp [hs, Stage.early]) r

/-! ## The lease extender -/

/-- The requests that the extender turns to: what is left of its snapshot, or
the snapshot that it takes after the delay. -/
def turn (e : Event) (w : Worker) : List ℕ :=
  match e with
  | .leaseExtender => if w.leaseExtender = .sleeping then w.executions.pending.values else []
  | .leaseSent _ => w.leaseExtender.rest
  | _ => []

inductive Extends (e : Event) (w : Worker) : LeaseBlock → Prop where
  | idle {b : LeaseBlock} (hp : b.pc.rest = []) (hs : b.sent = none) : Extends e w b
  | next {b : LeaseBlock} {n i : ℕ} {rest : List ℕ} (ht : w.turn e = i :: rest)
    (hws : w.state.ws.value = some n) (hp : b.pc = .sending n rest)
    (hs : b.sent = w.executions.tasks[i]?.map fun x => (n, x.req.extendLeaseData)) :
    Extends e w b

theorem loop_extends (closed : Bool) (s : State) : Extends e w (LeaseExtender.loop closed s) := by
  unfold LeaseExtender.loop LeaseExtender.awaitInterval
  repeat' split
  all_goals exact .idle rfl rfl

theorem extend_extends (closed : Bool) {s : State} {tasks : List ℕ} (ht : w.turn e = tasks)
    (hws : ∀ n, s.ws.value = some n → w.state.ws.value = some n) :
    Extends e w (LeaseExtender.extend closed w.executions.tasks tasks s) := by
  unfold LeaseExtender.extend
  split
  · exact .next ht (hws _ ‹_›) rfl rfl
  · exact loop_extends _ _

theorem leaseExtender_extends (closed : Bool)
    (hr : LeaseExtender.resumable w.leaseExtender w.state = true) :
    Extends .leaseExtender w
      (LeaseExtender.resume closed w.executions w.leaseExtender w.state) := by
  cases hpc : w.leaseExtender with
  | created => exact loop_extends _ _
  | waitingWs =>
    unfold LeaseExtender.resume LeaseExtender.awaitInterval
    dsimp only
    split <;> exact .idle rfl rfl
  | waitingInterval => exact .idle rfl rfl
  | sleeping =>
    unfold LeaseExtender.resume LeaseExtender.wake
    dsimp only
    split
    · exact loop_extends _ _
    · exact extend_extends _ (by simp [turn, hpc]) fun _ hn => hn
  | sending n rest | stopped => simp [hpc, LeaseExtender.resumable] at hr

theorem leaseSent_extends (closed : Bool) (r : SendResult) :
    Extends (.leaseSent r) w
      (LeaseExtender.settled closed w.executions w.leaseExtender r w.state) := by
  apply extend_extends _ rfl
  intro n hn
  cases r with
  | ok | failed e => exact hn
  | connectionClosed e => simp [SendResult.settle, State.closeWs] at hn

end Worker

/-! ## The flush poller -/

namespace FlushPc

def item? : FlushPc → Option (BufferItem Reply)
  | .flushing _ item _ | .interrupted item => some item
  | _ => none

def items : FlushPc → List (BufferItem Reply)
  | .flushing _ item rest => item :: rest
  | .interrupted item => [item]
  | _ => []

theorem mem_items {pc : FlushPc} {item : BufferItem Reply} (h : pc.item? = some item) :
    item ∈ pc.items := by
  cases pc <;> simp_all [item?, items]

theorem items_cancel {pc : FlushPc} {item : BufferItem Reply}
    (h : item ∈ (FlushPoller.cancel pc).items) : item ∈ pc.items := by
  cases pc <;> simp_all [FlushPoller.cancel, items]

theorem item?_cancel {pc : FlushPc} {item : BufferItem Reply}
    (h : (FlushPoller.cancel pc).item? = some item) : pc.item? = some item := by
  cases pc <;> simp_all [FlushPoller.cancel, item?]

end FlushPc

namespace Worker
variable {cfg : Config} {w w' : Worker} {e : Event}

inductive Flushes (w : Worker) : FlushBlock → Prop where
  | idle {b : FlushBlock} (hb : b.buffer = w.buffer) (hm : b.replies = [])
    (hp : b.pc.items = []) : Flushes w b
  | begun {b : FlushBlock} {item : BufferItem Reply} {seconds : ℚ} (hb : b.buffer = w.buffer)
    (hm : b.replies = [.flushStart item.data.task]) (hp : b.pc.item? = some item)
    (hi : ∀ item ∈ b.pc.items, item ∈ w.buffer.getOlderThan seconds w.now) : Flushes w b
  | ended {b : FlushBlock} {item : BufferItem Reply} (hw : w.flushPoller.item? = some item)
    (hb : b.buffer = w.buffer.delete Reply.len item.id)
    (hm : b.replies = [.flushEnd item.data.task]) (hp : b.pc.items = []) : Flushes w b
  | next {b : FlushBlock} {item item' : BufferItem Reply} (hw : w.flushPoller.item? = some item)
    (hb : b.buffer = w.buffer.delete Reply.len item.id)
    (hm : b.replies = [.flushStart item'.data.task, .flushEnd item.data.task])
    (hp : b.pc.item? = some item') (hi : ∀ item ∈ b.pc.items, item ∈ w.flushPoller.items) :
    Flushes w b
  | dropped {b : FlushBlock} {item : BufferItem Reply} (hw : w.flushPoller = .interrupted item)
    (hb : b.buffer = w.buffer.delete Reply.len item.id) (hm : b.replies = [])
    (hp : b.pc.items = []) : Flushes w b

theorem loop_flushes (closed : Bool) (ttl : ℕ) (s : State) :
    Flushes w (FlushPoller.loop closed ttl w.now s w.buffer) := by
  unfold FlushPoller.loop FlushPoller.flush
  split
  · exact .idle rfl rfl rfl
  · split
    · exact .idle rfl rfl rfl
    · rename_i heq
      exact .begun rfl rfl rfl fun item hi => by rwa [heq]

theorem flushPoller_flushes (closed : Bool)
    (hr : FlushPoller.resumable w.flushPoller w.state = true) :
    Flushes w (FlushPoller.resume closed w.now w.flushPoller w.state w.buffer) := by
  cases hpc : w.flushPoller with
  | created =>
    unfold FlushPoller.resume FlushPoller.start
    dsimp only
    split
    · exact loop_flushes _ _ _
    · exact .idle rfl rfl rfl
  | waitingInterval => exact loop_flushes _ _ _
  | sleeping ttl => exact loop_flushes _ _ _
  | interrupted item => exact .dropped hpc rfl rfl rfl
  | flushing ttl item rest | stopped => simp [hpc, FlushPoller.resumable] at hr

theorem flushed_flushes {ttl : ℕ} {item : BufferItem Reply} {rest : List (BufferItem Reply)}
    (hpc : w.flushPoller = .flushing ttl item rest) :
    Flushes w (FlushPoller.flushed w.flushPoller w.state w.buffer) := by
  rw [hpc]
  cases rest with
  | nil => exact .ended (by rw [hpc]; rfl) rfl rfl rfl
  | cons item' rest =>
    refine .next (by rw [hpc]; rfl) rfl rfl rfl fun i hi => ?_
    rw [hpc]
    exact .tail _ hi

/-! ## The close sequences -/

/-- A step of a close sequence stops one of the handler's two tasks, or none.
The handler is closed when there is nothing left to stop. -/
structure Closes (h : Handler) (w w' : Worker) : Prop where
  tasks : w'.executions.tasks = w.executions.tasks
  pending : w'.executions.pending = w.executions.pending
  leaseExtender : w'.leaseExtender = w.leaseExtender ∨ w'.leaseExtender = .stopped
  buffer : w'.buffer = w.buffer
  flushPoller : w'.flushPoller = w.flushPoller ∨
    w'.flushPoller = FlushPoller.cancel w.flushPoller
  leases : w'.leases = w.leases
  replies : w'.replies = w.replies
  closed : w'.closed .execution = true →
    w.closed .execution = true ∨ h = .execution ∧ ∃ b, w.closeSequence h = .draining b []

theorem Elsewhere.closes (h : Elsewhere w w') (k : Handler) : Closes k w w' :=
  ⟨h.tasks, h.pending, .inl h.leaseExtender, h.buffer, .inl h.flushPoller, h.leases, h.replies,
    fun hc => .inl (h.closed hc)⟩

theorem closed_setSequence (h : Handler) (seq : CloseSequence) (hseq : seq ≠ .closed)
    (hc : (w.setSequence h seq).closed .execution = true) : w.closed .execution = true := by
  simp only [closed, setSequence, Function.update_apply, decide_eq_true_eq] at hc ⊢
  split at hc
  · exact absurd hc hseq
  · exact hc

theorem drain_closes (h : Handler) {rest : List Background}
    (hrest : rest = [] → h = .execution → ∃ b, w.closeSequence h = .draining b []) :
    Closes h w (w.drain h rest) := by
  cases rest with
  | nil =>
    refine ⟨rfl, rfl, .inl rfl, rfl, .inl rfl, rfl, rfl, fun hc => ?_⟩
    by_cases hh : h = .execution
    · exact .inr ⟨hh, hrest rfl hh⟩
    · left
      simp only [closed, drain, setSequence, Function.update_apply, decide_eq_true_eq] at hc ⊢
      rwa [if_neg (Ne.symm hh)] at hc
  | cons b rest =>
    have hclosed : (w.drain h (b :: rest)).closed .execution = true →
        w.closed .execution = true := by
      intro hc
      have := closed_setSequence (w := w.cancel b) h _ (by simp) hc
      cases b <;> exact this
    cases b with
    | leaseExtender =>
      exact ⟨rfl, rfl, .inr rfl, rfl, .inl rfl, rfl, rfl, fun hc => .inl (hclosed hc)⟩
    | flushPoller =>
      exact ⟨rfl, rfl, .inl rfl, rfl, .inr rfl, rfl, rfl, fun hc => .inl (hclosed hc)⟩
    | startRequest | startWatcher | heartbeatSender | sendData | reconnectWatcher =>
      exact ⟨rfl, rfl, .inl rfl, rfl, .inl rfl, rfl, rfl, fun hc => .inl (hclosed hc)⟩

theorem resumeSequence_closes (h : Handler) : Closes h w (w.resumeSequence h) := by
  have hfirst : h.afterCloseDrained = [] → h = .execution →
      ∃ b, w.closeSequence h = .draining b [] := by
    rintro hnil rfl
    simp [Handler.afterCloseDrained] at hnil
  unfold resumeSequence
  split
  · split
    · exact drain_closes h hfirst
    · refine ⟨rfl, rfl, .inl rfl, rfl, .inl rfl, rfl, rfl, fun hc => .inl ?_⟩
      exact closed_setSequence h .waiting (by simp) hc
  · obtain ⟨h1, h2, h3, h4, h5, h6, h7, h8⟩ :=
      drain_closes (w := { w with state := w.state.release (.closeSequence h) }) h hfirst
    exact ⟨h1, h2, h3, h4, h5, h6, h7, h8⟩
  · rename_i b rest hseq
    apply drain_closes
    rintro rfl -
    exact ⟨b, hseq⟩
  · exact (Elsewhere.refl w).closes h

/-! ## All steps -/

structure Shows (w w' : Worker) (x : ExecutionState) : Prop where
  executions : w'.executions = x.executions
  buffer : w'.buffer = x.buffer
  leases : w'.leases = x.leases
  replies : w'.replies = x.replies
  leaseExtender : w'.leaseExtender = w.leaseExtender
  flushPoller : w'.flushPoller = w.flushPoller
  sequences : w'.closeSequence = w.closeSequence

inductive ExecutionStep (cfg : Config) (w : Worker) : Event → Worker → Prop where
  | elsewhere {e : Event} {w' : Worker} (h : Elsewhere w w') : ExecutionStep cfg w e w'
  | message {e : Event} {w' : Worker} {msg : GatewayMessage} {s : State} {x : ExecutionState}
    (hr : read e w = some msg)
    (hx : ExecutionState.Handles cfg ⟨s, w.executions, w.buffer, w.leases, w.replies⟩ msg x)
    (hw : Shows w w' x) : ExecutionStep cfg w e w'
  | execution {e : Event} {i : ℕ} {x : Execution} {b : ExecutionBlock}
    (he : e.execution? = some i) (hx : w.executions.tasks[i]? = some x)
    (hb : Files cfg i x w.now w.buffer (answer e w) b) : ExecutionStep cfg w e (w.runExecution i b)
  | removed {i : ℕ} {x : Execution} (hx : w.executions.tasks[i]? = some x)
    (hf : x.stage = .finished) : ExecutionStep cfg w (.executionCallback i) (w.executionDone i)
  | leases {e : Event} {b : LeaseBlock} (hb : Extends e w b) :
    ExecutionStep cfg w e (w.runLeases b)
  | flush {e : Event} {b : FlushBlock} (he : e = .flushPoller ∨ e = .flushed)
    (hb : Flushes w b) : ExecutionStep cfg w e (w.runFlush b)
  | sequence {h : Handler} {w' : Worker} (hw : Closes h w w') :
    ExecutionStep cfg w (.closeSequence h) w'

variable (cfg) in
theorem onExecution_files {i : ℕ} {f : Execution → ExecutionBlock} (he : e.execution? = some i)
    (hf : ∀ x, w.executions.tasks[i]? = some x →
      Files cfg i x w.now w.buffer (answer e w) (f x)) :
    ExecutionStep cfg w e (w.onExecution i f) := by
  unfold onExecution
  split
  · exact .elsewhere (.refl w)
  · exact .execution he ‹_› (hf _ ‹_›)

variable (cfg) in
theorem message_files (n : ℕ) (raw : RawMessage) :
    ExecutionStep cfg w (.message raw) (w.handleMsg cfg n raw) := by
  unfold handleMsg
  split
  · exact .elsewhere ⟨rfl, rfl, rfl, rfl, rfl, rfl, rfl, id⟩
  · split
    · exact .elsewhere (.refl w)
    · exact .elsewhere (.refl w)
    · split
      · exact .elsewhere ⟨rfl, rfl, rfl, rfl, rfl, rfl, rfl, id⟩
      · rename_i hi _ msg _ c hc
        exact .message (by simp [read, hi, hc]) (ExecutionState.handleMsg_handles _ msg)
          ⟨rfl, rfl, rfl, rfl, rfl, rfl, rfl⟩

variable (cfg) in
theorem executionStep (he : enabled e w = true) : ExecutionStep cfg w e (effect cfg e w) := by
  have hready : w.ready e = true := by
    simp only [enabled, Bool.and_eq_true] at he
    exact he.1
  cases hof : e.ofExecutions with
  | false => exact .elsewhere (elsewhere_step cfg hof)
  | true =>
    cases e with
    | message raw =>
      unfold effect
      dsimp only
      split
      · exact message_files cfg _ raw
      · exact .elsewhere (.refl w)
    | closeSequence h => exact .sequence (resumeSequence_closes h)
    | execution i => exact onExecution_files cfg rfl fun x hx => execution_files hx
    | executionSent i r => exact onExecution_files cfg rfl fun x hx => executionSent_files hx r
    | executionPosted i r =>
      exact onExecution_files cfg rfl fun x hx => executionPosted_files hx hready
    | executionCallback i =>
      have hs : w.stage? i = some .finished := by simpa [ready] using hready
      obtain ⟨x, hx, hf⟩ := Option.map_eq_some_iff.mp hs
      exact .removed hx hf
    | leaseExtender => exact .leases (leaseExtender_extends _ hready)
    | leaseSent r => exact .leases (leaseSent_extends _ r)
    | flushPoller => exact .flush (.inl rfl) (flushPoller_flushes _ hready)
    | flushed =>
      simp only [ready] at hready
      split at hready
      · exact .flush (.inr rfl) (flushed_flushes ‹_›)
      · simp at hready
    | start | close | clock t | runStarted | gatewayTask t | gatewaySelected | losersCancelled
    | connected | connectFailed | connInitChanged | connectionSettled | connectionLeft | retry
    | handlersClosed | handlersTimedOut | runStopped | disconnected | closer i | closeFinished i
    | closeTimedOut i | startRequest | startResponse res | heartbeat | heartbeatSent r
    | reconnectWatcher | sendData | dataSent r => simp [Event.ofExecutions] at hof

end Worker

end Inngest.Connect
