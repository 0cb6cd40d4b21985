import Inngest.Connect.Steps

/-!
# Whose handshake it is

The start task asks for a gateway only while there is none and no connection
is in use, so that `conn_init` and `conn_id` are of one response. If a
connection begins with the response it was made for and with a handshake that
awaits GATEWAY_HELLO, what is sent on it belongs to it.
-/

set_option autoImplicit false

namespace Inngest.Connect
open Errors Transition

namespace StartPc

def busy : StartPc → Bool
  | .fetching _ _ | .sleeping _ _ => true
  | _ => false

end StartPc

namespace Worker
variable {cfg : Config} {w w' : Worker} {e : Event}

/-- When `websockets.connect` returns, `conn_init` still is the response that
was connected with, and the handshake has been reset. -/
def cleanConnect (e : Event) (w : Worker) : Bool :=
  match e, w.run with
  | .connected, .connecting init =>
    w.state.connInit.value = some init && w.handshake.state = .awaitingHello &&
      w.handshake.sendData.isNone
  | _, _ => true

/-! ## The start responses -/

structure StartKept (starter : StartPc) (s : State) : Prop where
  busy : starter.busy = true → s.connInit.value = none ∧ s.ws.value = none
  waiting : starter = .waiting → none ∈ s.connInit.queued .startRequest → s.connInit.value = none
  idle : s.ws.value ≠ none → s.connInit.value = none → s.connState.value = .closed
  connId : ∀ i, s.connInit.value = some i → s.connId = some i.connectionId

theorem startKept_initial : StartKept .created .initial where
  busy h := by simp [StartPc.busy] at h
  waiting h := by simp at h
  idle h := by simp [State.initial, ValueWatcher.new] at h
  connId i h := by simp [State.initial, ValueWatcher.new] at h

namespace StartKept
variable {starter starter' : StartPc} {s s' : State}

theorem calm {W : Task → Prop} (h : StartKept starter s) (hs : State.Calm W s s')
    (hst : starter' = starter ∨ starter' = .stopped)
    (hW : W .startRequest → starter' = .stopped) : StartKept starter' s' where
  busy hb := by
    have heq : starter' = starter := by
      rcases hst with rfl | rfl
      · rfl
      · simp [StartPc.busy] at hb
    obtain ⟨hi, hw⟩ := h.busy (heq ▸ hb)
    refine ⟨?_, ?_⟩
    · rcases hs.connInit with hv | ⟨hv, -⟩
      · rw [hv, hi]
      · exact hv
    · rcases hs.ws with hv | hv
      · rw [hv, hw]
      · exact hv
  waiting hwait := by
    have hne : starter' ≠ .stopped := by simp [hwait]
    have heq : starter' = starter := hst.resolve_right hne
    apply hs.connInit_keeps (t := .startRequest) (fun hw => hne (hW hw))
      (P := fun c => none ∈ c.queued .startRequest → c.value = none)
    · exact h.waiting (heq ▸ hwait)
    · intro c c' hc hv hq hmem
      rw [ValueWatcher.queued, hq] at hmem
      rw [hv]
      exact hc hmem
    · intro c _ _
      exact ValueWatcher.set_value
  idle hws hi := by
    have hws' : s'.ws.value = s.ws.value := by
      rcases hs.ws with hv | hv
      · exact hv
      · exact absurd hv hws
    have hi' : s'.connInit.value = s.connInit.value := by
      rcases hs.connInit with hv | ⟨-, hv⟩
      · exact hv
      · exact absurd hv hws
    rw [hws'] at hws
    rw [hi'] at hi
    exact hs.closed (h.idle hws hi)
  connId i hi := by
    rw [hs.connId]
    rcases hs.connInit with hv | ⟨hv, -⟩
    · exact h.connId i (hv ▸ hi)
    · simp [hv] at hi

theorem congr (h : StartKept starter s) (hid : s'.connId = s.connId)
    (hi : s'.connInit = s.connInit) (hw : s'.ws = s.ws)
    (hc : s.connState.value = .closed → s'.connState.value = .closed) : StartKept starter s' where
  busy := by rw [hi, hw]; exact h.busy
  waiting := by rw [hi]; exact h.waiting
  idle := by rw [hi, hw]; exact fun hws hn => hc (h.idle hws hn)
  connId := by rw [hi, hid]; exact h.connId

theorem clear (h : StartKept starter s) : StartKept starter
    { s with connState := s.connState.set .closed, connInit := s.connInit.set none } where
  busy hb := ⟨ValueWatcher.set_value, (h.busy hb).2⟩
  waiting _ _ := ValueWatcher.set_value
  idle _ _ := ValueWatcher.set_value
  connId i hi := by simp at hi

end StartKept

end Worker

namespace ConnInitStarter
open Worker
variable {cfg : Config} {closed : Bool} {s : State} {pc : StartPc} {err : Option PyError}

theorem begin_kept (h : ∀ pc, pc.busy = false → pc ≠ .waiting → StartKept pc s)
    (hi : s.connInit.value = none) : StartKept (begin closed s).2 (begin closed s).1 := by
  have hs := h .stopped rfl (by simp)
  rw [begin]
  split
  · exact hs
  · rename_i hopen
    have hws : s.ws.value = none := by
      by_contra hne
      exact hopen (hs.idle hne hi)
    constructor
    · exact fun _ => ⟨hi, hws⟩
    · exact fun _ _ => hi
    · exact fun hne => absurd hws hne
    · exact hs.connId

theorem loop_kept (h : ∀ pc, pc.busy = false → pc ≠ .waiting → StartKept pc s) :
    StartKept (loop closed err s).2 (loop closed err s).1 := by
  have hs := h .stopped rfl (by simp)
  unfold loop
  split
  · exact hs
  · cases err with
    | some e => exact hs.congr rfl rfl rfl id
    | none =>
      dsimp only
      split
      · exact begin_kept h ‹_›
      · constructor
        · simp [StartPc.busy]
        · simp [State.waitConnInit]
        · exact hs.idle
        · exact hs.connId

theorem kept_of_stopped (h : StartKept .stopped s) :
    ∀ pc, pc.busy = false → pc ≠ .waiting → StartKept pc s := by
  intro pc hb hw
  exact ⟨by simp [hb], fun heq => absurd heq hw, h.idle, h.connId⟩

theorem kept_stop (h : StartKept pc s) : StartKept .stopped s :=
  ⟨by simp [StartPc.busy], by simp, h.idle, h.connId⟩

theorem resume_kept (h : StartKept pc s) (hr : resumable pc s = true) :
    StartKept (resume closed pc s).2 (resume closed pc s).1 := by
  cases pc with
  | created => exact loop_kept (kept_of_stopped (kept_stop h))
  | waiting =>
    obtain ⟨v, hv⟩ := Option.isSome_iff_exists.mp hr
    obtain ⟨hmem, hnone⟩ := ValueWatcher.woken_mem hv
    have hnil : v = none := by simpa using hnone
    apply begin_kept
    · apply kept_of_stopped
      exact (kept_stop h).calm (.of_sameBut (.release .startRequest s) rfl) (.inl rfl) fun _ => rfl
    · exact h.waiting rfl (hnil ▸ hmem)
  | sleeping a e => exact ⟨fun _ => h.busy rfl, by simp [resume], h.idle, h.connId⟩
  | fetching a e | stopped => exact h

variable (cfg) in
theorem attempt_kept (res : StartResult) (h : StartKept pc s) (hb : pc.busy = true) :
    StartKept .stopped (attempt cfg res s).1 ∧
      ((attempt cfg res s).2 ≠ .success → (attempt cfg res s).1.connInit.value = none ∧
        (attempt cfg res s).1.ws.value = none) := by
  obtain ⟨hi, hw⟩ := h.busy hb
  have hid : ∀ c, StartKept .stopped { s with connId := some c } := by
    intro c
    refine ⟨by simp [StartPc.busy], by simp, h.idle, fun i hs => ?_⟩
    rw [hi] at hs
    simp at hs
  unfold attempt
  repeat' split
  all_goals first
    | exact ⟨kept_stop h, fun _ => ⟨hi, hw⟩⟩
    | exact ⟨hid _, fun _ => ⟨hi, hw⟩⟩
    | skip
  refine ⟨⟨by simp [StartPc.busy], by simp, fun hne => absurd hw hne, ?_⟩, by simp⟩
  intro i hs
  simp only [ValueWatcher.set_value, Option.some.injEq] at hs
  rw [← hs]

theorem responded_kept {attempts : ℕ} {res : StartResult} (h : StartKept pc s)
    (hb : pc.busy = true) :
    StartKept (responded cfg closed attempts res s).2 (responded cfg closed attempts res s).1 := by
  obtain ⟨hk, hn⟩ := attempt_kept cfg res h hb
  unfold responded afterAttempt
  split
  · exact loop_kept (kept_of_stopped hk)
  · exact loop_kept (kept_of_stopped hk)
  · split
    · rename_i e hretry _
      refine ⟨fun _ => hn (by simp [hretry]), by simp, hk.idle, hk.connId⟩
    · exact loop_kept (kept_of_stopped hk)

end ConnInitStarter

namespace Worker
variable {cfg : Config} {w w' : Worker} {e : Event}

theorem starter_calm (he : e.sets = false) :
    (effect cfg e w).starter = w.starter ∨ (effect cfg e w).starter = .stopped := by
  cases hc : e.ofConnection with
  | false => exact .inl (aside_step cfg hc).starter
  | true =>
    cases e with
    | closeSequence h => exact (resumeSequence_cancels h).starter
    | disconnected | heartbeat | heartbeatSent r | reconnectWatcher | dataSent r => exact .inl rfl
    | sendData =>
      unfold effect
      dsimp only
      split <;> exact .inl rfl
    | connected | message raw | startRequest | startResponse res => simp [Event.sets] at he
    | start | close | clock t | runStarted | gatewayTask t | gatewaySelected | losersCancelled
    | connectFailed | connInitChanged | connectionSettled | connectionLeft | retry
    | handlersClosed | handlersTimedOut | runStopped | closer i | closeFinished i
    | closeTimedOut i | execution i | executionSent i r | executionPosted i r
    | executionCallback i | leaseExtender | leaseSent r | flushPoller | flushed =>
      simp [Event.ofConnection] at hc

theorem handleMsg_starter (n : ℕ) (raw : RawMessage) :
    (w.handleMsg cfg n raw).starter = w.starter := by
  unfold handleMsg
  repeat' split
  all_goals rfl

theorem startKept_step (h : StartKept w.starter w.state) (he : enabled e w = true)
    (hc : cleanConnect e w = true) :
    StartKept (effect cfg e w).starter (effect cfg e w).state := by
  have hready : w.ready e = true := by
    simp only [enabled, Bool.and_eq_true] at he
    exact he.1
  cases hsets : e.sets with
  | false =>
    obtain ⟨W, hcalm, hW, -⟩ := calm_spares cfg (w := w) hsets
    exact h.calm hcalm (starter_calm hsets) hW
  | true =>
    cases e with
    | close =>
      rw [effect, close]
      split
      · exact h
      · rename_i hopen
        exact h.congr rfl rfl rfl fun hclosed => absurd (.inr hclosed) hopen
    | connected =>
      unfold effect
      dsimp only
      split
      · rename_i init hrun
        simp only [cleanConnect, hrun, Bool.and_eq_true, decide_eq_true_eq] at hc
        obtain ⟨⟨hi, -⟩, -⟩ := hc
        refine ⟨fun hb => ?_, fun hw hm => ?_, fun _ hn => ?_, h.connId⟩
        · rw [(h.busy hb).1] at hi
          simp at hi
        · apply h.waiting hw
          simpa [connected, State.waitConnInit] using hm
        · simp [connected, State.waitConnInit, hi] at hn
      · exact h
    | handlersClosed | handlersTimedOut =>
      unfold effect
      dsimp only
      split
      · apply StartKept.calm _ (State.Calm.closeWs (W := fun _ => False) .refl) (.inl rfl) (by simp)
        exact h.congr rfl rfl rfl fun _ => ValueWatcher.set_value
      · exact h
    | runStopped =>
      unfold effect
      dsimp only
      split
      · rename_i raising _
        have hk : StartKept w.starter (w.endRun raising).state := by
          refine h.congr rfl rfl rfl fun hclosed => ?_
          cases raising <;> simp [endRun, ValueWatcher.setIf, hclosed]
        exact hk
      · exact h
    | message raw =>
      unfold effect
      dsimp only
      split
      · obtain ⟨b, hb, hcalm⟩ := handleMsg_calm cfg (w := w) _ raw
        rw [handleMsg_starter]
        refine StartKept.calm (s := b) ?_ hcalm (.inl rfl) (by simp)
        rcases hb.connState with hs | ⟨hcompletes, -⟩
        · exact h.congr hb.connId hb.connInit hb.ws (by rw [hs]; exact id)
        · have hsome : w.state.connInit.value ≠ none := by
            unfold completes at hcompletes
            split at hcompletes
            · intro hn
              simp [hn] at hcompletes
            · simp at hcompletes
          exact ⟨by rw [hb.connInit, hb.ws]; exact h.busy, by rw [hb.connInit]; exact h.waiting,
            fun _ hn => absurd (hb.connInit ▸ hn) hsome,
            by rw [hb.connInit, hb.connId]; exact h.connId⟩
      · exact h
    | closeFinished i | closeTimedOut i => exact h.clear
    | startRequest => exact ConnInitStarter.resume_kept h hready
    | startResponse res =>
      unfold ready at hready
      unfold effect
      dsimp only at hready ⊢
      split
      · rename_i hst
        exact ConnInitStarter.responded_kept h (by rw [hst]; rfl)
      · exact h
    | executionCallback i =>
      obtain ⟨c, hcount⟩ := executionDone_state (w := w) i
      rw [effect, hcount]
      exact h.congr rfl rfl rfl id
    | start | clock t | runStarted | gatewayTask t | gatewaySelected | losersCancelled
    | connectFailed | connInitChanged | connectionSettled | connectionLeft | retry | disconnected
    | closer i | closeSequence h | heartbeat | heartbeatSent r | reconnectWatcher | sendData
    | dataSent r | execution i | executionSent i r | executionPosted i r | leaseExtender
    | leaseSent r | flushPoller | flushed => simp [Event.sets] at hsets

end Worker

/-! ## The handshake -/

namespace Worker
variable {cfg : Config} {w w' : Worker} {e : Event}

/-- `WORKER_CONNECT` answers the connection's own GATEWAY_HELLO, with the data
of the connection's own start response. -/
def Proper (past : List WireMark) : WireMark → Prop
  | .sent n (.connect data) => .received n .hello ∈ past ∧
    ∃ init, .connected n init ∈ past ∧ data.authData = init.authData ∧
      data.connectionId = init.connectionId
  | _ => True

/-- What a sync task that has not begun to send will send. -/
def Carries (pc : SendDataPc) (a : AuthData) (c : String) : Prop :=
  pc = .created a c ∨ pc = .waitingWs a c

structure HandshakeKept (w : Worker) : Prop where
  reader : ∀ n m, w.reader = some n → w.state.ws.value = some m → m = n
  init : ∀ n i, w.state.ws.value = some n → w.state.connInit.value = some i →
    .connected n i ∈ w.wire
  hello : ∀ n, w.state.ws.value = some n → w.handshake.state ≠ .awaitingHello →
    .received n .hello ∈ w.wire
  pending : ∀ n pc, w.state.ws.value = some n → w.handshake.sendData = some pc →
    .received n .hello ∈ w.wire
  carries : ∀ n pc a c, w.state.ws.value = some n → w.handshake.sendData = some pc →
    Carries pc a c → ∃ i, .connected n i ∈ w.wire ∧ a = i.authData ∧ c = i.connectionId
  sending : ∀ n m, w.state.ws.value = some n → w.handshake.sendData = some (.sending m) →
    m = n ∧ ∃ data, .sent n (.connect data) ∈ w.wire
  ready : ∀ n, w.state.ws.value = some n →
    w.handshake.state = .awaitingReady ∨ w.handshake.state = .complete →
    ∃ data, .sent n (.connect data) ∈ w.wire
  each : Each Proper w.wire

structure Forgets (w w' : Worker) : Prop where
  ws : ∀ n, w'.state.ws.value = some n → w.state.ws.value = some n
  init : ∀ n i, w'.state.ws.value = some n → w'.state.connInit.value = some i →
    w.state.connInit.value = some i
  reader : w'.reader = w.reader ∨ w'.reader = none
  state : w'.handshake.state = w.handshake.state ∨ w'.handshake.state = .awaitingHello
  sendData : w'.handshake.sendData = w.handshake.sendData ∨ w'.handshake.sendData = none
  wire : ∀ m ∈ w.wire, m ∈ w'.wire
  each : Each Proper w.wire → Each Proper w'.wire

theorem HandshakeKept.forgets (h : HandshakeKept w) (hw : Forgets w w') : HandshakeKept w' := by
  have hsend : ∀ pc, w'.handshake.sendData = some pc → w.handshake.sendData = some pc := by
    intro pc hpc
    rcases hw.sendData with heq | heq
    · rw [← heq, hpc]
    · simp [heq] at hpc
  constructor
  · intro n m hn hm
    rcases hw.reader with hr | hr
    · exact h.reader n m (hr ▸ hn) (hw.ws m hm)
    · simp [hr] at hn
  · exact fun n i hn hi => hw.wire _ (h.init n i (hw.ws n hn) (hw.init n i hn hi))
  · intro n hn hne
    rcases hw.state with hs | hs
    · exact hw.wire _ (h.hello n (hw.ws n hn) (hs ▸ hne))
    · exact absurd hs hne
  · exact fun n pc hn hpc => hw.wire _ (h.pending n pc (hw.ws n hn) (hsend pc hpc))
  · intro n pc a c hn hpc hc
    obtain ⟨i, hi, hd⟩ := h.carries n pc a c (hw.ws n hn) (hsend pc hpc) hc
    exact ⟨i, hw.wire _ hi, hd⟩
  · intro n m hn hpc
    obtain ⟨heq, data, hd⟩ := h.sending n m (hw.ws n hn) (hsend _ hpc)
    exact ⟨heq, data, hw.wire _ hd⟩
  · intro n hn hst
    rcases hw.state with hs | hs
    · obtain ⟨data, hd⟩ := h.ready n (hw.ws n hn) (hs ▸ hst)
      exact ⟨data, hw.wire _ hd⟩
    · simp [hs] at hst
  · exact hw.each h.each

theorem calm_ws {W : Task → Prop} {s s' : State} (h : State.Calm W s s') {n : ℕ}
    (hn : s'.ws.value = some n) : s.ws.value = some n := by
  rcases h.ws with hv | hv
  · rw [← hv, hn]
  · simp [hv] at hn

theorem calm_init {W : Task → Prop} {s s' : State} (h : State.Calm W s s') {n : ℕ} {i : ConnInit}
    (hn : s'.ws.value = some n) (hi : s'.connInit.value = some i) :
    s.connInit.value = some i := by
  rcases h.connInit with hv | ⟨-, hv⟩
  · rw [← hv, hi]
  · simp [hv] at hn

theorem proper_of_sends (hne : e ≠ .sendData) (past : List WireMark) (n : ℕ)
    (msg : WorkerMessage) (hs : e.sends msg) : Proper past (.sent n msg) := by
  cases msg with
  | connect data => cases e <;> simp [Event.sends] at hs hne
  | requestAck data | extendLease data | reply payload | pause | heartbeat => trivial

theorem Forgets.of_calm {W : Task → Prop} (hcalm : State.Calm W w.state w'.state)
    (hwire : WireStep w e w') (hne : e ≠ .sendData)
    (hreader : w'.reader = w.reader ∨ w'.reader = none)
    (hstate : w'.handshake.state = w.handshake.state ∨ w'.handshake.state = .awaitingHello)
    (hsend : w'.handshake.sendData = w.handshake.sendData ∨ w'.handshake.sendData = none) :
    Forgets w w' where
  ws _ hn := calm_ws hcalm hn
  init _ _ hn hi := calm_init hcalm hn hi
  reader := hreader
  state := hstate
  sendData := hsend
  wire := (hwire.each (proper_of_sends hne)).1
  each := (hwire.each (proper_of_sends hne)).2

theorem resumeWatcher_handshake (closed : Bool) (s : State) (h : InitHandshake) :
    ((InitHandshake.resumeWatcher closed s h).2.state = h.state ∨
      (InitHandshake.resumeWatcher closed s h).2.state = .awaitingHello) ∧
      (InitHandshake.resumeWatcher closed s h).2.sendData = h.sendData := by
  unfold InitHandshake.resumeWatcher
  split
  · exact ⟨.inl rfl, rfl⟩
  · exact ⟨.inr rfl, rfl⟩
  · exact ⟨.inl rfl, rfl⟩

theorem Forgets.of_aside (haside : Aside w w') (hwire : WireStep w e w') (hne : e ≠ .sendData)
    (hws : ∀ n, w'.state.ws.value = some n → w.state.ws.value = some n)
    (hinit : ∀ n i, w'.state.ws.value = some n → w'.state.connInit.value = some i →
      w.state.connInit.value = some i) : Forgets w w' where
  ws := hws
  init := hinit
  reader := .inl haside.reader
  state := .inl (by rw [haside.handshake])
  sendData := .inl (by rw [haside.handshake])
  wire := (hwire.each (proper_of_sends hne)).1
  each := (hwire.each (proper_of_sends hne)).2

theorem forgets_connection (hsets : e.sets = false) (hc : e.ofConnection = true)
    (hsend : e ≠ .sendData) (hsent : ∀ r, e ≠ .dataSent r)
    (hwire : WireStep w e (effect cfg e w)) : Forgets w (effect cfg e w) := by
  have hcalm := calm_step cfg (w := w) hsets
  cases e with
  | closeSequence h =>
    have hx := resumeSequence_cancels (w := w) h
    exact .of_calm hcalm hwire hsend (.inl hx.reader) (.inl hx.state) hx.sendData
  | disconnected => exact .of_calm hcalm hwire hsend (.inr rfl) (.inl rfl) (.inl rfl)
  | heartbeat | heartbeatSent r =>
    exact .of_calm hcalm hwire hsend (.inl rfl) (.inl rfl) (.inl rfl)
  | reconnectWatcher =>
    obtain ⟨hs, hd⟩ := resumeWatcher_handshake (w.closed .initHandshake) w.state w.handshake
    exact .of_calm hcalm hwire hsend (.inl rfl) hs (.inl hd)
  | sendData => exact absurd rfl hsend
  | dataSent r => exact absurd rfl (hsent r)
  | connected | message raw | startRequest | startResponse res => simp [Event.sets] at hsets
  | start | close | clock t | runStarted | gatewayTask t | gatewaySelected | losersCancelled
  | connectFailed | connInitChanged | connectionSettled | connectionLeft | retry
  | handlersClosed | handlersTimedOut | runStopped | closer i | closeFinished i
  | closeTimedOut i | execution i | executionSent i r | executionPosted i r
  | executionCallback i | leaseExtender | leaseSent r | flushPoller | flushed =>
    simp [Event.ofConnection] at hc

theorem forgets_closed (he : e = .close ∨ e = .handlersClosed ∨ e = .handlersTimedOut ∨
    e = .runStopped) (hwire : WireStep w e (effect cfg e w)) : Forgets w (effect cfg e w) := by
  rcases he with rfl | rfl | rfl | rfl
  case inl =>
    refine .of_aside (aside_step cfg rfl) hwire (by simp) ?_ ?_ <;> rw [effect, close]
    · intro n hn
      split at hn <;> exact hn
    · intro n i _ hi
      split at hi <;> exact hi
  case inr.inr.inr =>
    refine .of_aside (aside_step cfg rfl) hwire (by simp) ?_ ?_ <;> unfold effect <;> dsimp only
    · intro n hn
      split at hn <;> exact hn
    · intro n i _ hi
      split at hi <;> exact hi
  all_goals
    refine .of_aside (aside_step cfg rfl) hwire (by simp) ?_ ?_ <;> unfold effect <;> dsimp only
    · intro n hn
      split at hn
      · simp [finishRun, State.closeWs] at hn
      · exact hn
    · intro n i _ hi
      split at hi
      · simp [finishRun, State.closeWs] at hi
      · exact hi

theorem forgets_startRequest : Forgets w (effect cfg .startRequest w) := by
  have hstart : ConnInitStarter.Starts False w.state (effect cfg .startRequest w).state :=
    ConnInitStarter.resume_starts
  have hwire := (wire_step cfg (w := w) (e := .startRequest) (by simp) (by simp)).each
    (proper_of_sends (by simp))
  exact ⟨fun n hn => hstart.ws ▸ hn, fun n i _ hn => hstart.connInit ▸ hn, .inl rfl, .inl rfl,
    .inl rfl, hwire.1, hwire.2⟩

theorem forgets_startResponse (hk : StartKept w.starter w.state) {res : StartResult}
    (he : enabled (.startResponse res) w = true) :
    Forgets w (effect cfg (.startResponse res) w) := by
  have hwire := (wire_step cfg (w := w) (e := .startResponse res) (by simp) (by simp)).each
    (proper_of_sends (by simp))
  simp only [enabled, ready, Bool.and_eq_true] at he
  cases hst : w.starter with
  | fetching attempts err =>
    have hnone : (effect cfg (.startResponse res) w).state.ws.value = none := by
      have hws := (hk.busy (by rw [hst]; rfl)).2
      unfold effect
      simp only [hst]
      rw [ConnInitStarter.responded_starts.ws, hws]
    refine ⟨?_, ?_, .inl ?_, .inl ?_, .inl ?_, hwire.1, hwire.2⟩
    · intro n hn
      simp [hnone] at hn
    · intro n i hn
      simp [hnone] at hn
    all_goals
      unfold effect
      simp only [hst]
  | created | waiting | sleeping a e | stopped => simp [hst] at he

theorem forgets_step (hk : StartKept w.starter w.state) (he : enabled e w = true)
    (hne : e ≠ .connected) (hmsg : ∀ raw, e ≠ .message raw) (hsend : e ≠ .sendData)
    (hsent : ∀ r, e ≠ .dataSent r) : Forgets w (effect cfg e w) := by
  have hwire := wire_step cfg (w := w) hne hmsg
  cases hsets : e.sets with
  | false =>
    cases hc : e.ofConnection with
    | false =>
      have ha := aside_step cfg (w := w) hc
      exact .of_calm (calm_step cfg hsets) hwire hsend (.inl ha.reader)
        (.inl (by rw [ha.handshake])) (.inl (by rw [ha.handshake]))
    | true => exact forgets_connection hsets hc hsend hsent hwire
  | true =>
    cases e with
    | connected => exact absurd rfl hne
    | message raw => exact absurd rfl (hmsg raw)
    | close | handlersClosed | handlersTimedOut | runStopped =>
      exact forgets_closed (by simp) hwire
    | closeFinished i | closeTimedOut i =>
      refine .of_aside (aside_step cfg rfl) hwire hsend (fun n hn => hn) ?_
      intro n i _ hi
      simp [effect, finishClose] at hi
    | startRequest => exact forgets_startRequest
    | startResponse res => exact forgets_startResponse hk he
    | executionCallback i =>
      obtain ⟨c, hc⟩ := executionDone_state (w := w) i
      refine .of_aside (aside_step cfg rfl) hwire hsend ?_ ?_ <;> rw [effect, hc]
      · exact fun n hn => hn
      · exact fun n i _ hi => hi
    | start | clock t | runStarted | gatewayTask t | gatewaySelected | losersCancelled
    | connectFailed | connInitChanged | connectionSettled | connectionLeft | retry | disconnected
    | closer i | closeSequence h | heartbeat | heartbeatSent r | reconnectWatcher | sendData
    | dataSent r | execution i | executionSent i r | executionPosted i r | leaseExtender
    | leaseSent r | flushPoller | flushed => simp [Event.sets] at hsets

theorem HandshakeKept.connected (h : HandshakeKept w) {init : ConnInit}
    (hi : w.state.connInit.value = some init) (hs : w.handshake.state = .awaitingHello)
    (hd : w.handshake.sendData = none) : HandshakeKept (w.connected init) where
  reader n m hn hm := by
    simp only [Worker.connected, State.waitConnInit, ValueWatcher.set_value] at hn hm
    exact (Option.some.inj hm).symm.trans (Option.some.inj hn)
  init n i hn hi' := by
    simp only [Worker.connected, State.waitConnInit, ValueWatcher.set_value,
      ValueWatcher.watch_value, hi, Option.some.injEq] at hn hi' ⊢
    subst hn hi'
    exact .head _
  hello n _ hne := absurd hs hne
  pending n pc _ hpc := by simp [Worker.connected, hd] at hpc
  carries n pc a c _ hpc := by simp [Worker.connected, hd] at hpc
  sending n m _ hpc := by simp [Worker.connected, hd] at hpc
  ready n _ hst := by simp [Worker.connected, hs] at hst
  each := ⟨trivial, h.each⟩

inductive SendBlock (cfg : Config) (s : State) (pc : SendDataPc) :
    Block (Option SendDataPc) → Prop where
  | gone {b : Block (Option SendDataPc)} (hs : s.SameBut .sendData b.state) (hp : b.pc = none)
    (hb : b.sent = none) : SendBlock cfg s pc b
  | waits {b : Block (Option SendDataPc)} {a : AuthData} {c : String}
    (hs : s.SameBut .sendData b.state) (hc : Carries pc a c) (hp : b.pc = some (.waitingWs a c))
    (hb : b.sent = none) : SendBlock cfg s pc b
  | sends {b : Block (Option SendDataPc)} {a : AuthData} {c : String} {n : ℕ}
    {data : WorkerConnectRequestData} (hs : s.SameBut .sendData b.state) (hc : Carries pc a c)
    (hdata : InitHandshake.createSyncMessage cfg a c = .ok data) (hws : s.ws.value = some n)
    (hp : b.pc = some (.sending n)) (hb : b.sent = some (n, .connect data)) : SendBlock cfg s pc b

theorem send_block {pc : SendDataPc} {a : AuthData} {c : String} {s s' : State}
    (hc : Carries pc a c) (hs : s.SameBut .sendData s') :
    SendBlock cfg s pc (InitHandshake.send cfg a c s') := by
  unfold InitHandshake.send
  split
  · exact .gone hs rfl rfl
  · split
    · exact .gone hs rfl rfl
    · exact .sends hs hc ‹_› (hs.ws.1 ▸ ‹_›) rfl rfl

theorem resumeSend_block {pc : SendDataPc} {s : State}
    (hr : InitHandshake.sendResumable pc s = true) :
    SendBlock cfg s pc (InitHandshake.resumeSend cfg pc s) := by
  cases pc with
  | created a c =>
    unfold InitHandshake.resumeSend
    dsimp only
    split
    · exact send_block (.inl rfl) (.refl _ _)
    · exact .waits (.waitWs _ _) (.inl rfl) rfl rfl
  | waitingWs a c => exact send_block (.inr rfl) (.release _ _)
  | sending n => simp [InitHandshake.sendResumable] at hr

theorem createSyncMessage_data {a : AuthData} {c : String} {data : WorkerConnectRequestData}
    (h : InitHandshake.createSyncMessage cfg a c = .ok data) :
    data.authData = a ∧ data.connectionId = c := by
  unfold InitHandshake.createSyncMessage at h
  cases happs : cfg.apps.mapM InitHandshake.appConfiguration with
  | error e => simp [happs, Except.map] at h
  | ok apps =>
    simp only [happs, Except.map, Except.ok.injEq] at h
    subst h
    exact ⟨rfl, rfl⟩

theorem HandshakeKept.runSendData (h : HandshakeKept w) {pc : SendDataPc}
    (hpc : w.handshake.sendData = some pc) {b : Block (Option SendDataPc)}
    (hb : SendBlock cfg w.state pc b) : HandshakeKept (w.runSendData b) := by
  cases hb with
  | gone hs hp hb =>
    apply h.forgets
    refine ⟨fun n hn => hs.ws.1 ▸ hn, fun n i _ hi => hs.connInit.1 ▸ hi, .inl rfl, .inl rfl,
      .inr hp, ?_, ?_⟩
    · simp [Worker.runSendData, hb, sentMark]
    · simp [Worker.runSendData, hb, sentMark]
  | @waits a c hs hc hp hb =>
    have hwire : (w.runSendData b).wire = w.wire := by simp [Worker.runSendData, hb, sentMark]
    have hws : (w.runSendData b).state.ws.value = w.state.ws.value := hs.ws.1
    have hpc' : (w.runSendData b).handshake.sendData = some (.waitingWs a c) := hp
    refine ⟨?_, ?_, ?_, ?_, ?_, ?_, ?_, ?_⟩ <;> (try rw [hws]) <;> (try rw [hwire])
    · exact h.reader
    · intro n i hn hi
      exact h.init n i hn (hs.connInit.1 ▸ hi)
    · exact h.hello
    · exact fun n _ hn _ => h.pending n pc hn hpc
    · intro n pc' a' c' hn hq hc'
      rw [hpc', Option.some.injEq] at hq
      subst hq
      rcases hc' with hc' | hc'
      · simp at hc'
      · obtain ⟨rfl, rfl⟩ := SendDataPc.waitingWs.inj hc'
        exact h.carries n pc a c hn hpc hc
    · intro n m _ hq
      simp [hpc'] at hq
    · exact h.ready
    · exact h.each
  | @sends a c n data hs hc hdata hws hp hb =>
    obtain ⟨ha, hid⟩ := createSyncMessage_data hdata
    have hwire : (w.runSendData b).wire = .sent n (.connect data) :: w.wire := by
      simp [Worker.runSendData, hb, sentMark]
    have hws' : (w.runSendData b).state.ws.value = some n := hs.ws.1.trans hws
    have hpc' : (w.runSendData b).handshake.sendData = some (.sending n) := hp
    have hsame : ∀ m, some n = some m → w.state.ws.value = some m := fun m hm => hws.trans hm
    refine ⟨?_, ?_, ?_, ?_, ?_, ?_, ?_, ?_⟩ <;> (try rw [hws']) <;> (try rw [hwire])
    · exact fun k m hk hm => h.reader k m hk (hsame m hm)
    · intro m i hm hi
      exact .tail _ (h.init m i (hsame m hm) (hs.connInit.1 ▸ hi))
    · exact fun m hm hne => .tail _ (h.hello m (hsame m hm) hne)
    · exact fun m _ hm _ => .tail _ (h.pending m pc (hsame m hm) hpc)
    · intro m pc' a' c' _ hq hc'
      rw [hpc', Option.some.injEq] at hq
      subst hq
      rcases hc' with hc' | hc' <;> simp at hc'
    · intro m k hm hq
      rw [hpc', Option.some.injEq, SendDataPc.sending.injEq] at hq
      obtain rfl := Option.some.inj hm
      exact ⟨hq.symm, data, .head _⟩
    · intro m hm _
      obtain rfl := Option.some.inj hm
      exact ⟨data, .head _⟩
    · obtain ⟨i, hi, hia, hic⟩ := h.carries n pc a c hws hpc hc
      exact ⟨⟨h.pending n pc hws hpc, i, hi, ha.trans hia, hid.trans hic⟩, h.each⟩

theorem HandshakeKept.dataSent (h : HandshakeKept w) {m : ℕ}
    (hpc : w.handshake.sendData = some (.sending m)) (r : SendResult) :
    HandshakeKept (w.dataSent r) := by
  have hcalm : State.Calm (fun _ => False) w.state (w.dataSent r).state := r.settle_calm
  have hwire : (w.dataSent r).wire = w.wire := rfl
  have hnone : (w.dataSent r).handshake.sendData = none := rfl
  refine ⟨?_, ?_, ?_, ?_, ?_, ?_, ?_, ?_⟩ <;> (try rw [hwire]) <;> (try rw [hnone])
  · exact fun n k hn hk => h.reader n k hn (calm_ws hcalm hk)
  · exact fun n i hn hi => h.init n i (calm_ws hcalm hn) (calm_init hcalm hn hi)
  · exact fun n hn _ => h.pending n _ (calm_ws hcalm hn) hpc
  · intro n pc _ hq
    simp at hq
  · intro n pc a c _ hq
    simp at hq
  · intro n k _ hq
    simp at hq
  · intro n hn hst
    have hws := calm_ws hcalm hn
    exact (h.sending n m hws hpc).2
  · exact h.each

/-- What a message does to the handshake: nothing, or a new sync task, or the
completion. -/
def HandshakeMsg (msg : GatewayMessage) (a : AuthData) (c : String) (h h' : InitHandshake) : Prop :=
  h' = h ∨
  (msg = .hello ∨ h.state ≠ .awaitingHello) ∧ h'.state = .awaitingSyncComplete ∧
    h'.sendData = some (.created a c) ∨
  h.state = .awaitingReady ∧ h'.state = .complete ∧ h'.sendData = h.sendData

variable (cfg) in
theorem handleMsg_handshake (msg : GatewayMessage) (a : AuthData) (c : String) (s : State)
    (h : InitHandshake) :
    HandshakeMsg msg a c h (InitHandshake.handleMsg cfg msg a c s h).handshake := by
  unfold InitHandshake.handleMsg
  split
  · exact .inr (.inl ⟨.inl rfl, rfl, rfl⟩)
  · rename_i hs
    exact .inr (.inl ⟨.inr (by simp [hs]), hs, rfl⟩)
  · rename_i hs
    exact .inr (.inr ⟨hs, rfl, rfl⟩)
  · exact .inl rfl

/-- A message of the connection `n` has been dispatched. -/
structure Dispatched (w : Worker) (n : ℕ) (msg : GatewayMessage) (init : ConnInit) (c : String)
    (w' : Worker) : Prop where
  ws : ∀ m, w'.state.ws.value = some m → w.state.ws.value = some m
  connInit : ∀ m i, w'.state.ws.value = some m → w'.state.connInit.value = some i →
    w.state.connInit.value = some i
  reader : w'.reader = w.reader
  wire : ∀ m ∈ w.wire, m ∈ w'.wire
  received : .received n msg ∈ w'.wire
  each : Each Proper w.wire → Each Proper w'.wire
  handshake : HandshakeMsg msg init.authData c w.handshake w'.handshake

theorem dispatched (n : ℕ) (msg : GatewayMessage) {init : ConnInit} {c : String}
    (hi : w.state.connInit.value = some init) (hc : w.state.connId = some c) :
    Dispatched w n msg init c (w.dispatch cfg n msg init c) := by
  obtain ⟨b, hb, hcalm⟩ := dispatch_calm cfg n msg hi hc
  constructor
  · exact fun m hm => hb.ws ▸ calm_ws hcalm hm
  · exact fun m i hm hi => hb.connInit ▸ calm_init hcalm hm hi
  · rfl
  · intro m hm
    simp only [Worker.dispatch, List.mem_append, List.mem_cons]
    exact .inr (.inr hm)
  · simp [Worker.dispatch]
  · intro he
    simp only [Worker.dispatch]
    split
    · exact ⟨trivial, trivial, he⟩
    · exact ⟨trivial, he⟩
  · exact handleMsg_handshake cfg _ _ _ _ _

theorem HandshakeKept.dispatched (h : HandshakeKept w) (hk : StartKept w.starter w.state) {n : ℕ}
    {msg : GatewayMessage} {init : ConnInit} {c : String} (hn : w.reader = some n)
    (hi : w.state.connInit.value = some init) (hc : w.state.connId = some c)
    (hw : Dispatched w n msg init c w') : HandshakeKept w' := by
  have hforgets : w'.handshake.state = w.handshake.state →
      w'.handshake.sendData = w.handshake.sendData → HandshakeKept w' := fun hs hd =>
    h.forgets ⟨hw.ws, hw.connInit, .inl hw.reader, .inl hs, .inl hd, hw.wire, hw.each⟩
  have hown : ∀ m, w'.state.ws.value = some m → m = n := fun m hm => h.reader n m hn (hw.ws m hm)
  rcases hw.handshake with heq | ⟨hmsg, hs, hd⟩ | ⟨hr, hs, hd⟩
  · exact hforgets (by rw [heq]) (by rw [heq])
  · have hhello : ∀ m, w'.state.ws.value = some m → .received m .hello ∈ w'.wire := by
      intro m hm
      rcases hmsg with rfl | hne
      · rw [hown m hm]
        exact hw.received
      · exact hw.wire _ (h.hello m (hw.ws m hm) hne)
    refine ⟨?_, ?_, ?_, ?_, ?_, ?_, ?_, hw.each h.each⟩
    · exact fun k m hk hm => h.reader k m (hw.reader ▸ hk) (hw.ws m hm)
    · exact fun m i hm hi => hw.wire _ (h.init m i (hw.ws m hm) (hw.connInit m i hm hi))
    · exact fun m hm _ => hhello m hm
    · exact fun m _ hm _ => hhello m hm
    · intro m pc a' c' hm hq hcarries
      rw [hd, Option.some.injEq] at hq
      subst hq
      rcases hcarries with hcarries | hcarries
      · obtain ⟨rfl, rfl⟩ := SendDataPc.created.inj hcarries
        refine ⟨init, hw.wire _ (h.init m init (hw.ws m hm) hi), rfl, ?_⟩
        exact Option.some.inj (hc.symm.trans (hk.connId init hi))
      · simp at hcarries
    · intro m k _ hq
      simp [hd] at hq
    · intro m _ hst
      simp [hs] at hst
  · have hready : ∀ m, w'.state.ws.value = some m → ∃ data, .sent m (.connect data) ∈ w'.wire := by
      intro m hm
      obtain ⟨data, hdata⟩ := h.ready m (hw.ws m hm) (.inl hr)
      exact ⟨data, hw.wire _ hdata⟩
    refine ⟨?_, ?_, ?_, ?_, ?_, ?_, fun m hm _ => hready m hm, hw.each h.each⟩
    · exact fun k m hk hm => h.reader k m (hw.reader ▸ hk) (hw.ws m hm)
    · exact fun m i hm hi => hw.wire _ (h.init m i (hw.ws m hm) (hw.connInit m i hm hi))
    · exact fun m hm _ => hw.wire _ (h.hello m (hw.ws m hm) (by simp [hr]))
    · exact fun m pc hm hq => hw.wire _ (h.pending m pc (hw.ws m hm) (hd ▸ hq))
    · intro m pc a' c' hm hq hcarries
      obtain ⟨i, hi, hdata⟩ := h.carries m pc a' c' (hw.ws m hm) (hd ▸ hq) hcarries
      exact ⟨i, hw.wire _ hi, hdata⟩
    · intro m k hm hq
      obtain ⟨heq, data, hdata⟩ := h.sending m k (hw.ws m hm) (hd ▸ hq)
      exact ⟨heq, data, hw.wire _ hdata⟩

theorem handshakeKept_initial : HandshakeKept initial where
  reader n m hn := by simp [initial] at hn
  init n i hn := by simp [initial, State.initial, ValueWatcher.new] at hn
  hello n hn := by simp [initial, State.initial, ValueWatcher.new] at hn
  pending n pc hn := by simp [initial, State.initial, ValueWatcher.new] at hn
  carries n pc a c hn := by simp [initial, State.initial, ValueWatcher.new] at hn
  sending n m hn := by simp [initial, State.initial, ValueWatcher.new] at hn
  ready n hn := by simp [initial, State.initial, ValueWatcher.new] at hn
  each := trivial

theorem handshakeKept_step (h : HandshakeKept w) (hk : StartKept w.starter w.state)
    (he : enabled e w = true) (hc : cleanConnect e w = true) :
    HandshakeKept (effect cfg e w) := by
  by_cases hconn : e = .connected
  · subst hconn
    unfold effect
    dsimp only
    split
    · rename_i init hrun
      simp only [cleanConnect, hrun, Bool.and_eq_true, decide_eq_true_eq,
        Option.isNone_iff_eq_none] at hc
      exact h.connected hc.1.1 hc.1.2 hc.2
    · exact h
  by_cases hmsg : ∃ raw, e = .message raw
  · obtain ⟨raw, rfl⟩ := hmsg
    unfold effect
    dsimp only
    split
    · rename_i n hn
      unfold handleMsg
      split
      · exact h.forgets ⟨fun _ hm => hm, fun _ _ _ hi => hi, .inr rfl, .inl rfl, .inl rfl,
          fun _ hm => hm, id⟩
      · split
        · exact h
        · exact h
        · split
          · refine h.forgets ⟨?_, ?_, .inr rfl, .inl rfl, .inl rfl, fun _ hm => hm, id⟩
            · intro m hm
              simp [State.closeWs] at hm
            · intro m i hm
              simp [State.closeWs] at hm
          · exact h.dispatched hk hn ‹_› ‹_› (Worker.dispatched n _ ‹_› ‹_›)
    · exact h
  by_cases hsend : e = .sendData
  · subst hsend
    simp only [enabled, ready, Bool.and_eq_true] at he
    unfold effect
    dsimp only
    split
    · rename_i pc hpc
      simp only [hpc, Option.any_some] at he
      exact h.runSendData hpc (resumeSend_block he.1)
    · exact h
  by_cases hsent : ∃ r, e = .dataSent r
  · obtain ⟨r, rfl⟩ := hsent
    simp only [enabled, ready, Bool.and_eq_true] at he
    have hpc : ∃ m, w.handshake.sendData = some (.sending m) := by
      have := he.1
      split at this
      · exact ⟨_, ‹_›⟩
      · simp at this
    obtain ⟨m, hm⟩ := hpc
    exact h.dataSent hm r
  · exact h.forgets (forgets_step hk he hconn (fun raw hr => hmsg ⟨raw, hr⟩) hsend
      fun r hr => hsent ⟨r, hr⟩)

end Worker

open Worker

theorem handshakeKept_reachable {cfg : Config} {w : Worker}
    (h : (machine cfg).Reachable (fun e w => cleanConnect e w = true) w) :
    StartKept w.starter w.state ∧ HandshakeKept w := by
  apply h.invariant (P := fun w => StartKept w.starter w.state ∧ HandshakeKept w)
  · exact ⟨startKept_initial, handshakeKept_initial⟩
  · rintro e w - ⟨hk, hh⟩ he hc
    exact ⟨startKept_step hk he hc, handshakeKept_step hh hk he hc⟩

/-- In a run whose connections all begin with their own start response and a
reset handshake, WORKER_CONNECT is sent after the GATEWAY_HELLO of its
connection, with the data of its start response, and the handshake is not ahead
of the connection in use. -/
theorem handshake_of_connection {cfg : Config} {w : Worker}
    (h : (machine cfg).Reachable (fun e w => cleanConnect e w = true) w) :
    (∀ later past n data, w.wire = later ++ .sent n (.connect data) :: past →
      .received n .hello ∈ past ∧ ∃ init, .connected n init ∈ past ∧
        data.authData = init.authData ∧ data.connectionId = init.connectionId) ∧
      ∀ n, w.state.ws.value = some n →
        w.handshake.state = .awaitingReady ∨ w.handshake.state = .complete →
        ∃ data, .sent n (.connect data) ∈ w.wire := by
  have hh := (handshakeKept_reachable h).2
  exact ⟨fun later past n data hw => hh.each.split hw, hh.ready⟩

theorem handshake_of_connection_active :
    ∃ w : Worker, w.handshake.state = .complete ∧ ∃ data, .sent 0 (.connect data) ∈ w.wire := by
  have hrun : ∃ w, (machine Sample.config).Reachable (fun e w => cleanConnect e w = true) w ∧
      w.state.ws.value = some 0 ∧ w.handshake.state = .complete :=
    Machine.exists_reachable Sample.active (by decide)
  obtain ⟨w, hw, hws, hs⟩ := hrun
  exact ⟨w, hs, (handshake_of_connection hw).2 0 hws (.inr hs)⟩

/-- A drain closes the connection whose GATEWAY_HELLO has just been read; the
sync task then waits for a connection, and sends on the next one before its
GATEWAY_HELLO, with the data of the first. -/
theorem handshake_crosses :
    ∃ w, (machine Sample.config).Reachable Machine.Any w ∧
      w.wire.head? = some (.sent 1 (.connect ⟨[⟨"app", none, []⟩], ⟨"first", "sync"⟩, "first",
        none, "host", none⟩)) ∧ .received 1 .hello ∉ w.wire :=
  Machine.exists_reachable
    (Sample.started ++ [.connected, .reconnectWatcher, Sample.message .hello,
      Sample.message .closing, .sendData, .reconnectWatcher] ++ Sample.reconnected "second" ++
      [.sendData]) (by decide)

end Inngest.Connect
