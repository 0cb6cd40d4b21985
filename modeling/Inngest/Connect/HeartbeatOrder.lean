import Inngest.Connect.HandshakeIdentity

/-!
# Whose readiness a heartbeat waits for

The readiness flag is reset by the next GATEWAY_HELLO, not by the end of a
connection. A heartbeat is on its own connection's readiness if no connection
begins while the flag, or the sender, has readiness left over from before.
-/

set_option autoImplicit false

namespace Inngest.Connect
open Errors Transition

namespace Heartbeat
open Worker

def due (pc : HeartbeatPc) (s : State) : Prop :=
  pc ≠ .stopped ∧ (s.initHandshakeComplete.value = true ∨
    true ∈ s.initHandshakeComplete.queued .heartbeatSender ∨ pc = .waitingWs)

variable {closed : Bool} {pc pc' : HeartbeatPc} {s s' : State}

instance : Decidable (due pc s) := inferInstanceAs (Decidable (_ ∧ _))

theorem resume_due (closed : Bool) (hr : resumable pc s = true)
    (h : due (resume closed pc s).pc (resume closed pc s).state ∨
      (resume closed pc s).sent ≠ none) : due pc s := by
  have hloop : pc ≠ .stopped → due (loop closed s).pc (loop closed s).state ∨
      (loop closed s).sent ≠ none → due pc s := by
    intro hpc h
    unfold loop at h
    split at h
    · simp [due] at h
    · split at h
      · exact ⟨hpc, .inl ‹_›⟩
      · simp_all [due, State.waitInitHandshakeComplete]
  cases pc with
  | created | sleeping => exact hloop (by simp) h
  | waitingReady =>
    obtain ⟨v, hv⟩ := Option.isSome_iff_exists.mp hr
    obtain ⟨hmem, htrue⟩ := ValueWatcher.woken_mem hv
    obtain rfl : v = true := htrue
    exact ⟨by simp, .inr (.inl hmem)⟩
  | waitingWs => exact ⟨by simp, .inr (.inr rfl)⟩
  | sending n | stopped => simp [resumable] at hr

theorem due_of_same (h : due pc s) (hv : s'.initHandshakeComplete.value =
      s.initHandshakeComplete.value) (hq : s'.initHandshakeComplete.queues .heartbeatSender =
      s.initHandshakeComplete.queues .heartbeatSender) : due pc s' := by
  rw [due, ValueWatcher.queued, hv, hq]
  exact h

end Heartbeat

namespace Worker
variable {cfg : Config} {w w' : Worker} {e : Event}

/-- When `websockets.connect` returns, no readiness is left over. -/
def unreadyConnect (e : Event) (w : Worker) : Bool :=
  match e with
  | .connected => !decide (Heartbeat.due w.heartbeat w.state)
  | _ => true

def AfterReady (past : List WireMark) : WireMark → Prop
  | .sent n .heartbeat => .completed n ∈ past
  | _ => True

structure HeartbeatKept (w : Worker) : Prop where
  reader : ∀ n m, w.reader = some n → w.state.ws.value = some m → m = n
  due : ∀ n, w.state.ws.value = some n → Heartbeat.due w.heartbeat w.state →
    .completed n ∈ w.wire
  each : Each AfterReady w.wire

theorem heartbeatKept_initial : HeartbeatKept initial where
  reader n m hn := by simp [initial] at hn
  due n hn := by simp [initial, State.initial, ValueWatcher.new] at hn
  each := trivial

structure Settled (w w' : Worker) : Prop where
  ws : ∀ n, w'.state.ws.value = some n → w.state.ws.value = some n
  reader : w'.reader = w.reader ∨ w'.reader = none
  due : ∀ n, w'.state.ws.value = some n → Heartbeat.due w'.heartbeat w'.state →
    Heartbeat.due w.heartbeat w.state
  wire : ∀ m ∈ w.wire, m ∈ w'.wire
  each : Each AfterReady w.wire → Each AfterReady w'.wire

theorem HeartbeatKept.settled (h : HeartbeatKept w) (hw : Settled w w') : HeartbeatKept w' where
  reader n m hn hm := by
    rcases hw.reader with hr | hr
    · exact h.reader n m (hr ▸ hn) (hw.ws m hm)
    · simp [hr] at hn
  due n hn hd := hw.wire _ (h.due n (hw.ws n hn) (hw.due n hn hd))
  each := hw.each h.each

theorem afterReady_of_sends (hne : e ≠ .heartbeat) (past : List WireMark) (n : ℕ)
    (msg : WorkerMessage) (hs : e.sends msg) : AfterReady past (.sent n msg) := by
  cases msg with
  | heartbeat => cases e <;> simp [Event.sends] at hs hne
  | connect data | requestAck data | extendLease data | reply payload | pause => trivial

theorem HeartbeatKept.connected (h : HeartbeatKept w) (init : ConnInit)
    (hd : ¬ Heartbeat.due w.heartbeat w.state) : HeartbeatKept (w.connected init) where
  reader n m hn hm := by
    simp only [Worker.connected, State.waitConnInit, ValueWatcher.set_value] at hn hm
    exact (Option.some.inj hm).symm.trans (Option.some.inj hn)
  due n _ hdue := absurd hdue hd
  each := ⟨trivial, h.each⟩

theorem HeartbeatKept.runHeartbeat (h : HeartbeatKept w)
    (hr : Heartbeat.resumable w.heartbeat w.state = true) :
    HeartbeatKept (effect cfg .heartbeat w) := by
  have hdue := Heartbeat.resume_due (w.closed .heartbeat) hr
  have hws : ∀ n, (effect cfg .heartbeat w).state.ws.value = some n →
      w.state.ws.value = some n := by
    intro n hn
    exact calm_ws (calm_step cfg (w := w) (e := .heartbeat) rfl) hn
  cases wire_step cfg (w := w) (e := .heartbeat) (by simp) (by simp) with
  | quiet hwire =>
    apply h.settled
    refine ⟨hws, .inl rfl, fun _ _ hd => hdue (.inl hd), ?_, ?_⟩
    · rw [hwire]
      exact fun _ hm => hm
    · rw [hwire]
      exact id
  | sent n msg hn hs hwire =>
    obtain rfl : msg = .heartbeat := hs
    have hsent : Heartbeat.due w.heartbeat w.state := by
      apply hdue
      right
      intro hnone
      change sentMark (Heartbeat.resume _ _ _).sent ++ w.wire = _ at hwire
      simp [hnone, sentMark] at hwire
    constructor
    · exact fun k m hk hm => h.reader k m hk (hws m hm)
    · rw [hwire]
      exact fun m hm _ => .tail _ (h.due m (hws m hm) hsent)
    · rw [hwire]
      exact ⟨h.due n hn hsent, h.each⟩

variable (cfg) in
/-- The sender's own steps apart, it is left alone or stopped, and only the
end of a connection and a drop change who is read. -/
theorem sender_calm (he : e.sets = false) (hne : e ≠ .heartbeat) :
    ((effect cfg e w).reader = w.reader ∨ (effect cfg e w).reader = none) ∧
      ((effect cfg e w).heartbeat = w.heartbeat ∨ (effect cfg e w).heartbeat = .stopped ∨
        (∃ r, e = .heartbeatSent r) ∧ (effect cfg e w).heartbeat = .sleeping) := by
  cases hc : e.ofConnection with
  | false =>
    have ha := aside_step cfg (w := w) hc
    exact ⟨.inl ha.reader, .inl ha.heartbeat⟩
  | true =>
    cases e with
    | closeSequence h =>
      have hx := resumeSequence_cancels (w := w) h
      exact ⟨.inl hx.reader, hx.heartbeat.imp id .inl⟩
    | disconnected => exact ⟨.inr rfl, .inl rfl⟩
    | heartbeat => exact absurd rfl hne
    | heartbeatSent r => exact ⟨.inl rfl, .inr (.inr ⟨⟨r, rfl⟩, rfl⟩)⟩
    | reconnectWatcher | dataSent r => exact ⟨.inl rfl, .inl rfl⟩
    | sendData =>
      unfold effect
      dsimp only
      split <;> exact ⟨.inl rfl, .inl rfl⟩
    | connected | message raw | startRequest | startResponse res => simp [Event.sets] at he
    | start | close | clock t | runStarted | gatewayTask t | gatewaySelected | losersCancelled
    | connectFailed | connInitChanged | connectionSettled | connectionLeft | retry
    | handlersClosed | handlersTimedOut | runStopped | closer i | closeFinished i
    | closeTimedOut i | execution i | executionSent i r | executionPosted i r
    | executionCallback i | leaseExtender | leaseSent r | flushPoller | flushed =>
      simp [Event.ofConnection] at hc

theorem settled_calm (he : e.sets = false) (hne : e ≠ .heartbeat) (hen : enabled e w = true) :
    Settled w (effect cfg e w) := by
  obtain ⟨W, hcalm, -, hW⟩ := calm_spares cfg (w := w) he
  obtain ⟨hwire, heach⟩ := (wire_step cfg (w := w) (e := e) (by rintro rfl; simp [Event.sets] at he)
    (by rintro raw rfl; simp [Event.sets] at he)).each (afterReady_of_sends hne)
  obtain ⟨hreader, hpc⟩ := sender_calm cfg (w := w) he hne
  refine ⟨fun n hn => calm_ws hcalm hn, hreader, fun n hn hd => ?_, hwire, heach⟩
  have hstopped := hd.1
  obtain ⟨hv, hq⟩ := hcalm.initHandshakeComplete fun h => ((hW h).elim hne hstopped)
  have hback : Heartbeat.due (effect cfg e w).heartbeat w.state :=
    Heartbeat.due_of_same hd hv.symm hq.symm
  rcases hpc with hpc | hpc | ⟨⟨r, rfl⟩, hpc⟩
  · exact hpc ▸ hback
  · exact absurd hpc hstopped
  · -- a send has ended: the sender was not stopped, and waits for nothing now
    rw [hpc] at hback
    have hne : w.heartbeat ≠ .stopped := by
      intro heq
      simp [enabled, ready, heq] at hen
    rcases hback.2 with hflag | hqueue | hws
    · exact ⟨hne, .inl hflag⟩
    · exact ⟨hne, .inr (.inl hqueue)⟩
    · simp at hws

theorem Settled.of_sets (hreader : w'.reader = w.reader) (hpc : w'.heartbeat = w.heartbeat)
    (hwire : w'.wire = w.wire)
    (hws : ∀ n, w'.state.ws.value = some n → w.state.ws.value = some n)
    (hready : SameBut .startRequest w.state.initHandshakeComplete
      w'.state.initHandshakeComplete) : Settled w w' where
  ws := hws
  reader := .inl hreader
  due n _ hd := by
    rw [hpc] at hd
    exact Heartbeat.due_of_same hd hready.1.symm (hready.2 _ (by simp)).symm
  wire := by rw [hwire]; exact fun _ hm => hm
  each := by rw [hwire]; exact id

theorem settled_sets (he : e.sets = true) (hne : e ≠ .connected) (hmsg : ∀ raw, e ≠ .message raw) :
    Settled w (effect cfg e w) := by
  cases e with
  | connected => exact absurd rfl hne
  | message raw => exact absurd rfl (hmsg raw)
  | close =>
    rw [effect, close]
    split <;> exact .of_sets rfl rfl rfl (fun _ hn => hn) (.refl _ _)
  | handlersClosed | handlersTimedOut =>
    unfold effect
    dsimp only
    split
    · refine .of_sets rfl rfl rfl (fun n hn => ?_) (.refl _ _)
      simp [finishRun, State.closeWs] at hn
    · exact .of_sets rfl rfl rfl (fun _ hn => hn) (.refl _ _)
  | runStopped =>
    unfold effect
    dsimp only
    split <;> exact .of_sets rfl rfl rfl (fun _ hn => hn) (.refl _ _)
  | closeFinished i | closeTimedOut i => exact .of_sets rfl rfl rfl (fun _ hn => hn) (.refl _ _)
  | startRequest =>
    have hstart : ConnInitStarter.Starts False w.state (effect cfg .startRequest w).state :=
      ConnInitStarter.resume_starts
    exact .of_sets rfl rfl rfl (fun n hn => hstart.ws ▸ hn) hstart.initHandshakeComplete
  | startResponse res =>
    unfold effect
    dsimp only
    split
    · refine .of_sets rfl rfl rfl (fun n hn => ?_)
        ConnInitStarter.responded_starts.initHandshakeComplete
      rwa [ConnInitStarter.responded_starts.ws] at hn
    · exact .of_sets rfl rfl rfl (fun _ hn => hn) (.refl _ _)
  | executionCallback i =>
    obtain ⟨c, hc⟩ := executionDone_state (w := w) i
    have hw : (effect cfg (.executionCallback i) w).state.ws = w.state.ws := by rw [effect, hc]
    have hr : (effect cfg (.executionCallback i) w).state.initHandshakeComplete =
        w.state.initHandshakeComplete := by rw [effect, hc]
    refine .of_sets rfl rfl rfl (fun n hn => hw ▸ hn) ?_
    rw [hr]
    exact .refl _ _
  | start | clock t | runStarted | gatewayTask t | gatewaySelected | losersCancelled
  | connectFailed | connInitChanged | connectionSettled | connectionLeft | retry | disconnected
  | closer i | closeSequence h | heartbeat | heartbeatSent r | reconnectWatcher | sendData
  | dataSent r | execution i | executionSent i r | executionPosted i r | leaseExtender
  | leaseSent r | flushPoller | flushed => simp [Event.sets] at he

/-! ## The messages -/

variable (cfg) in
theorem completed_of_completes {n : ℕ} {msg : GatewayMessage} {init : ConnInit} {c : String}
    (h : completes (.bytes (.ok msg)) w = true) :
    .completed n ∈ (w.dispatch cfg n msg init c).wire := by
  unfold completes at h
  split at h
  · rename_i data heq
    obtain rfl : msg = .connectionReady (.ok data) := by simpa using heq
    simp only [Bool.and_eq_true, decide_eq_true_eq] at h
    have hcompleted : (InitHandshake.handleMsg cfg (.connectionReady (.ok data)) init.authData c
        w.state w.handshake).completed = true := by
      simp [InitHandshake.handleMsg, h.1.1, InitHandshake.ready]
    simp [dispatch, hcompleted]
  · simp at h

variable (cfg) in
theorem dispatch_wire (n : ℕ) (msg : GatewayMessage) (init : ConnInit) (c : String) :
    (∀ m ∈ w.wire, m ∈ (w.dispatch cfg n msg init c).wire) ∧
      (Each AfterReady w.wire → Each AfterReady (w.dispatch cfg n msg init c).wire) := by
  unfold dispatch
  dsimp only
  split
  · exact ⟨fun m hm => .tail _ (.tail _ hm), fun h => ⟨trivial, trivial, h⟩⟩
  · exact ⟨fun m hm => .tail _ hm, fun h => ⟨trivial, h⟩⟩

/-- Readiness comes with the message that completes the handshake of the
connection that it is read from. -/
theorem HeartbeatKept.dispatched (h : HeartbeatKept w) {n : ℕ} (hn : w.reader = some n)
    (msg : GatewayMessage) {init : ConnInit} {c : String}
    (hi : w.state.connInit.value = some init) (hc : w.state.connId = some c) :
    HeartbeatKept (w.dispatch cfg n msg init c) := by
  obtain ⟨b, hb, hcalm⟩ := dispatch_calm cfg n msg hi hc
  obtain ⟨hwire, heach⟩ := dispatch_wire cfg (w := w) n msg init c
  have hws : ∀ m, (w.dispatch cfg n msg init c).state.ws.value = some m →
      w.state.ws.value = some m := fun m hm => hb.ws ▸ calm_ws hcalm hm
  refine ⟨fun k m hk hm => h.reader k m hk (hws m hm), fun m hm hd => ?_, heach h.each⟩
  obtain ⟨hv, hq⟩ := hcalm.initHandshakeComplete (t := .heartbeatSender) (by simp)
  have hdue : Heartbeat.due w.heartbeat b := Heartbeat.due_of_same hd hv.symm hq.symm
  rcases hb.initHandshakeComplete with heq | heq | ⟨hcompletes, -⟩
  · apply hwire
    apply h.due m (hws m hm)
    exact Heartbeat.due_of_same hdue (by rw [heq]) (by rw [heq])
  · apply hwire
    apply h.due m (hws m hm)
    refine ⟨hdue.1, ?_⟩
    rcases hdue.2 with hflag | hqueue | hpc
    · simp [heq] at hflag
    · rw [heq] at hqueue
      rcases ValueWatcher.mem_queued_set hqueue with hmem | ⟨htrue, -⟩
      · exact .inr (.inl hmem)
      · simp at htrue
    · exact .inr (.inr hpc)
  · rw [h.reader n m hn (hws m hm)]
    exact completed_of_completes cfg hcompletes

theorem HeartbeatKept.handleMsg (h : HeartbeatKept w) {n : ℕ} (hn : w.reader = some n)
    (raw : RawMessage) : HeartbeatKept (w.handleMsg cfg n raw) := by
  unfold Worker.handleMsg
  split
  · exact h.settled ⟨fun _ hm => hm, .inr rfl, fun _ _ hd => hd, fun _ hm => hm, id⟩
  · split
    · exact h
    · exact h
    · split
      · refine h.settled ⟨fun m hm => ?_, .inr rfl, fun _ _ hd => hd, fun _ hm => hm, id⟩
        simp [State.closeWs] at hm
      · exact h.dispatched hn _ ‹_› ‹_›

theorem heartbeatKept_step (h : HeartbeatKept w) (he : enabled e w = true)
    (hc : unreadyConnect e w = true) : HeartbeatKept (effect cfg e w) := by
  by_cases hconn : e = .connected
  · subst hconn
    unfold effect
    dsimp only
    split
    · exact h.connected _ (by simpa [unreadyConnect] using hc)
    · exact h
  by_cases hmsg : ∃ raw, e = .message raw
  · obtain ⟨raw, rfl⟩ := hmsg
    unfold effect
    dsimp only
    split
    · exact h.handleMsg ‹_› raw
    · exact h
  by_cases hbeat : e = .heartbeat
  · subst hbeat
    simp only [enabled, ready, Bool.and_eq_true] at he
    exact h.runHeartbeat he.1
  · cases hsets : e.sets with
    | false => exact h.settled (settled_calm hsets hbeat he)
    | true => exact h.settled (settled_sets hsets hconn fun raw hr => hmsg ⟨raw, hr⟩)

end Worker

open Worker

/-- In a run in which no connection begins with readiness left over, a
heartbeat is sent only after its own connection's GATEWAY_CONNECTION_READY. -/
theorem heartbeat_after_ready {cfg : Config} {w : Worker}
    (h : (machine cfg).Reachable (fun e w => unreadyConnect e w = true) w)
    {later past : List WireMark} {n : ℕ} (hw : w.wire = later ++ .sent n .heartbeat :: past) :
    .completed n ∈ past := by
  have hk : HeartbeatKept w := h.invariant heartbeatKept_initial
    fun e w _ hk he hc => heartbeatKept_step hk he hc
  exact hk.each.split hw

theorem heartbeat_after_ready_active :
    ∃ w : Worker, ∃ past, w.wire = .sent 0 .heartbeat :: past ∧ .completed 0 ∈ past := by
  have hrun : ∃ w, (machine Sample.config).Reachable (fun e w => unreadyConnect e w = true) w ∧
      w.wire.head? = some (.sent 0 .heartbeat) :=
    Machine.exists_reachable (Sample.active ++ [.heartbeat]) (by decide)
  obtain ⟨w, hw, hhead⟩ := hrun
  obtain ⟨past, hpast⟩ := List.head?_eq_some_iff.mp hhead
  have hsplit : w.wire = [] ++ _ :: past := hpast
  exact ⟨w, past, hpast, heartbeat_after_ready hw hsplit⟩

/-- The next connection is there and its GATEWAY_HELLO is not: the readiness of
the first one still stands, and the timer's next heartbeat goes out. -/
theorem heartbeat_before_ready :
    ∃ w, (machine Sample.config).Reachable Machine.Any w ∧
      w.wire.take 2 = [.sent 1 .heartbeat,
        .connected 1 ⟨⟨"second", "sync"⟩, "ws://gateway", "second"⟩] ∧ .completed 1 ∉ w.wire :=
  Machine.exists_reachable
    (Sample.active ++ [.heartbeat, .heartbeatSent .ok] ++ Sample.reconnected "second" ++
      [.heartbeat]) (by decide)

end Inngest.Connect
