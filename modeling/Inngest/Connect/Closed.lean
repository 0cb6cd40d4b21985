import Inngest.Connect.Shutdown

/-!
# CLOSED is final

Every place that writes `conn_state` looks for CLOSED first, or writes CLOSED,
but one: the message that completes a handshake. After CLOSED no message is
read while `conn_init` is `None`, and it stays `None` unless a start request is
answered late, which takes an expired shutdown timeout.
-/

set_option autoImplicit false

namespace Inngest.Connect
open Errors Transition

namespace Worker
variable {cfg : Config} {w w' : Worker} {e : Event}

def isClosed (w : Worker) : Prop := w.state.connState.value = .closed

instance : Decidable (isClosed w) := inferInstanceAs (Decidable (_ = _))

/-- The step does not complete a handshake after CLOSED. -/
def respectsClosed (e : Event) (w : Worker) : Bool :=
  match e with
  | .message raw => !(completes raw w && w.isClosed)
  | _ => true

theorem closed_step (h : w.isClosed) (hr : respectsClosed e w = true) :
    (effect cfg e w).isClosed := by
  cases hsets : e.sets with
  | false => exact (calm_step cfg hsets).closed h
  | true =>
    cases e with
    | close =>
      rw [effect, close, if_pos (.inr h)]
      exact h
    | connected =>
      unfold effect
      dsimp only
      split <;> exact h
    | handlersClosed | handlersTimedOut =>
      unfold effect
      dsimp only
      split
      · simp [isClosed, finishRun, State.closeWs, State.allowReconnect]
      · exact h
    | runStopped =>
      unfold effect
      dsimp only
      split
      · rename_i raising _
        rw [isClosed] at h
        cases raising <;> simp [isClosed, endRun, ValueWatcher.setIf, h]
      · exact h
    | message raw =>
      unfold effect
      dsimp only
      split
      · obtain ⟨b, hb, hcalm⟩ := handleMsg_calm cfg (w := w) _ raw
        apply hcalm.closed
        rcases hb.connState with hs | ⟨hcompletes, -⟩
        · rwa [hs]
        · simp [respectsClosed, hcompletes, h] at hr
      · exact h
    | closeFinished i | closeTimedOut i => exact ValueWatcher.set_value
    | startRequest => exact ConnInitStarter.resume_starts.closed h
    | startResponse res =>
      unfold effect
      dsimp only
      split
      · exact ConnInitStarter.responded_starts.closed h
      · exact h
    | executionCallback i =>
      obtain ⟨c, hc⟩ := executionDone_state (w := w) i
      rw [isClosed, effect, hc]
      exact h
    | start | clock t | runStarted | gatewayTask t | gatewaySelected | losersCancelled
    | connectFailed | connInitChanged | connectionSettled | connectionLeft | retry | disconnected
    | closer i | closeSequence h | heartbeat | heartbeatSent r | reconnectWatcher | sendData
    | dataSent r | execution i | executionSent i r | executionPosted i r | leaseExtender
    | leaseSent r | flushPoller | flushed => simp [Event.sets] at hsets

end Worker

open Worker

/-- CLOSED is final in a run in which no handshake is completed after it. -/
theorem closed_final {cfg : Config} {w w' : Worker}
    (h : (machine cfg).Reachable (fun e w => respectsClosed e w = true) w) (hc : w.isClosed)
    (hr : (machine cfg).Run (fun e w => respectsClosed e w = true) w w') : w'.isClosed :=
  hr.keeps h hc fun _ _ _ hc _ ho => closed_step hc ho

theorem closed_final_drained :
    ∃ w w' : Worker, w.isClosed ∧ w'.isClosed ∧ w' = effect Sample.config .connInitChanged w := by
  have hrun : ∃ w, (machine Sample.config).Reachable (fun e w => respectsClosed e w = true) w ∧
      w.isClosed ∧ Worker.enabled .connInitChanged w = true :=
    Machine.exists_reachable
      (Sample.active ++ Sample.closing ++ Sample.drained ++ [.closeFinished 0]) (by decide)
  obtain ⟨w, hw, hc, he⟩ := hrun
  have hstep : (machine Sample.config).Run (fun e w => respectsClosed e w = true) w
      (effect Sample.config .connInitChanged w) :=
    Machine.Run.step (M := machine Sample.config) (t := w) .connInitChanged .refl he rfl
  exact ⟨w, _, hc, closed_final hw hc hstep, rfl⟩

/-- A shutdown waits for an execution, the connection is lost, and on the next
one a heartbeat of the first fails while WORKER_CONNECT is being sent. The
timeout expires during the start request that follows; its answer sets
`conn_init` again, and the gateway's GATEWAY_CONNECTION_READY makes the closed
worker active. -/
theorem closed_reopened :
    ∃ w, (machine Sample.config).Reachable Machine.Any w ∧ w.isClosed ∧
      Worker.enabled Sample.ready w = true ∧
      (effect Sample.config Sample.ready w).state.connState.value = .active :=
  Machine.exists_reachable
    (Sample.active ++ [.heartbeat, Sample.requested "a" "1", .execution 0, .executionSent 0 .ok] ++
      Sample.closing ++ Sample.reconnected "second" ++
      [.reconnectWatcher, Sample.message .hello, .sendData,
        .heartbeatSent (.connectionClosed (exception "ConnectionClosedError" "no close frame")),
        .connInitChanged, .startRequest, .reconnectWatcher, .dataSent .ok, .closeTimedOut 0,
        Sample.startResponse "third"]) (by decide)

end Inngest.Connect
