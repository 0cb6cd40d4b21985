import Inngest.Connect.Steps

/-!
# The end of a worker

`run` leaves a connection when `conn_init` changes. The change that a shutdown
makes is seen if `run` was already watching; a watch that begins after
`conn_init` was cleared waits for a change that nobody may make.
-/

set_option autoImplicit false

namespace Inngest.Connect
open Errors Transition

namespace Worker
variable {cfg : Config} {w : Worker} {e : Event} {n : ℕ}

def ShutDown (w : Worker) : Prop :=
  w.state.connState.value = .closed ∧ w.state.connInit.value = none ∧ w.allClosed = true

instance : Decidable (ShutDown w) := inferInstanceAs (Decidable (_ ∧ _ ∧ _))

def watching (w : Worker) : Bool :=
  match w.run with
  | .watching _ => true
  | _ => false

/-- `run` waits for a change of `conn_init` and none is queued. -/
def Stuck (w : Worker) : Prop := w.watching = true ∧ w.state.connInit.queued .run = []

instance : Decidable (Stuck w) := inferInstanceAs (Decidable (_ ∧ _))

theorem watching_iff : w.watching = true ↔ ∃ n, w.run = .watching n := by
  unfold watching
  split <;> simp_all

/-- When `websockets.connect` returns, `conn_init` has not been cleared. -/
def connectsInTime (e : Event) (w : Worker) : Bool :=
  match e with
  | .connected => w.state.connInit.value.isSome
  | _ => true

def Awake (c : ValueWatcher Task (Option ConnInit)) : Prop :=
  (c.queues .run).isSome ∧ (c.value ≠ none ∨ c.queued .run ≠ [])

theorem Awake.set {c : ValueWatcher Task (Option ConnInit)} (h : Awake c) (v : Option ConnInit) :
    Awake (c.set v) := by
  refine ⟨by rw [ValueWatcher.set_queues_isSome]; exact h.1, ?_⟩
  by_cases hv : v = c.value
  · rw [ValueWatcher.set, if_pos hv]
    exact h.2
  · right
    have := ValueWatcher.mem_queued_of_change hv h.1
    intro hnil
    simp [hnil] at this

theorem Awake.same {c c' : ValueWatcher Task (Option ConnInit)} (h : Awake c)
    (hv : c'.value = c.value) (hq : c'.queues .run = c.queues .run) : Awake c' := by
  rw [Awake, ValueWatcher.queued, hv, hq]
  exact h

theorem Awake.sameBut {c c' : ValueWatcher Task (Option ConnInit)} {t : Task} (h : Awake c)
    (hc : SameBut t c c') (ht : Task.run ≠ t) : Awake c' := h.same hc.1 (hc.2 _ ht)

end Worker

theorem ConnInitStarter.Starts.awake {answers : Prop} {s s' : State} (h : Starts answers s s')
    (hs : Worker.Awake s.connInit) : Worker.Awake s'.connInit := by
  induction h with
  | refl => exact hs
  | wait _ hw ih => exact ih.sameBut hw.connInit (by simp)
  | connecting _ _ ih | failed _ _ ih | named _ _ ih => exact ih
  | answered _ _ init ih => exact ih.set _

namespace Worker
variable {cfg : Config} {w : Worker} {e : Event} {n : ℕ}

theorem awake_calm {W : Task → Prop} {s s' : State} (h : Awake s.connInit)
    (hs : State.Calm W s s') (hW : ¬ W .run) : Awake s'.connInit :=
  hs.connInit_keeps hW h (fun _ _ hc hv hq => hc.same hv hq) fun _ hc => hc.set none

theorem awake_step (h : Awake w.state.connInit) (hne : e ≠ .connected)
    (hne' : e ≠ .connInitChanged) : Awake (effect cfg e w).state.connInit := by
  cases hsets : e.sets with
  | false =>
    refine awake_calm h (calm_step cfg hsets) ?_
    intro hw
    cases e <;> simp [Event.waits] at hw hne'
    obtain ⟨b, hb⟩ := hw
    cases b <;> simp [Background.task] at hb
  | true =>
    cases e with
    | connected => exact absurd rfl hne
    | close =>
      rw [effect, close]
      split <;> exact h
    | handlersClosed | handlersTimedOut =>
      unfold effect
      dsimp only
      split
      · exact h.set none
      · exact h
    | runStopped =>
      unfold effect
      dsimp only
      split <;> exact h
    | message raw =>
      unfold effect
      dsimp only
      split
      · obtain ⟨b, hb, hcalm⟩ := handleMsg_calm cfg (w := w) _ raw
        exact awake_calm (by rwa [hb.connInit]) hcalm (by simp)
      · exact h
    | closeFinished i | closeTimedOut i => exact h.set none
    | startRequest => exact ConnInitStarter.resume_starts.awake h
    | startResponse res =>
      unfold effect
      dsimp only
      split
      · exact ConnInitStarter.responded_starts.awake h
      · exact h
    | executionCallback i =>
      obtain ⟨c, hc⟩ := executionDone_state (w := w) i
      rw [effect, hc]
      exact h
    | start | clock t | runStarted | gatewayTask t | gatewaySelected | losersCancelled
    | connectFailed | connInitChanged | connectionSettled | connectionLeft | retry | disconnected
    | closer i | closeSequence h | heartbeat | heartbeatSent r | reconnectWatcher | sendData
    | dataSent r | execution i | executionSent i r | executionPosted i r | leaseExtender
    | leaseSent r | flushPoller | flushed => simp [Event.sets] at hsets

theorem finish_run (raising : Option PyError) : (w.finish raising).run = .finishing raising := by
  rw [finish]
  split <;> rfl

theorem loopHead_run : ∀ n, w.loopHead.run ≠ .watching n := by
  intro n
  rw [loopHead]
  split
  · simp
  · simp [finish_run]

theorem proceed_run (sel : Selection) : ∀ n, (w.proceed sel).run ≠ .watching n := by
  intro n
  cases sel <;> simp [proceed, finish_run]

theorem watching_step (he : enabled e w = true) (h : (effect cfg e w).run = .watching n) :
    e = .connected ∨ w.run = .watching n ∧ e ≠ .connInitChanged := by
  have hready : w.ready e = true := by
    simp only [enabled, Bool.and_eq_true] at he
    exact he.1
  cases hrun : e.ofRun with
  | false =>
    rw [effect_run hrun] at h
    exact .inr ⟨h, fun heq => by simp [heq, Event.ofRun] at hrun⟩
  | true =>
    cases e with
    | connected => exact .inl rfl
    | runStarted | connectionLeft | retry => exact absurd h (loopHead_run n)
    | gatewayTask t | connInitChanged | connectionSettled | handlersClosed | handlersTimedOut
    | runStopped =>
      unfold ready at hready
      unfold effect at h
      dsimp only at h hready
      split at h <;> simp_all [finishRun, endRun]
    | gatewaySelected =>
      unfold ready at hready
      unfold effect at h
      dsimp only at h hready
      split at h
      · unfold selectGateway at h
        split at h
        · simp_all
        · split at h
          · exact absurd h (proceed_run _ n)
          · simp at h
      · simp_all
    | losersCancelled =>
      unfold ready at hready
      unfold effect at h
      dsimp only at h hready
      split at h
      · exact absurd h (proceed_run _ n)
      · simp_all
    | connectFailed => simp [effect] at h
    | start | close | clock t | message raw | disconnected | closer i | closeFinished i
    | closeTimedOut i | closeSequence h | startRequest | startResponse res | heartbeat
    | heartbeatSent r | reconnectWatcher | sendData | dataSent r | execution i | executionSent i r
    | executionPosted i r | executionCallback i | leaseExtender | leaseSent r | flushPoller
    | flushed => simp [Event.ofRun] at hrun

def Attentive (w : Worker) : Prop := ∀ n, w.run = .watching n → Awake w.state.connInit

theorem attentive_step (h : Attentive w) (he : enabled e w = true)
    (ht : connectsInTime e w = true) : Attentive (effect cfg e w) := by
  intro n hn
  rcases watching_step he hn with rfl | ⟨hw, hne'⟩
  · unfold effect at hn ⊢
    dsimp only at hn ⊢
    split
    · refine ⟨by simp [connected, State.waitConnInit], .inl ?_⟩
      obtain ⟨v, hv⟩ := Option.isSome_iff_exists.mp ht
      simp [connected, State.waitConnInit, hv]
    · simp_all [enabled, ready]
  · have hne : e ≠ .connected := by
      rintro rfl
      simp [enabled, ready, hw] at he
    exact awake_step (h n hw) hne hne'

end Worker

open Worker

/-- When every connection is there in time, `run` does not miss the shutdown. -/
theorem shutdown_not_missed {cfg : Config} {w : Worker}
    (h : (machine cfg).Reachable (fun e w => connectsInTime e w = true) w) (hs : ShutDown w) :
    ¬ Stuck w := by
  have ha : Attentive w := h.invariant (by intro n hn; simp [machine, initial] at hn)
    fun e s _ hs he ht => attentive_step hs he ht
  rintro ⟨hwatch, hq⟩
  obtain ⟨n, hn⟩ := watching_iff.mp hwatch
  rcases (ha n hn).2 with hv | hne
  · exact hv hs.2.1
  · exact hne hq

theorem shutdown_not_missed_watching :
    ∃ w : Worker, w.watching = true ∧ ShutDown w ∧ ¬ Stuck w := by
  have hrun : ∃ w, (machine Sample.config).Reachable (fun e w => connectsInTime e w = true) w ∧
      w.watching = true ∧ ShutDown w :=
    Machine.exists_reachable
      (Sample.active ++ Sample.closing ++ Sample.drained ++ [.closeFinished 0]) (by decide)
  obtain ⟨w, hw, hwatch, hs⟩ := hrun
  exact ⟨w, hwatch, hs, shutdown_not_missed hw hs⟩

/-- `close()` while `websockets.connect` is under way: the handlers close, the
connection is there a moment later, and `run` waits for ever. -/
theorem shutdown_missed :
    ∃ w, (machine Sample.config).Reachable Machine.Any w ∧ ShutDown w ∧ Stuck w :=
  Machine.exists_reachable
    (Sample.started ++ [.close, .closer 0] ++ Sample.drained ++ [.closeFinished 0, .connected])
    (by decide)

end Inngest.Connect
