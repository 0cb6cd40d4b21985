import Inngest.Connect.Protocol
import Inngest.ValueWatcher

/-!
# The state that the parts of a worker share

`models.State`, and the tasks that wait for its values. A task waits for one
value at a time; when it goes on, or is cancelled, its queue goes.
-/

set_option autoImplicit false

namespace Inngest.Connect
open Errors

inductive ConnectionState where
  | active
  | closed
  | closing
  | connecting
  | paused
  | reconnecting
  deriving DecidableEq, Repr

inductive Handler where
  | connInit
  | heartbeat
  | initHandshake
  | execution
  | drain
  deriving DecidableEq, Repr

inductive Task where
  | run
  | gatewayInit
  | gatewayClosing
  | gatewayFatal
  | startRequest
  | heartbeatSender
  | reconnectWatcher
  | sendData
  | execution (i : ℕ)
  | leaseExtender
  | flushPoller
  | closeSequence (h : Handler)
  deriving DecidableEq, Repr

/-- A WebSocket connection is known by its number. `exclude_gateways` is never
written and nobody waits for `conn_id`. -/
structure State where
  connId : Option String
  connInit : ValueWatcher Task (Option ConnInit)
  connState : ValueWatcher Task ConnectionState
  extendLeaseInterval : ValueWatcher Task (Option ℕ)
  fatalError : ValueWatcher Task (Option PyError)
  initHandshakeComplete : ValueWatcher Task Bool
  pendingRequestCount : ValueWatcher Task ℤ
  ws : ValueWatcher Task (Option ℕ)

namespace State

def initial : State where
  connId := none
  connInit := .new none
  connState := .new .connecting
  extendLeaseInterval := .new none
  fatalError := .new none
  initHandshakeComplete := .new false
  pendingRequestCount := .new 0
  ws := .new none

variable (s : State) (t : Task)

def allowReconnect : Bool := s.connState.value ≠ .closed

def closeWs : State :=
  { s with
    connState := if s.allowReconnect then s.connState.set .reconnecting else s.connState
    connInit := s.connInit.set none
    ws := s.ws.set none }

def release : State :=
  { s with
    connInit := s.connInit.removeQueue t
    connState := s.connState.removeQueue t
    extendLeaseInterval := s.extendLeaseInterval.removeQueue t
    fatalError := s.fatalError.removeQueue t
    initHandshakeComplete := s.initHandshakeComplete.removeQueue t
    pendingRequestCount := s.pendingRequestCount.removeQueue t
    ws := s.ws.removeQueue t }

def waitConnInit : State := { s with connInit := s.connInit.watch t }
def waitConnState : State := { s with connState := s.connState.watch t }
def waitExtendLeaseInterval : State :=
  { s with extendLeaseInterval := s.extendLeaseInterval.watch t }
def waitFatalError : State := { s with fatalError := s.fatalError.watch t }
def waitInitHandshakeComplete : State :=
  { s with initHandshakeComplete := s.initHandshakeComplete.watch t }
def waitPendingRequestCount : State :=
  { s with pendingRequestCount := s.pendingRequestCount.watch t }
def waitWs : State := { s with ws := s.ws.watch t }

end State

/-! ## What a task that only waits and sends does to the state -/

def SameBut {α : Type} (t : Task) (w w' : ValueWatcher Task α) : Prop :=
  w'.value = w.value ∧ ∀ u, u ≠ t → w'.queues u = w.queues u

namespace SameBut
variable {α : Type} {t : Task} {w w' w'' : ValueWatcher Task α}

theorem refl (t : Task) (w : ValueWatcher Task α) : SameBut t w w := ⟨rfl, fun _ _ => rfl⟩

theorem trans (h : SameBut t w w') (h' : SameBut t w' w'') : SameBut t w w'' :=
  ⟨h'.1.trans h.1, fun u hu => (h'.2 u hu).trans (h.2 u hu)⟩

theorem watch (t : Task) (w : ValueWatcher Task α) : SameBut t w (w.watch t) :=
  ⟨rfl, fun u hu => by simp [hu]⟩

theorem removeQueue (t : Task) (w : ValueWatcher Task α) : SameBut t w (w.removeQueue t) :=
  ⟨rfl, fun u hu => by simp [hu]⟩

end SameBut

namespace State

structure SameBut (t : Task) (s s' : State) : Prop where
  connId : s'.connId = s.connId
  connInit : Connect.SameBut t s.connInit s'.connInit
  connState : Connect.SameBut t s.connState s'.connState
  extendLeaseInterval : Connect.SameBut t s.extendLeaseInterval s'.extendLeaseInterval
  fatalError : Connect.SameBut t s.fatalError s'.fatalError
  initHandshakeComplete : Connect.SameBut t s.initHandshakeComplete s'.initHandshakeComplete
  pendingRequestCount : Connect.SameBut t s.pendingRequestCount s'.pendingRequestCount
  ws : Connect.SameBut t s.ws s'.ws

namespace SameBut
variable {t : Task} {s s' s'' : State}

theorem refl (t : Task) (s : State) : SameBut t s s :=
  ⟨rfl, .refl t _, .refl t _, .refl t _, .refl t _, .refl t _, .refl t _, .refl t _⟩

theorem trans (h : SameBut t s s') (h' : SameBut t s' s'') : SameBut t s s'' where
  connId := h'.connId.trans h.connId
  connInit := h.connInit.trans h'.connInit
  connState := h.connState.trans h'.connState
  extendLeaseInterval := h.extendLeaseInterval.trans h'.extendLeaseInterval
  fatalError := h.fatalError.trans h'.fatalError
  initHandshakeComplete := h.initHandshakeComplete.trans h'.initHandshakeComplete
  pendingRequestCount := h.pendingRequestCount.trans h'.pendingRequestCount
  ws := h.ws.trans h'.ws

theorem release (t : Task) (s : State) : SameBut t s (s.release t) :=
  ⟨rfl, .removeQueue t _, .removeQueue t _, .removeQueue t _, .removeQueue t _, .removeQueue t _,
    .removeQueue t _, .removeQueue t _⟩

theorem waitConnInit (t : Task) (s : State) : SameBut t s (s.waitConnInit t) :=
  { refl t s with connInit := .watch t _ }

theorem waitExtendLeaseInterval (t : Task) (s : State) :
    SameBut t s (s.waitExtendLeaseInterval t) :=
  { refl t s with extendLeaseInterval := .watch t _ }

theorem waitInitHandshakeComplete (t : Task) (s : State) :
    SameBut t s (s.waitInitHandshakeComplete t) :=
  { refl t s with initHandshakeComplete := .watch t _ }

theorem waitPendingRequestCount (t : Task) (s : State) :
    SameBut t s (s.waitPendingRequestCount t) :=
  { refl t s with pendingRequestCount := .watch t _ }

theorem waitWs (t : Task) (s : State) : SameBut t s (s.waitWs t) :=
  { refl t s with ws := .watch t _ }

end SameBut

/-- What tasks that wait and send do to the state: their queues come and go,
and `close_ws` is called when a connection turns out to be closed. -/
inductive Calm (W : Task → Prop) (s : State) : State → Prop where
  | refl : Calm W s s
  | wait {s' s'' : State} {t : Task} (h : Calm W s s') (ht : W t) (hw : SameBut t s' s'') :
    Calm W s s''
  | closeWs {s' : State} (h : Calm W s s') : Calm W s s'.closeWs

namespace Calm
variable {W : Task → Prop} {s s' s'' : State} {t : Task}

theorem of_sameBut (h : SameBut t s s') (ht : W t) : Calm W s s' := .wait .refl ht h

theorem mono {W' : Task → Prop} (h : Calm W s s') (hW : ∀ t, W t → W' t) : Calm W' s s' := by
  induction h with
  | refl => exact .refl
  | wait _ ht hw ih => exact .wait ih (hW _ ht) hw
  | closeWs _ ih => exact .closeWs ih

theorem trans (h : Calm W s s') (h' : Calm W s' s'') : Calm W s s'' := by
  induction h' with
  | refl => exact h
  | wait _ ht hw ih => exact .wait ih ht hw
  | closeWs _ ih => exact .closeWs ih

theorem connId (h : Calm W s s') : s'.connId = s.connId := by
  induction h with
  | refl => rfl
  | wait _ _ hw ih => exact hw.connId.trans ih
  | closeWs _ ih => exact ih

theorem ws (h : Calm W s s') : s'.ws.value = s.ws.value ∨ s'.ws.value = none := by
  induction h with
  | refl => exact .inl rfl
  | wait _ _ hw ih => rwa [hw.ws.1]
  | closeWs _ ih => exact .inr (by simp [State.closeWs])

theorem connInit (h : Calm W s s') :
    s'.connInit.value = s.connInit.value ∨ s'.connInit.value = none ∧ s'.ws.value = none := by
  induction h with
  | refl => exact .inl rfl
  | wait _ _ hw ih => rwa [hw.connInit.1, hw.ws.1]
  | closeWs _ ih => exact .inr (by simp [State.closeWs])

theorem closed (h : Calm W s s') (hs : s.connState.value = .closed) :
    s'.connState.value = .closed := by
  induction h with
  | refl => exact hs
  | wait _ _ hw ih => rw [hw.connState.1, ih]
  | closeWs _ ih => simp [State.closeWs, State.allowReconnect, ih]

theorem initHandshakeComplete (h : Calm W s s') (ht : ¬ W t) :
    s'.initHandshakeComplete.value = s.initHandshakeComplete.value ∧
      s'.initHandshakeComplete.queues t = s.initHandshakeComplete.queues t := by
  induction h with
  | refl => exact ⟨rfl, rfl⟩
  | wait _ hW hw ih =>
    have hne := hw.initHandshakeComplete.2 t fun heq => ht (heq ▸ hW)
    exact ⟨hw.initHandshakeComplete.1.trans ih.1, hne.trans ih.2⟩
  | closeWs _ ih => exact ih

theorem connInit_keeps (h : Calm W s s') (ht : ¬ W t)
    {P : ValueWatcher Task (Option ConnInit) → Prop} (hs : P s.connInit)
    (hsame : ∀ c c', P c → c'.value = c.value → c'.queues t = c.queues t → P c')
    (hclear : ∀ c, P c → P (c.set none)) : P s'.connInit := by
  induction h with
  | refl => exact hs
  | wait _ hW hw ih =>
    exact hsame _ _ ih hw.connInit.1 (hw.connInit.2 t fun heq => ht (heq ▸ hW))
  | closeWs _ ih => exact hclear _ ih

end Calm

end State

inductive SendResult where
  | ok
  | connectionClosed (e : PyError)
  | failed (e : PyError)

def SendResult.settle (r : SendResult) (s : State) : State :=
  match r with
  | .connectionClosed _ => s.closeWs
  | _ => s

theorem SendResult.settle_calm (r : SendResult) {W : Task → Prop} {s : State} :
    State.Calm W s (r.settle s) := by
  cases r with
  | connectionClosed e => exact .closeWs .refl
  | ok | failed e => exact .refl

/-- Where a task stands when it is suspended again, and what it has begun to
send, with the connection. -/
structure Block (κ : Type) where
  state : State
  pc : κ
  sent : Option (ℕ × WorkerMessage) := none

end Inngest.Connect
