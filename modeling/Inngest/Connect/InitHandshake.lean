import Inngest.Connect.State

/-!
# `InitHandshakeHandler`
-/

set_option autoImplicit false

namespace Inngest.Connect
open Errors

inductive HandshakeState where
  | awaitingHello
  | awaitingSyncComplete
  | awaitingReady
  | complete
  deriving DecidableEq, Repr

inductive ReconnectWatcherPc where
  | created
  | waiting
  | stopped
  deriving DecidableEq

inductive SendDataPc where
  | created (authData : AuthData) (connectionId : String)
  | waitingWs (authData : AuthData) (connectionId : String)
  | sending (n : ℕ)
  deriving DecidableEq

structure InitHandshake where
  state : HandshakeState
  reconnectWatcher : ReconnectWatcherPc
  sendData : Option SendDataPc
  deriving DecidableEq

namespace InitHandshake
variable (cfg : Config)

def initial : InitHandshake := ⟨.awaitingHello, .created, none⟩

/-- `_duration_str_to_sec`: `^(\d+)s$` allows a line break at the end, and
`int` refuses more than 4300 digits. -/
def durationStrToSec (s : String) : Except PyError ℕ :=
  let invalid := exception "UnreachableError" ("Invalid duration string: " ++ s)
  let chars := if s.toList.getLast? = some '\n' then s.toList.dropLast else s.toList
  if chars.getLast? = some 's' then
    match chars.dropLast.mapM cfg.digitValue with
    | none | some [] => .error invalid
    | some digits =>
      if digits.length ≤ 4300 then .ok (digits.foldl (fun n d => 10 * n + d) 0)
      else .error invalid
  else .error invalid

def appConfiguration (app : AppConfig) : Except PyError AppConfiguration :=
  app.functions.map fun functions => ⟨app.appId, app.version, functions⟩

def createSyncMessage (authData : AuthData) (connectionId : String) :
    Except PyError WorkerConnectRequestData :=
  (cfg.apps.mapM appConfiguration).map fun apps =>
    { apps := apps
      authData := authData
      connectionId := connectionId
      environment := cfg.env
      instanceId := cfg.instanceId
      maxWorkerConcurrency := cfg.maxWorkerConcurrency }

/-! ## `_send_response` -/

def send (authData : AuthData) (connectionId : String) (s : State) : Block (Option SendDataPc) :=
  match createSyncMessage cfg authData connectionId with
  | .error _ => ⟨s, none, none⟩
  | .ok data =>
    match s.ws.value with
    | none => ⟨s, none, none⟩
    | some n => ⟨s, some (.sending n), some (n, .connect data)⟩

def resumeSend (pc : SendDataPc) (s : State) : Block (Option SendDataPc) :=
  match pc with
  | .created a c =>
    if s.ws.value.isSome then send cfg a c s
    else ⟨s.waitWs .sendData, some (.waitingWs a c), none⟩
  | .waitingWs a c => send cfg a c (s.release .sendData)
  | .sending n => ⟨s, some (.sending n), none⟩

def sendResumable (pc : SendDataPc) (s : State) : Bool :=
  match pc with
  | .created _ _ => true
  | .waitingWs _ _ => (s.ws.woken .sendData Option.isSome).isSome
  | .sending _ => false

def sentState (r : SendResult) (h : HandshakeState) : HandshakeState :=
  match r with
  | .ok => .awaitingReady
  | _ => h

/-! ## `_reconnect_watcher` -/

def watcherLoop (closed : Bool) (s : State) : State × ReconnectWatcherPc :=
  if closed then (s, .stopped) else (s.waitConnInit .reconnectWatcher, .waiting)

def watcherResumable (pc : ReconnectWatcherPc) (s : State) : Bool :=
  match pc with
  | .created => true
  | .waiting => (s.connInit.woken .reconnectWatcher Option.isNone).isSome
  | .stopped => false

def resumeWatcher (closed : Bool) (s : State) (h : InitHandshake) : State × InitHandshake :=
  match h.reconnectWatcher with
  | .created =>
    let r := watcherLoop closed s
    (r.1, { h with reconnectWatcher := r.2 })
  | .waiting =>
    let r := watcherLoop closed (s.release .reconnectWatcher)
    (r.1, { h with state := .awaitingHello, reconnectWatcher := r.2 })
  | .stopped => (s, h)

/-! ## `handle_msg` -/

/-- What `handle_msg` leaves: `completed` says that the handshake was
completed by this message. -/
structure Handled where
  state : State
  handshake : InitHandshake
  completed : Bool

def sync (authData : AuthData) (connectionId : String) (s : State) (h : InitHandshake) :
    Handled where
  state := if h.sendData.isSome then s.release .sendData else s
  handshake := { h with sendData := some (.created authData connectionId) }
  completed := false

def leaseInterval (data : GatewayConnectionReadyData) : Option ℕ :=
  match cfg.extendLeaseInterval with
  | some n => some n
  | none => (durationStrToSec cfg data.extendLeaseInterval).toOption

def ready (data : GatewayConnectionReadyData) (s : State) (h : InitHandshake) : Handled where
  state := { s with
    extendLeaseInterval :=
      match leaseInterval cfg data with
      | some n => s.extendLeaseInterval.set (some n)
      | none => s.extendLeaseInterval
    connState := s.connState.set .active
    initHandshakeComplete := s.initHandshakeComplete.set true }
  handshake := { h with state := .complete }
  completed := true

def handleMsg (msg : GatewayMessage) (authData : AuthData) (connectionId : String)
    (s : State) (h : InitHandshake) : Handled :=
  match h.state, msg with
  | .awaitingHello, .hello =>
    sync authData connectionId
      { s with initHandshakeComplete := s.initHandshakeComplete.set false }
      { h with state := .awaitingSyncComplete }
  | .awaitingSyncComplete, _ => sync authData connectionId s h
  | .awaitingReady, .connectionReady (.ok data) => ready cfg data s h
  | _, _ => ⟨s, h, false⟩

variable {cfg} {authData : AuthData} {connectionId : String} {pc : SendDataPc} {s : State}

theorem send_state : (send cfg authData connectionId s).state = s := by
  rw [send]
  split
  · rfl
  · split <;> rfl

theorem resumeSend_sameBut : s.SameBut .sendData (resumeSend cfg pc s).state := by
  cases pc with
  | created a c =>
    rw [resumeSend]
    split
    · rw [send_state]
      exact .refl _ _
    · exact .waitWs _ _
  | waitingWs a c =>
    rw [resumeSend, send_state]
    exact .release _ _
  | sending n => exact .refl _ _

theorem watcherLoop_sameBut {closed : Bool} :
    s.SameBut .reconnectWatcher (watcherLoop closed s).1 := by
  rw [watcherLoop]
  split
  · exact .refl _ _
  · exact .waitConnInit _ _

theorem resumeWatcher_sameBut {closed : Bool} {h : InitHandshake} :
    s.SameBut .reconnectWatcher (resumeWatcher closed s h).1 := by
  rw [resumeWatcher]
  cases h.reconnectWatcher with
  | created => exact watcherLoop_sameBut
  | waiting => exact (State.SameBut.release _ _).trans watcherLoop_sameBut
  | stopped => exact .refl _ _

end InitHandshake

end Inngest.Connect
