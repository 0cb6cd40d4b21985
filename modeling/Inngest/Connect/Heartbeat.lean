import Inngest.Connect.State

/-!
# `HeartbeatHandler`
-/

set_option autoImplicit false

namespace Inngest.Connect

inductive HeartbeatPc where
  | created
  | waitingReady
  | waitingWs
  | sending (n : ℕ)
  | sleeping
  | stopped
  deriving DecidableEq

namespace Heartbeat

def send (s : State) : Block HeartbeatPc :=
  match s.ws.value with
  | none => ⟨s, .sleeping, none⟩
  | some n => ⟨s, .sending n, some (n, .heartbeat)⟩

def awaitWs (s : State) : Block HeartbeatPc :=
  if s.ws.value.isSome then send s else ⟨s.waitWs .heartbeatSender, .waitingWs, none⟩

def loop (closed : Bool) (s : State) : Block HeartbeatPc :=
  if closed then ⟨s, .stopped, none⟩
  else if s.initHandshakeComplete.value then awaitWs s
  else ⟨s.waitInitHandshakeComplete .heartbeatSender, .waitingReady, none⟩

def resume (closed : Bool) (pc : HeartbeatPc) (s : State) : Block HeartbeatPc :=
  match pc with
  | .created | .sleeping => loop closed s
  | .waitingReady => awaitWs (s.release .heartbeatSender)
  | .waitingWs => send (s.release .heartbeatSender)
  | pc => ⟨s, pc, none⟩

def resumable (pc : HeartbeatPc) (s : State) : Bool :=
  match pc with
  | .created | .sleeping => true
  | .waitingReady => (s.initHandshakeComplete.woken .heartbeatSender id).isSome
  | .waitingWs => (s.ws.woken .heartbeatSender Option.isSome).isSome
  | _ => false

/-- An error is logged; the next heartbeat is due all the same. -/
def settled (r : SendResult) (s : State) : Block HeartbeatPc := ⟨r.settle s, .sleeping, none⟩

variable {closed : Bool} {pc : HeartbeatPc} {s s' : State}

theorem send_state : (send s).state = s := by
  rw [send]
  split <;> rfl

theorem awaitWs_sameBut : s.SameBut .heartbeatSender (awaitWs s).state := by
  rw [awaitWs]
  split
  · rw [send_state]
    exact .refl _ _
  · exact .waitWs _ _

theorem loop_sameBut : s.SameBut .heartbeatSender (loop closed s).state := by
  rw [loop]
  split
  · exact .refl _ _
  · split
    · exact awaitWs_sameBut
    · exact .waitInitHandshakeComplete _ _

theorem resume_sameBut : s.SameBut .heartbeatSender (resume closed pc s).state := by
  cases pc with
  | created | sleeping => exact loop_sameBut
  | waitingReady => exact (State.SameBut.release _ _).trans awaitWs_sameBut
  | waitingWs =>
    rw [resume, send_state]
    exact .release _ _
  | sending n | stopped => exact .refl _ _

end Heartbeat

end Inngest.Connect
