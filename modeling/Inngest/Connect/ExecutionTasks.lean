import Inngest.Connect.Execution

/-!
# `ExecutionHandler`: the lease extender and the flush poller
-/

set_option autoImplicit false

namespace Inngest.Connect
open Errors

/-! ## `_lease_extender` -/

inductive LeasePc where
  | created
  | waitingWs
  | waitingInterval
  | sleeping
  | sending (n : ℕ) (rest : List ℕ)
  | stopped
  deriving DecidableEq

namespace LeasePc

def rest : LeasePc → List ℕ
  | .sending _ rest => rest
  | _ => []

end LeasePc

structure LeaseBlock where
  state : State
  pc : LeasePc
  sent : Option (ℕ × WorkerRequestExtendLeaseData)

namespace LeaseExtender

def awaitInterval (s : State) : LeaseBlock :=
  if s.extendLeaseInterval.value.isSome then ⟨s, .sleeping, none⟩
  else ⟨s.waitExtendLeaseInterval .leaseExtender, .waitingInterval, none⟩

def loop (closed : Bool) (s : State) : LeaseBlock :=
  if closed then ⟨s, .stopped, none⟩
  else if s.ws.value.isSome then awaitInterval s
  else ⟨s.waitWs .leaseExtender, .waitingWs, none⟩

/-- The `for` loop. Without a connection every `safe_send` fails at once. -/
def extend (closed : Bool) (tasks : List Execution) (rest : List ℕ) (s : State) : LeaseBlock :=
  match s.ws.value, rest with
  | some n, i :: rest =>
    ⟨s, .sending n rest, tasks[i]?.map fun e => (n, e.req.extendLeaseData)⟩
  | _, _ => loop closed s

def wake (closed : Bool) (x : Executions) (s : State) : LeaseBlock :=
  if x.pending.size = 0 then loop closed s else extend closed x.tasks x.pending.values s

def resume (closed : Bool) (x : Executions) (pc : LeasePc) (s : State) : LeaseBlock :=
  match pc with
  | .created => loop closed s
  | .waitingWs => awaitInterval (s.release .leaseExtender)
  | .waitingInterval => ⟨s.release .leaseExtender, .sleeping, none⟩
  | .sleeping => wake closed x s
  | pc => ⟨s, pc, none⟩

def resumable (pc : LeasePc) (s : State) : Bool :=
  match pc with
  | .created | .sleeping => true
  | .waitingWs => (s.ws.woken .leaseExtender Option.isSome).isSome
  | .waitingInterval => (s.extendLeaseInterval.woken .leaseExtender Option.isSome).isSome
  | _ => false

def settled (closed : Bool) (x : Executions) (pc : LeasePc) (r : SendResult) (s : State) :
    LeaseBlock := extend closed x.tasks pc.rest (r.settle s)

variable {closed : Bool} {x : Executions} {pc : LeasePc} {s : State} {tasks : List Execution}
  {rest : List ℕ}

theorem awaitInterval_sameBut : s.SameBut .leaseExtender (awaitInterval s).state := by
  rw [awaitInterval]
  split
  · exact .refl _ _
  · exact .waitExtendLeaseInterval _ _

theorem loop_sameBut : s.SameBut .leaseExtender (loop closed s).state := by
  rw [loop]
  split
  · exact .refl _ _
  · split
    · exact awaitInterval_sameBut
    · exact .waitWs _ _

theorem extend_sameBut : s.SameBut .leaseExtender (extend closed tasks rest s).state := by
  unfold extend
  split
  · exact .refl _ _
  · exact loop_sameBut

theorem resume_sameBut : s.SameBut .leaseExtender (resume closed x pc s).state := by
  cases pc with
  | created => exact loop_sameBut
  | waitingWs => exact (State.SameBut.release _ _).trans awaitInterval_sameBut
  | waitingInterval => exact .release _ _
  | sleeping =>
    rw [resume, wake]
    split
    · exact loop_sameBut
    · exact extend_sameBut
  | sending n rest | stopped => exact .refl _ _

end LeaseExtender

/-! ## `_unacked_msg_flush_poller` -/

/-- `flushing item rest`: the item is being flushed and `rest` is what is left
of the snapshot. `interrupted` is a cancelled flush whose `finally` is due. -/
inductive FlushPc where
  | created
  | waitingInterval
  | flushing (ttl : ℕ) (item : BufferItem Reply) (rest : List (BufferItem Reply))
  | sleeping (ttl : ℕ)
  | interrupted (item : BufferItem Reply)
  | stopped
  deriving DecidableEq

structure FlushBlock where
  state : State
  pc : FlushPc
  buffer : ReplyBuffer
  replies : List ReplyMark

namespace FlushPoller

def flush (ttl : ℕ) (rest : List (BufferItem Reply)) (s : State) (b : ReplyBuffer)
    (marks : List ReplyMark) : FlushBlock :=
  match rest with
  | [] => ⟨s, .sleeping ttl, b, marks⟩
  | item :: rest => ⟨s, .flushing ttl item rest, b, .flushStart item.data.task :: marks⟩

def loop (closed : Bool) (ttl : ℕ) (now : ℚ) (s : State) (b : ReplyBuffer) : FlushBlock :=
  if closed then ⟨s, .stopped, b, []⟩ else flush ttl (b.getOlderThan ttl now) s b []

def start (closed : Bool) (now : ℚ) (s : State) (b : ReplyBuffer) : FlushBlock :=
  match s.extendLeaseInterval.value with
  | some ttl => loop closed ttl now s b
  | none => ⟨s.waitExtendLeaseInterval .flushPoller, .waitingInterval, b, []⟩

def wokenTtl (s : State) : Option ℕ :=
  (s.extendLeaseInterval.woken .flushPoller Option.isSome).join

def resume (closed : Bool) (now : ℚ) (pc : FlushPc) (s : State) (b : ReplyBuffer) : FlushBlock :=
  match pc with
  | .created => start closed now s b
  | .waitingInterval => loop closed ((wokenTtl s).getD 0) now (s.release .flushPoller) b
  | .sleeping ttl => loop closed ttl now s b
  | .interrupted item => ⟨s, .stopped, b.delete Reply.len item.id, []⟩
  | pc => ⟨s, pc, b, []⟩

def resumable (pc : FlushPc) (s : State) : Bool :=
  match pc with
  | .created | .sleeping _ | .interrupted _ => true
  | .waitingInterval => (wokenTtl s).isSome
  | _ => false

/-- The end of `_flush_message`, whatever it returned: the entry of the
request is deleted. -/
def flushed (pc : FlushPc) (s : State) (b : ReplyBuffer) : FlushBlock :=
  match pc with
  | .flushing ttl item rest =>
    flush ttl rest s (b.delete Reply.len item.id) [.flushEnd item.data.task]
  | pc => ⟨s, pc, b, []⟩

def cancel (pc : FlushPc) : FlushPc :=
  match pc with
  | .flushing _ item _ => .interrupted item
  | _ => .stopped

variable {closed : Bool} {ttl : ℕ} {now : ℚ} {pc : FlushPc} {s : State} {b : ReplyBuffer}
  {rest : List (BufferItem Reply)} {marks : List ReplyMark}

theorem flush_state : (flush ttl rest s b marks).state = s := by
  cases rest <;> rfl

theorem loop_state : (loop closed ttl now s b).state = s := by
  rw [loop]
  split
  · rfl
  · exact flush_state

theorem resume_sameBut : s.SameBut .flushPoller (resume closed now pc s b).state := by
  cases pc with
  | created =>
    rw [resume, start]
    split
    · rw [loop_state]
      exact .refl _ _
    · exact .waitExtendLeaseInterval _ _
  | waitingInterval =>
    rw [resume, loop_state]
    exact .release _ _
  | sleeping ttl =>
    rw [resume, loop_state]
    exact .refl _ _
  | interrupted item | flushing ttl item rest | stopped => exact .refl _ _

theorem flushed_state : (flushed pc s b).state = s := by
  cases pc with
  | flushing ttl item rest => exact flush_state
  | created | waitingInterval | sleeping ttl | interrupted item | stopped => rfl

end FlushPoller

end Inngest.Connect
