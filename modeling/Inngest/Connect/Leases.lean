import Inngest.Connect.ExecutionSteps
import Inngest.Connect.Steps

/-!
# Whose lease is extended

The extender works on a snapshot of the pending requests. It extends the
present lease of a request as long as nothing ends or replaces a request that
is still before it, and no request whose lease is lost is in the snapshot.
-/

set_option autoImplicit false

namespace Inngest.Connect
open Errors Transition

/-- The lease that a request holds, by what has happened to it: the original
one or that of the last acknowledgement, and none before it is accepted and
after an acknowledgement without a lease or its removal. -/
def currentLease (id : String) : List LeaseMark → Option String
  | [] => none
  | .accepted id' lease :: past => if id' = id then some lease else currentLease id past
  | .acked id' lease :: past =>
    if id' = id then (currentLease id past).map fun _ => lease else currentLease id past
  | .nacked id' :: past => if id' = id then none else currentLease id past
  | .removed id' :: past => if id' = id then none else currentLease id past
  | .extended _ :: past => currentLease id past

namespace Worker
variable {cfg : Config} {w w' : Worker} {e : Event}

def awaited (w : Worker) (id : String) : Bool :=
  w.leaseExtender.rest.any fun i =>
    w.executions.tasks[i]?.any fun x => x.req.requestId = id

/-- No request that is before the extender is replaced, refused a lease or
removed, and none that was refused a lease gets before it. -/
def undisturbed (cfg : Config) (e : Event) (w : Worker) : Bool :=
  match read e w, e with
  | some (.extendLeaseAck (.ok data)), _ =>
    data.newLeaseId.getD "" ≠ "" || !w.awaited data.requestId
  | some msg, _ => (w.executions.accepts cfg msg).all fun req => !w.awaited req.requestId
  | none, .executionCallback i =>
    w.executions.tasks[i]?.all fun x => !w.awaited x.req.requestId
  | none, .leaseExtender =>
    w.state.ws.value.isNone || (w.turn .leaseExtender).all fun i =>
      w.executions.tasks[i]?.all fun x => !x.nacked
  | none, _ => true

def Current (past : List LeaseMark) : LeaseMark → Prop
  | .extended data => currentLease data.requestId past = some data.leaseId
  | _ => True

def Holding (w : Worker) (i : ℕ) : Prop :=
  ∃ x, w.executions.tasks[i]? = some x ∧ x.nacked = false ∧
    w.executions.pending.lookup x.req.requestId = some i

structure LeaseKept (w : Worker) : Prop where
  entry : ∀ id i, w.executions.pending.lookup id = some i →
    ∃ x, w.executions.tasks[i]? = some x ∧ x.req.requestId = id ∧
      (x.nacked = false → currentLease id w.leases = some x.req.leaseId)
  rest : ∀ i ∈ w.leaseExtender.rest, w.Holding i
  each : Each Current w.leases

theorem leaseKept_initial : LeaseKept initial where
  entry := by simp [initial, Executions.initial]
  rest := by simp [initial, LeasePc.rest]
  each := trivial

theorem awaited_of_rest {i : ℕ} {x : Execution} (hi : i ∈ w.leaseExtender.rest)
    (hx : w.executions.tasks[i]? = some x) : w.awaited x.req.requestId = true := by
  simp only [awaited, List.any_eq_true]
  exact ⟨i, hi, by simp [hx]⟩

structure Rests (w w' : Worker) : Prop where
  tasks : ∀ (i : ℕ) (x : Execution), w.executions.tasks[i]? = some x →
    ∃ x' : Execution, w'.executions.tasks[i]? = some x' ∧ x'.req = x.req ∧ x'.nacked = x.nacked
  pending : w'.executions.pending = w.executions.pending
  leases : w'.leases = w.leases
  rest : ∀ i ∈ w'.leaseExtender.rest, i ∈ w.leaseExtender.rest

theorem LeaseKept.rests (h : LeaseKept w) (hw : Rests w w') : LeaseKept w' where
  entry id i hi := by
    rw [hw.pending] at hi
    obtain ⟨x, hx, hid, hl⟩ := h.entry id i hi
    obtain ⟨x', hx', hreq, hnack⟩ := hw.tasks i x hx
    refine ⟨x', hx', hreq ▸ hid, fun hn => ?_⟩
    rw [hw.leases, hreq]
    exact hl (hnack ▸ hn)
  rest i hi := by
    obtain ⟨x, hx, hn, hl⟩ := h.rest i (hw.rest i hi)
    obtain ⟨x', hx', hreq, hnack⟩ := hw.tasks i x hx
    exact ⟨x', hx', hnack.trans hn, by rw [hw.pending, hreq, hl]⟩
  each := by rw [hw.leases]; exact h.each

theorem Rests.of_tasks (ht : w'.executions.tasks = w.executions.tasks)
    (hp : w'.executions.pending = w.executions.pending) (hl : w'.leases = w.leases)
    (hr : ∀ i ∈ w'.leaseExtender.rest, i ∈ w.leaseExtender.rest) : Rests w w' :=
  ⟨fun i x hx => ⟨x, by rw [ht, hx], rfl, rfl⟩, hp, hl, hr⟩

theorem setStage_get (i : ℕ) (stage : Stage) {x : Executions} {j : ℕ} {y : Execution}
    (hy : x.tasks[j]? = some y) : ∃ y', (x.setStage i stage).tasks[j]? = some y' ∧
      y'.req = y.req ∧ y'.nacked = y.nacked := by
  refine ⟨_, get_modify _ hy, ?_⟩
  split <;> exact ⟨rfl, rfl⟩

/-! ## The messages -/

variable {req : GatewayExecutorRequestData} {id lease : String} {i : ℕ}

theorem LeaseKept.accepted (h : LeaseKept w) (hid : w.awaited req.requestId = false)
    (hx : w'.executions = w.executions.add req)
    (hl : w'.leases = .accepted req.requestId req.leaseId :: w.leases)
    (hr : w'.leaseExtender = w.leaseExtender) : LeaseKept w' where
  entry id i hi := by
    rw [hx, Executions.add] at hi ⊢
    simp only [OrderedDict.lookup_put] at hi
    split at hi
    · rename_i heq
      obtain rfl := Option.some.inj hi
      refine ⟨⟨req, .created, false⟩, by simp, heq.symm, fun _ => ?_⟩
      rw [hl, currentLease, if_pos heq.symm]
    · rename_i hne
      obtain ⟨x, hx, hreq, hlease⟩ := h.entry id i hi
      have hlt := (List.getElem?_eq_some_iff.mp hx).1
      refine ⟨x, by rw [List.getElem?_append_left hlt, hx], hreq, fun hn => ?_⟩
      rw [hl, currentLease, if_neg (Ne.symm hne)]
      exact hlease hn
  rest i hi := by
    rw [hr] at hi
    obtain ⟨x, hi', hn, hlookup⟩ := h.rest i hi
    have hlt := (List.getElem?_eq_some_iff.mp hi').1
    refine ⟨x, ?_, hn, ?_⟩
    · rw [hx, Executions.add, List.getElem?_append_left hlt, hi']
    · have hne : x.req.requestId ≠ req.requestId := by
        intro heq
        have := awaited_of_rest hi hi'
        rw [heq, hid] at this
        simp at this
      rw [hx, Executions.add, OrderedDict.lookup_put, if_neg hne, hlookup]
  each := by rw [hl]; exact ⟨trivial, h.each⟩

theorem LeaseKept.ne_of_lookup (h : LeaseKept w) {id' : String} {j : ℕ}
    (hi : w.executions.pending.lookup id = some i)
    (hj : w.executions.pending.lookup id' = some j) (hne : id' ≠ id) : i ≠ j := by
  rintro rfl
  obtain ⟨x, hx, hid, -⟩ := h.entry id i hi
  obtain ⟨y, hy, hid', -⟩ := h.entry id' i hj
  obtain rfl := Option.some.inj (hx.symm.trans hy)
  exact hne (hid'.symm.trans hid)

theorem LeaseKept.renewed (h : LeaseKept w) (hi : w.executions.pending.lookup id = some i)
    (hx : w'.executions = { w.executions with
      tasks := w.executions.tasks.modify i (Executions.renew lease) })
    (hl : w'.leases = .acked id lease :: w.leases)
    (hr : w'.leaseExtender = w.leaseExtender) : LeaseKept w' where
  entry id' j hj := by
    rw [hx] at hj ⊢
    obtain ⟨y, hy, hid, hlease⟩ := h.entry id' j hj
    refine ⟨_, get_modify _ hy, ?_, fun hn => ?_⟩
    · split <;> exact hid
    · by_cases heq : id' = id
      · subst heq
        obtain rfl : i = j := Option.some.inj (hi.symm.trans hj)
        rw [if_pos rfl] at hn ⊢
        rw [hl, currentLease, if_pos rfl, hlease hn]
        rfl
      · rw [if_neg (h.ne_of_lookup hi hj heq)] at hn ⊢
        rw [hl, currentLease, if_neg (Ne.symm heq), hlease hn]
  rest j hj := by
    rw [hr] at hj
    obtain ⟨y, hy, hn, hlookup⟩ := h.rest j hj
    rw [Holding, hx]
    refine ⟨_, get_modify _ hy, ?_, ?_⟩
    · split <;> exact hn
    · split <;> exact hlookup
  each := by rw [hl]; exact ⟨trivial, h.each⟩

theorem LeaseKept.nacked (h : LeaseKept w) (hid : w.awaited id = false)
    (hi : w.executions.pending.lookup id = some i)
    (hx : w'.executions = { w.executions with
      tasks := w.executions.tasks.modify i Executions.cancel })
    (hl : w'.leases = .nacked id :: w.leases)
    (hr : w'.leaseExtender = w.leaseExtender) : LeaseKept w' where
  entry id' j hj := by
    rw [hx] at hj ⊢
    obtain ⟨y, hy, hid', hlease⟩ := h.entry id' j hj
    refine ⟨_, get_modify _ hy, ?_, fun hn => ?_⟩
    · split <;> exact hid'
    · have hij : i ≠ j := by
        rintro rfl
        simp [Executions.cancel] at hn
      have hne : id' ≠ id := by
        rintro rfl
        exact hij (Option.some.inj (hi.symm.trans hj))
      rw [if_neg hij] at hn ⊢
      rw [hl, currentLease, if_neg (Ne.symm hne), hlease hn]
  rest j hj := by
    rw [hr] at hj
    obtain ⟨y, hy, hn, hlookup⟩ := h.rest j hj
    have hij : i ≠ j := by
      rintro rfl
      obtain ⟨x, hx, hreq, -⟩ := h.entry id i hi
      have := awaited_of_rest hj hx
      rw [hreq, hid] at this
      simp at this
    rw [Holding, hx]
    exact ⟨y, by rw [get_modify _ hy, if_neg hij], hn, hlookup⟩
  each := by rw [hl]; exact ⟨trivial, h.each⟩

theorem LeaseKept.message (h : LeaseKept w) {msg : GatewayMessage} {s : State}
    {x : ExecutionState} (hread : read e w = some msg) (hu : undisturbed cfg e w = true)
    (hx : ExecutionState.Handles cfg ⟨s, w.executions, w.buffer, w.leases, w.replies⟩ msg x)
    (hw : Shows w w' x) : LeaseKept w' := by
  have hrest : ∀ i ∈ w'.leaseExtender.rest, i ∈ w.leaseExtender.rest := by
    rw [hw.leaseExtender]
    exact fun _ hi => hi
  cases hx with
  | nothing | acked =>
    exact h.rests (.of_tasks (congrArg Executions.tasks hw.executions)
      (congrArg Executions.pending hw.executions) hw.leases hrest)
  | @accepted _ req ha =>
    have hid : w.awaited req.requestId = false := by
      obtain ⟨rfl, -⟩ := accepts_eq_some ha
      simpa [undisturbed, hread, show w.executions.accepts cfg _ = some req from ha] using hu
    exact h.accepted hid hw.executions hw.leases hw.leaseExtender
  | renewed hi hl hne => exact h.renewed hi hw.executions hw.leases hw.leaseExtender
  | @nacked data i hi hl =>
    have hid : w.awaited data.requestId = false := by simpa [undisturbed, hread, hl] using hu
    exact h.nacked hid hi hw.executions hw.leases hw.leaseExtender

/-! ## The end of an execution, and the extender -/

theorem LeaseKept.removed (h : LeaseKept w) {x : Execution}
    (hi : w.executions.tasks[i]? = some x) (hid : w.awaited x.req.requestId = false) :
    LeaseKept (w.executionDone i) := by
  cases hl : w.executions.pending.lookup x.req.requestId with
  | none =>
    have hdone : w.executionDone i =
        { w with executions := w.executions.setStage i .removed } := by
      simp [executionDone, ExecutionState.callback, hi, hl]
    rw [hdone]
    exact h.rests ⟨fun j y hy => setStage_get _ _ hy, rfl, rfl, fun _ hj => hj⟩
  | some k =>
    have hx : (w.executionDone i).executions =
        { w.executions.setStage i .removed with
          pending := w.executions.pending.erase x.req.requestId } := by
      simp [executionDone, ExecutionState.callback, hi, hl, Executions.setStage]
    have hleases : (w.executionDone i).leases = .removed x.req.requestId :: w.leases := by
      simp [executionDone, ExecutionState.callback, hi, hl]
    constructor
    · intro id j hj
      rw [hx] at hj ⊢
      simp only [OrderedDict.lookup_erase] at hj
      split at hj
      · simp at hj
      · rename_i hne
        obtain ⟨y, hy, hreq, hlease⟩ := h.entry id j hj
        obtain ⟨y', hy', hreq', hnack⟩ := setStage_get i .removed hy
        refine ⟨y', hy', hreq' ▸ hreq, fun hn => ?_⟩
        rw [hleases, currentLease, if_neg (Ne.symm hne), hreq']
        exact hlease (hnack ▸ hn)
    · intro j hj
      have hj : j ∈ w.leaseExtender.rest := hj
      obtain ⟨y, hy, hn, hlookup⟩ := h.rest j hj
      obtain ⟨y', hy', hreq, hnack⟩ := setStage_get i .removed hy
      have hne : y.req.requestId ≠ x.req.requestId := by
        intro heq
        have := awaited_of_rest hj hy
        rw [heq, hid] at this
        simp at this
      rw [Holding, hx]
      refine ⟨y', hy', hnack.trans hn, ?_⟩
      rw [hreq, OrderedDict.lookup_erase, if_neg hne, hlookup]
    · rw [hleases]
      exact ⟨trivial, h.each⟩

theorem values_lookup {d : OrderedDict String ℕ} (hi : i ∈ d.values) :
    ∃ id, d.lookup id = some i := by
  obtain ⟨e, he, rfl⟩ := List.mem_map.mp hi
  exact ⟨e.1, OrderedDict.lookup_eq_some.mpr he⟩

theorem LeaseKept.turn (h : LeaseKept w) (hu : undisturbed cfg e w = true)
    (hws : w.state.ws.value ≠ none) : ∀ i ∈ w.turn e, w.Holding i := by
  intro i hi
  unfold Worker.turn at hi
  split at hi
  · split at hi
    · rename_i hpc
      obtain ⟨id, hid⟩ := values_lookup hi
      obtain ⟨x, hx, hreq, -⟩ := h.entry id i hid
      refine ⟨x, hx, ?_, hreq ▸ hid⟩
      simp only [undisturbed, read, Bool.or_eq_true, Option.isNone_iff_eq_none, hws, false_or,
        Worker.turn, if_pos hpc, List.all_eq_true] at hu
      have := hu i hi
      simpa [hx] using this
    · simp at hi
  · exact h.rest i hi
  · simp at hi

theorem LeaseKept.extends (h : LeaseKept w) (hu : undisturbed cfg e w = true) {b : LeaseBlock}
    (hb : Extends e w b) : LeaseKept (w.runLeases b) := by
  cases hb with
  | idle hp hs =>
    have hleases : (w.runLeases b).leases = w.leases := by simp [runLeases, hs]
    exact h.rests (.of_tasks rfl rfl hleases (by simp [runLeases, hp]))
  | @next n i rest ht hws hp hs =>
    have hall := h.turn hu (by simp [hws])
    rw [ht] at hall
    obtain ⟨x, hx, hn, hlookup⟩ := hall i (.head _)
    have hleases : (w.runLeases b).leases = .extended x.req.extendLeaseData :: w.leases := by
      simp [runLeases, hs, hx]
    constructor
    · intro id j hj
      rw [hleases]
      exact h.entry id j hj
    · intro j hj
      have hrest : (w.runLeases b).leaseExtender.rest = rest := by
        change b.pc.rest = rest
        rw [hp]
        rfl
      rw [hrest] at hj
      exact hall j (.tail _ hj)
    · rw [hleases]
      refine ⟨?_, h.each⟩
      obtain ⟨y, hy, -, hlease⟩ := h.entry _ i hlookup
      obtain rfl := Option.some.inj (hx.symm.trans hy)
      exact hlease hn

theorem leaseKept_step (h : LeaseKept w) (hs : ExecutionStep cfg w e w')
    (hu : undisturbed cfg e w = true) : LeaseKept w' := by
  cases hs with
  | elsewhere hw =>
    apply h.rests
    apply Rests.of_tasks hw.tasks hw.pending hw.leases
    rw [hw.leaseExtender]
    exact fun _ hi => hi
  | message hr hx hw => exact h.message hr hu hx hw
  | execution he hx hb =>
    exact h.rests ⟨fun j y hy => setStage_get _ _ hy, rfl, rfl, fun _ hj => hj⟩
  | removed hx hf =>
    apply h.removed hx
    simpa [undisturbed, read, hx] using hu
  | leases hb => exact h.extends hu hb
  | flush he hb => exact h.rests (.of_tasks rfl rfl rfl fun _ hi => hi)
  | sequence hw =>
    apply h.rests
    apply Rests.of_tasks hw.tasks hw.pending hw.leases
    rcases hw.leaseExtender with heq | heq
    · rw [heq]
      exact fun _ hi => hi
    · simp [heq, LeasePc.rest]

/-! ## The messages sent -/

def Recorded (w : Worker) : Prop :=
  ∀ n data, .sent n (.extendLease data) ∈ w.wire → .extended data ∈ w.leases

theorem leases_grow (hs : ExecutionStep cfg w e w') : ∀ m ∈ w.leases, m ∈ w'.leases := by
  intro m hm
  cases hs with
  | elsewhere hw => rwa [hw.leases]
  | message hr hx hw =>
    rw [hw.leases]
    cases hx with
    | nothing | acked => exact hm
    | accepted ha => exact .tail _ hm
    | renewed hi hl hne => exact .tail _ hm
    | nacked hi hl => exact .tail _ hm
  | execution he hx hb => exact hm
  | removed hx hf =>
    unfold executionDone ExecutionState.callback
    rw [hx]
    dsimp only
    split
    · exact hm
    · exact .tail _ hm
  | leases hb => exact List.mem_append_right _ hm
  | flush he hb => exact hm
  | sequence hw => rwa [hw.leases]

theorem sent_handleMsg {n k : ℕ} {raw : RawMessage} {m : WorkerMessage}
    (h : .sent n m ∈ (w.handleMsg cfg k raw).wire) : .sent n m ∈ w.wire := by
  unfold handleMsg at h
  split at h
  · exact h
  · split at h
    · exact h
    · exact h
    · split at h
      · exact h
      · simp only [dispatch, List.mem_append, List.mem_cons, reduceCtorEq, false_or] at h
        rcases h with h | h
        · split at h <;> simp at h
        · exact h

theorem recorded_runLeases (h : Recorded w) (b : LeaseBlock) : Recorded (w.runLeases b) := by
  intro n data hm
  simp only [runLeases, sentMark, List.mem_append] at hm ⊢
  rcases hm with hm | hm
  · left
    simp only [List.mem_map, Option.mem_toList, Option.map_eq_some_iff] at hm ⊢
    obtain ⟨x, ⟨y, hy, rfl⟩, hx⟩ := hm
    simp only [WireMark.sent.injEq, WorkerMessage.extendLease.injEq] at hx
    exact ⟨y, hy, by rw [hx.2]⟩
  · exact .inr (h n data hm)

theorem recorded_step (h : Recorded w) (he : enabled e w = true) :
    Recorded (effect cfg e w) := by
  have hgrow := leases_grow (executionStep cfg he)
  intro n data hm
  by_cases hconn : e = .connected
  · subst hconn
    apply hgrow
    apply h n
    unfold effect at hm
    dsimp only at hm
    split at hm
    · simpa [connected] using hm
    · exact hm
  by_cases hmsg : ∃ raw, e = .message raw
  · obtain ⟨raw, rfl⟩ := hmsg
    apply hgrow
    apply h n
    unfold effect at hm
    dsimp only at hm
    split at hm
    · exact sent_handleMsg hm
    · exact hm
  cases wire_step cfg (w := w) hconn fun raw hr => hmsg ⟨raw, hr⟩ with
  | quiet hw => exact hgrow _ (h n data (hw ▸ hm))
  | sent k msg hws hs hw =>
    rw [hw] at hm
    rcases List.mem_cons.mp hm with heq | hold
    · obtain ⟨rfl, rfl⟩ := WireMark.sent.inj heq
      have hnew : Recorded (effect cfg e w) := by
        cases e <;> simp [Event.sends] at hs
        · exact recorded_runLeases h _
        · exact recorded_runLeases h _
      exact hnew n data (by rw [hw]; exact .head _)
    · exact hgrow _ (h n data hold)

end Worker

open Worker

/-- In an undisturbed run every lease extension that is sent is of the lease
that its request holds, and there is none for a request that holds none. -/
theorem lease_current {cfg : Config} {w : Worker}
    (h : (machine cfg).Reachable (fun e w => undisturbed cfg e w = true) w) :
    (∀ later past data, w.leases = later ++ .extended data :: past →
      currentLease data.requestId past = some data.leaseId) ∧
      ∀ n data, .sent n (.extendLease data) ∈ w.wire → .extended data ∈ w.leases := by
  have hk : LeaseKept w ∧ Recorded w := by
    apply h.invariant (P := fun w => LeaseKept w ∧ Recorded w)
    · exact ⟨leaseKept_initial, fun n data hm => by simp [machine, initial] at hm⟩
    · rintro e w - ⟨hk, hr⟩ he hu
      exact ⟨leaseKept_step hk (executionStep cfg he) hu, recorded_step hr he⟩
  exact ⟨fun later past data hw => hk.1.each.split hw, hk.2⟩

namespace Sample

def leaseAck (id : String) (lease : Option String) : Event :=
  message (.extendLeaseAck (.ok ⟨id, lease⟩))

def extending : List Event :=
  active ++ [.leaseExtender, requested "a" "1", requested "b" "2", .leaseExtender]

end Sample

theorem lease_current_renewed :
    ∃ w : Worker, ∃ past data, w.leases = .extended data :: past ∧ data.leaseId = "3" ∧
      currentLease "b" past = some "3" := by
  have hrun : ∃ w, (machine Sample.config).Reachable
      (fun e w => undisturbed Sample.config e w = true) w ∧
      w.leases.head? = some (.extended (Sample.request "b" "3").extendLeaseData) :=
    Machine.exists_reachable (Sample.extending ++ [Sample.leaseAck "b" (some "3"), .leaseSent .ok])
      (by decide)
  obtain ⟨w, hw, hhead⟩ := hrun
  obtain ⟨past, hpast⟩ := List.head?_eq_some_iff.mp hhead
  exact ⟨w, past, _, hpast, rfl, (lease_current hw).1 [] past _ hpast⟩

/-- While the first extension is being sent the second request's lease is
refused. It is in the snapshot, and is extended all the same. -/
theorem lease_extended_after_refusal :
    ∃ w, (machine Sample.config).Reachable Machine.Any w ∧
      w.leases.take 2 = [.extended (Sample.request "b" "2").extendLeaseData, .nacked "b"] ∧
      w.wire.head? = some (.sent 0 (.extendLease (Sample.request "b" "2").extendLeaseData)) :=
  Machine.exists_reachable (Sample.extending ++ [Sample.leaseAck "b" none, .leaseSent .ok])
    (by decide)

end Inngest.Connect
