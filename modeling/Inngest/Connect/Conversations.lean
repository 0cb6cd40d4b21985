import Inngest.Connect.Draining
import Inngest.Connect.ExecutionSteps
import Inngest.Connect.Steps

/-!
# What the gateway hears of a request

An execution says little: the acknowledgement, then the reply that the response
of the function makes, or an internal error where it makes none. The function is
called once the acknowledgement has been sent, and where that fails the reply is
of the failure. Whatever the other executions, the connections and the leases
do, nothing else is said, and nothing twice.
-/

set_option autoImplicit false

namespace Inngest.Connect
open Errors Transition

/-- What an execution does that can be seen: it begins to send a message, its
acknowledgement has been sent or not, it calls the function, and the function's
response comes. -/
inductive Act where
  | sent (n : ℕ) (msg : WorkerMessage)
  | settled (r : SendResult)
  | called
  | posted (r : Except PyError CommResponse)

def SendResult.error? : SendResult → Option PyError
  | .ok => none
  | .connectionClosed e | .failed e => some e

def answer? (cfg : Config) (req : GatewayExecutorRequestData) (r : Except PyError CommResponse) :
    Option Bytes :=
  payload? cfg req (some r) <|>
    (cfg.bodyBytes ExecuteRequest.internalError).toOption.map fun body =>
      cfg.serialize (ExecuteRequest.errorReply req body)

/-- The course of an execution, the newest first. The function is called when the
acknowledgement has been sent; when it could not be sent, the reply is of that
error. -/
inductive Conversation (cfg : Config) (req : GatewayExecutorRequestData) : List Act → Prop where
  | silent : Conversation cfg req []
  | acked (n : ℕ) : Conversation cfg req [.sent n (.requestAck req.ackData)]
  | refused (n : ℕ) (result : SendResult) (e : PyError) (h : result.error? = some e) :
    Conversation cfg req [.settled result, .sent n (.requestAck req.ackData)]
  | excused (n m : ℕ) (result : SendResult) (e : PyError) (payload : Bytes)
    (h : result.error? = some e)
    (hp : answer? cfg req (.ok (CommResponse.fromError e)) = some payload) :
    Conversation cfg req
      [.sent m (.reply payload), .settled result, .sent n (.requestAck req.ackData)]
  | called (n : ℕ) :
    Conversation cfg req [.called, .settled .ok, .sent n (.requestAck req.ackData)]
  | posted (n : ℕ) (r : Except PyError CommResponse) :
    Conversation cfg req [.posted r, .called, .settled .ok, .sent n (.requestAck req.ackData)]
  | replied (n m : ℕ) (r : Except PyError CommResponse) (payload : Bytes)
    (h : answer? cfg req r = some payload) :
    Conversation cfg req [.sent m (.reply payload), .posted r, .called, .settled .ok,
      .sent n (.requestAck req.ackData)]

def Stage.Speaks (cfg : Config) (req : GatewayExecutorRequestData) (acts : List Act) :
    Stage → Prop
  | .created | .waitingWs => acts = []
  | .acking n => acts = [.sent n (.requestAck req.ackData)]
  | .executing => ∃ n, acts = [.called, .settled .ok, .sent n (.requestAck req.ackData)]
  | _ => Conversation cfg req acts

section Speaks
variable {cfg : Config} {req : GatewayExecutorRequestData} {acts : List Act} {stage : Stage}

theorem Stage.Speaks.conversation (h : stage.Speaks cfg req acts) : Conversation cfg req acts := by
  cases stage with
  | created | waitingWs =>
    obtain rfl : acts = [] := h
    exact .silent
  | acking n =>
    obtain rfl : acts = _ := h
    exact .acked n
  | executing =>
    obtain ⟨n, rfl⟩ := h
    exact .called n
  | replying n | failing n | cancelling | finished | removed => exact h

theorem Conversation.speaks (h : Conversation cfg req acts) (hs : stage.early = false) :
    stage.Speaks cfg req acts := by
  cases stage with
  | created | waitingWs | acking n | executing => simp [Stage.early] at hs
  | replying n | failing n | cancelling | finished | removed => exact h

theorem Conversation.renew (h : Conversation cfg req acts) (lease : String) :
    Conversation cfg { req with leaseId := lease } acts := by
  cases h with
  | silent => exact .silent
  | acked n => exact .acked n
  | refused n result e h => exact .refused n result e h
  | excused n m result e payload h hp => exact .excused n m result e payload h hp
  | called n => exact .called n
  | posted n r => exact .posted n r
  | replied n m r payload h => exact .replied n m r payload h

theorem Stage.Speaks.renew (h : stage.Speaks cfg req acts) (lease : String) :
    stage.Speaks cfg { req with leaseId := lease } acts := by
  cases stage with
  | created | waitingWs | acking n | executing => exact h
  | replying n | failing n | cancelling | finished | removed => exact Conversation.renew h lease

end Speaks

/-! ## The blocks -/

def heard (stage : Stage) : Event → List Act
  | .executionSent _ r =>
    match stage with
    | .acking _ => [.settled r]
    | _ => []
  | .executionPosted _ r => [.posted r]
  | _ => []

/-- What a block does, the newest first. The function is called where the
execution comes to the stage that waits for its response. -/
def said (stage : Stage) (b : ExecutionBlock) : List Act :=
  (b.sent.toList.map fun m => .sent m.1 m.2) ++
    if b.stage = .executing ∧ stage ≠ .executing then [.called] else []

def acts (e : Event) (stage : Stage) (b : ExecutionBlock) : List Act :=
  said stage b ++ heard stage e

theorem said_late {stage : Stage} {b : ExecutionBlock} (h : b.stage.early = false) :
    said stage b = b.sent.toList.map fun m => .sent m.1 m.2 := by
  have hne : b.stage ≠ .executing := fun hs => by simp [hs, Stage.early] at h
  rw [said, if_neg (fun hs => hne hs.1), List.append_nil]

namespace ExecuteRequest
variable {cfg : Config} {i : ℕ} {req : GatewayExecutorRequestData} {now : ℚ} {s : State}
  {b : ReplyBuffer} {stage : Stage} {past : List Act}

structure Says (cfg : Config) (req : GatewayExecutorRequestData) (s : State)
    (r : Except PyError CommResponse) (block : ExecutionBlock) : Prop where
  late : block.stage.early = false
  sent : ∀ m ∈ block.sent, s.ws.value = some m.1 ∧
    ∃ payload, answer? cfg req r = some payload ∧ m.2 = .reply payload

theorem fail_says {r : Except PyError CommResponse} (hr : payload? cfg req (some r) = none) :
    Says cfg req s r (fail cfg i req s b) := by
  unfold fail
  split
  · exact ⟨rfl, by simp⟩
  · rename_i body hbody
    split
    · exact ⟨rfl, by simp⟩
    · refine ⟨rfl, ?_⟩
      rintro m ⟨⟩
      refine ⟨‹_›, _, ?_, rfl⟩
      rw [answer?, hr, hbody]
      rfl

theorem respond_says {res : CommResponse} :
    Says cfg req s (.ok res) (respond cfg i req now res s b) := by
  unfold respond
  split
  · rename_i e he
    exact fail_says (by simp [payload?, he, Except.toOption])
  · rename_i body hbody
    unfold reply
    dsimp only
    split
    · exact ⟨rfl, by simp⟩
    · refine ⟨rfl, ?_⟩
      rintro m ⟨⟩
      exact ⟨‹_›, _, by simp [answer?, payload?, hbody, Except.toOption], rfl⟩

theorem posted_says {r : Except PyError CommResponse} :
    Says cfg req s r (posted cfg i req now r s b) := by
  cases r with
  | error e => exact fail_says rfl
  | ok res => exact respond_says

theorem Says.mute {r : Except PyError CommResponse} {block : ExecutionBlock}
    (h : Says cfg req s r block) (hws : s.ws.value = none) : block.sent = none := by
  cases hsent : block.sent with
  | none => rfl
  | some m =>
    have hm := (h.sent m hsent).1
    rw [hws] at hm
    cases hm

theorem ack_speaks :
    (ack cfg i req now s b).stage.Speaks cfg req
      (acts (.execution i) stage (ack cfg i req now s b)) := by
  unfold ack
  split
  · have hsays : Says cfg req s (.ok (CommResponse.fromError noWebSocket))
        (respond cfg i req now (CommResponse.fromError noWebSocket) s b) := respond_says
    rw [acts, said_late hsays.late, hsays.mute ‹_›]
    exact Conversation.silent.speaks hsays.late
  · rfl

theorem resume_speaks (h : stage.Speaks cfg req past) :
    (resume cfg i req now stage s b).stage.Speaks cfg req
      (acts (.execution i) stage (resume cfg i req now stage s b) ++ past) := by
  cases stage with
  | created =>
    obtain rfl : past = [] := h
    rw [List.append_nil, resume]
    split
    · exact ack_speaks
    · rfl
  | waitingWs =>
    obtain rfl : past = [] := h
    rw [List.append_nil]
    exact ack_speaks
  | cancelling | acking n | executing | replying n | failing n | finished | removed => exact h

theorem refused_speaks {n : ℕ} {result : SendResult} {e : PyError}
    (hresult : result.error? = some e) :
    (respond cfg i req now (CommResponse.fromError e) s b).stage.Speaks cfg req
      (acts (.executionSent i result) (.acking n)
        (respond cfg i req now (CommResponse.fromError e) s b) ++
        [.sent n (.requestAck req.ackData)]) := by
  have hsays : Says cfg req s (.ok (CommResponse.fromError e))
      (respond cfg i req now (CommResponse.fromError e) s b) := respond_says
  apply Conversation.speaks _ hsays.late
  rw [acts, said_late hsays.late]
  cases hsent : (respond cfg i req now (CommResponse.fromError e) s b).sent with
  | none => exact .refused n result e hresult
  | some m =>
    obtain ⟨-, payload, hpayload, hm⟩ := hsays.sent m hsent
    change Conversation cfg req [.sent m.1 m.2, _, _]
    rw [hm]
    exact .excused n m.1 result e payload hresult hpayload

theorem settled_speaks {r : SendResult} (h : stage.Speaks cfg req past) :
    (settled cfg i req now stage r s b).stage.Speaks cfg req
      (acts (.executionSent i r) stage (settled cfg i req now stage r s b) ++ past) := by
  cases stage with
  | acking n =>
    obtain rfl : past = _ := h
    cases r with
    | ok => exact ⟨n, rfl⟩
    | connectionClosed e => exact refused_speaks rfl
    | failed e => exact refused_speaks rfl
  | created | waitingWs | executing | replying n | failing n | cancelling | finished | removed =>
    exact h.conversation

theorem posted_speaks {r : Except PyError CommResponse}
    (h : Stage.Speaks cfg req past .executing) :
    (posted cfg i req now r s b).stage.Speaks cfg req
      (acts (.executionPosted i r) .executing (posted cfg i req now r s b) ++ past) := by
  have hsays : Says cfg req s r (posted cfg i req now r s b) := posted_says
  obtain ⟨n, rfl⟩ := h
  apply Conversation.speaks _ hsays.late
  rw [acts, said_late hsays.late]
  cases hsent : (posted cfg i req now r s b).sent with
  | none => exact .posted n r
  | some m =>
    obtain ⟨-, payload, hpayload, hm⟩ := hsays.sent m hsent
    change Conversation cfg req [.sent m.1 m.2, _, _, _, _]
    rw [hm]
    exact .replied n m.1 r payload hpayload

end ExecuteRequest

/-! ## The worker, overheard -/

namespace Worker
variable (cfg : Config)

def block? (e : Event) (w : Worker) : Option (ℕ × Stage × ExecutionBlock) :=
  match e with
  | .execution i => w.executions.tasks[i]?.map fun x =>
    (i, x.stage, ExecuteRequest.resume cfg i x.req w.now x.stage w.state w.buffer)
  | .executionSent i r => w.executions.tasks[i]?.map fun x =>
    (i, x.stage, ExecuteRequest.settled cfg i x.req w.now x.stage r w.state w.buffer)
  | .executionPosted i r => w.executions.tasks[i]?.map fun x =>
    (i, x.stage, ExecuteRequest.posted cfg i x.req w.now r w.state w.buffer)
  | _ => none

def does (e : Event) (w : Worker) : List (ℕ × Act) :=
  match block? cfg e w with
  | some (i, stage, b) => (acts e stage b).map fun a => (i, a)
  | none => []

end Worker

/-- The worker, with somebody who notes what the executions do. -/
def overheard (cfg : Config) : Machine (Worker × List (ℕ × Act)) Event :=
  (machine cfg).observed [] fun e w noted => w.does cfg e ++ noted

def course (i : ℕ) (noted : List (ℕ × Act)) : List Act :=
  noted.filterMap fun a => if a.1 = i then some a.2 else none

theorem course_append (i : ℕ) (noted noted' : List (ℕ × Act)) :
    course i (noted ++ noted') = course i noted ++ course i noted' :=
  List.filterMap_append

theorem course_map (i j : ℕ) (l : List Act) :
    course i (l.map fun a => (j, a)) = if j = i then l else [] := by
  rw [course, List.filterMap_map]
  by_cases h : j = i
  · simp [h]
  · simp [h]

def GatewayExecutorRequestData.bare (req : GatewayExecutorRequestData) :
    GatewayExecutorRequestData :=
  { req with leaseId := "" }

def request? (cfg : Config) : WireMark → Option GatewayExecutorRequestData
  | .received _ (.executorRequest (.ok req)) =>
    if req.appName ∈ cfg.apps.map AppConfig.appId then some req.bare else none
  | _ => none

def saying? : WireMark → Option (ℕ × WorkerMessage)
  | .sent n (.requestAck data) => some (n, .requestAck data)
  | .sent n (.reply payload) => some (n, .reply payload)
  | _ => none

def sending? : ℕ × Act → Option (ℕ × WorkerMessage)
  | (_, .sent n msg) => some (n, msg)
  | _ => none

namespace Worker
variable {cfg : Config} {w w' : Worker} {e : Event} {noted : List (ℕ × Act)}

/-- Every execution has come as far as its stage says, and nothing else was said. -/
structure Overheard (cfg : Config) (w : Worker) (noted : List (ℕ × Act)) : Prop where
  speaks : ∀ (i : ℕ) (x : Execution), w.executions.tasks[i]? = some x →
    x.stage.Speaks cfg x.req (course i noted)
  fresh : ∀ i, w.executions.tasks.length ≤ i → course i noted = []
  requests : (w.executions.tasks.map fun x => x.req.bare).reverse.Sublist
    (w.wire.filterMap (request? cfg))
  sayings : w.wire.filterMap saying? = noted.filterMap sending?

theorem overheard_initial : Overheard cfg initial [] where
  speaks i x hx := by simp [initial, Executions.initial] at hx
  fresh i hi := rfl
  requests := .refl _
  sayings := rfl

/-! ### Steps of no execution -/

structure Elsewise (cfg : Config) (w w' : Worker) : Prop where
  requests : (w.wire.filterMap (request? cfg)).Sublist (w'.wire.filterMap (request? cfg))
  sayings : w'.wire.filterMap saying? = w.wire.filterMap saying?

theorem Overheard.same (h : Overheard cfg w noted) (hw : Elsewise cfg w w')
    (ht : w'.executions.tasks = w.executions.tasks) : Overheard cfg w' noted where
  speaks := by rw [ht]; exact h.speaks
  fresh := by rw [ht]; exact h.fresh
  requests := by rw [ht]; exact h.requests.trans hw.requests
  sayings := hw.sayings.trans h.sayings

theorem map_bare_modify {f : Execution → Execution} (hf : ∀ x, (f x).req.bare = x.req.bare)
    (l : List Execution) (i : ℕ) :
    ((l.modify i f).map fun x => x.req.bare) = l.map fun x => x.req.bare := by
  refine List.ext_getElem? fun j => ?_
  simp only [List.getElem?_map, List.getElem?_modify]
  cases l[j]? with
  | none => rfl
  | some x =>
    by_cases hij : i = j
    · simp [hij, hf]
    · simp [hij]

theorem Overheard.modified (h : Overheard cfg w noted) (hw : Elsewise cfg w w') {i : ℕ}
    {f : Execution → Execution} (hf : ∀ x, (f x).req.bare = x.req.bare)
    (hspeaks : ∀ x acts, w.executions.tasks[i]? = some x → x.stage.Speaks cfg x.req acts →
      (f x).stage.Speaks cfg (f x).req acts)
    (ht : w'.executions.tasks = w.executions.tasks.modify i f) : Overheard cfg w' noted where
  speaks j y hy := by
    rw [ht, List.getElem?_modify] at hy
    obtain ⟨x, hx, rfl⟩ := Option.map_eq_some_iff.mp hy
    by_cases hij : i = j
    · subst hij
      simpa using hspeaks x _ hx (h.speaks i x hx)
    · simpa [hij] using h.speaks j x hx
  fresh j hj := h.fresh j (by simpa [ht] using hj)
  requests := by
    rw [ht, map_bare_modify hf]
    exact h.requests.trans hw.requests
  sayings := hw.sayings.trans h.sayings

theorem Elsewise.of_wire (h : w'.wire = w.wire) : Elsewise cfg w w' :=
  ⟨by rw [h], by rw [h]⟩

theorem saying?_sends {n : ℕ} {msg : WorkerMessage} (hs : e.sends msg)
    (he : e.execution? = none) : saying? (.sent n msg) = none := by
  cases e <;> simp [Event.sends, Event.execution?] at hs he
  case closer | heartbeat => rw [hs]; rfl
  case sendData | leaseExtender | leaseSent =>
    obtain ⟨data, rfl⟩ := hs
    rfl

theorem WireStep.elsewise (h : WireStep w e w') (he : e.execution? = none) :
    Elsewise cfg w w' := by
  cases h with
  | quiet h => exact .of_wire h
  | sent n msg hws hs h =>
    refine ⟨?_, ?_⟩
    · rw [h, List.filterMap_cons_none rfl]
    · rw [h, List.filterMap_cons_none (saying?_sends hs he)]

theorem dispatch_requests (n : ℕ) (msg : GatewayMessage) (init : ConnInit) (connId : String) :
    (w.dispatch cfg n msg init connId).wire.filterMap (request? cfg) =
      (request? cfg (.received n msg)).toList ++ w.wire.filterMap (request? cfg) := by
  have hcons : (WireMark.received n msg :: w.wire).filterMap (request? cfg) =
      (request? cfg (.received n msg)).toList ++ w.wire.filterMap (request? cfg) := by
    rw [List.filterMap_cons]
    cases request? cfg (.received n msg) <;> rfl
  unfold dispatch
  dsimp only
  split <;> exact hcons

theorem dispatch_sayings (n : ℕ) (msg : GatewayMessage) (init : ConnInit) (connId : String) :
    (w.dispatch cfg n msg init connId).wire.filterMap saying? = w.wire.filterMap saying? := by
  unfold dispatch
  dsimp only
  split <;> rfl

variable (cfg) in
theorem message_elsewise (raw : RawMessage) : Elsewise cfg w (effect cfg (.message raw) w) := by
  unfold effect
  dsimp only
  split
  · rename_i n _
    unfold handleMsg
    split
    · exact .of_wire rfl
    · split
      · exact .of_wire rfl
      · exact .of_wire rfl
      · split
        · exact .of_wire rfl
        · refine ⟨?_, dispatch_sayings _ _ _ _⟩
          rw [dispatch_requests]
          exact List.sublist_append_right _ _
  · exact .of_wire rfl

variable (cfg) in
theorem message_requests {raw : RawMessage} {msg : GatewayMessage}
    (hreader : w.reader.isSome = true) (h : read (.message raw) w = some msg) :
    ∃ n, (effect cfg (.message raw) w).wire.filterMap (request? cfg) =
      (request? cfg (.received n msg)).toList ++ w.wire.filterMap (request? cfg) := by
  obtain ⟨n, hn⟩ := Option.isSome_iff_exists.mp hreader
  unfold read at h
  split at h
  · split at h
    · rename_i hsome
      rw [Bool.and_eq_true, Option.isSome_iff_exists, Option.isSome_iff_exists] at hsome
      obtain ⟨⟨init, hinit⟩, connId, hconnId⟩ := hsome
      obtain rfl := Option.some.inj h
      refine ⟨n, ?_⟩
      rename_i heq
      cases heq
      simp only [effect, hn, handleMsg, hinit, hconnId]
      exact dispatch_requests n _ init connId
    · cases h
  · cases h

theorem request?_accepts {x : Executions} {msg : GatewayMessage} {req : GatewayExecutorRequestData}
    (h : x.accepts cfg msg = some req) (n : ℕ) :
    request? cfg (.received n msg) = some req.bare := by
  unfold Executions.accepts at h
  split at h
  · split at h
    · cases h
    · split at h
      · rename_i happ
        obtain rfl := Option.some.inj h
        exact if_pos happ
      · cases h
  · cases h

theorem Overheard.accepted (h : Overheard cfg w noted) (hw : Elsewise cfg w w')
    {req : GatewayExecutorRequestData}
    (hreq : w'.wire.filterMap (request? cfg) = req.bare :: w.wire.filterMap (request? cfg))
    (ht : w'.executions.tasks = w.executions.tasks ++ [⟨req, .created, false⟩]) :
    Overheard cfg w' noted where
  speaks i x hx := by
    rw [ht, List.getElem?_append] at hx
    split at hx
    · exact h.speaks i x hx
    · rename_i hlt
      have hi := h.fresh i (Nat.le_of_not_lt hlt)
      obtain rfl : x = ⟨req, .created, false⟩ := by
        simpa [eq_comm] using (List.mem_of_getElem? hx)
      exact hi
  fresh i hi := h.fresh i (by simp [ht] at hi; omega)
  requests := by
    rw [hreq, ht, List.map_append, List.reverse_append]
    exact h.requests.cons_cons _
  sayings := hw.sayings.trans h.sayings

theorem speaks_cancel {x : Execution} {acts : List Act} (h : x.stage.Speaks cfg x.req acts) :
    (Executions.cancel x).stage.Speaks cfg (Executions.cancel x).req acts := by
  rw [Executions.cancel]
  split
  · exact h
  · exact h.conversation

theorem Overheard.elsewhere (h : Overheard cfg w noted) (he : enabled e w = true)
    (hnone : e.execution? = none) : Overheard cfg (effect cfg e w) noted := by
  have hw : Elsewise cfg w (effect cfg e w) := by
    by_cases hm : ∃ raw, e = .message raw
    · obtain ⟨raw, rfl⟩ := hm
      exact message_elsewise cfg raw
    · by_cases hc : e = .connected
      · subst hc
        unfold effect
        dsimp only
        split
        · exact ⟨.refl _, rfl⟩
        · exact .of_wire rfl
      · exact (wire_step cfg hc fun raw hraw => hm ⟨raw, hraw⟩).elsewise hnone
  have hstep := executionStep cfg he
  generalize hw' : effect cfg e w = w' at hstep hw ⊢
  cases hstep with
  | elsewhere helse => exact h.same hw helse.tasks
  | @message _ _ msg s x hr hx hshows =>
    obtain ⟨raw, rfl⟩ : ∃ raw, e = .message raw := by
      cases e <;> simp [read] at hr ⊢
    have hreader : w.reader.isSome = true := by
      simp only [enabled, Bool.and_eq_true] at he
      exact he.1
    have htasks := congrArg Executions.tasks hshows.executions
    cases hx with
    | nothing => exact h.same hw htasks
    | @accepted _ req ha =>
      obtain ⟨n, hn⟩ := message_requests cfg hreader hr
      rw [hw', request?_accepts ha n] at hn
      exact h.accepted hw hn htasks
    | @renewed data i lease hi hl hne =>
      exact h.modified (f := Executions.renew lease) hw (fun x => rfl)
        (fun x acts _ hx => hx.renew lease) htasks
    | nacked hi hl =>
      exact h.modified (f := Executions.cancel) hw (fun x => rfl)
        (fun x acts _ hx => speaks_cancel hx) htasks
    | acked => exact h.same hw htasks
  | execution he' hx hb => simp [he'] at hnone
  | @removed i x hx hf =>
    have hdone := (executionDone_tasks hx).1
    refine h.modified (f := fun x => { x with stage := .removed }) hw (fun _ => rfl) ?_ hdone
    exact fun x acts _ hx => hx.conversation
  | leases hb => exact h.same hw rfl
  | flush he' hb => exact h.same hw rfl
  | sequence hcloses => exact h.same hw hcloses.tasks

/-! ### The steps of the executions -/

theorem does_none (h : e.execution? = none) : w.does cfg e = [] := by
  cases e <;> first | rfl | cases h

theorem Overheard.runs (h : Overheard cfg w noted) {i : ℕ} {x : Execution} {b : ExecutionBlock}
    {spoken : List Act} (hx : w.executions.tasks[i]? = some x)
    (hspeaks : b.stage.Speaks cfg x.req (spoken ++ course i noted))
    (hsaid : (sentMark b.sent).filterMap saying? =
      (spoken.map fun a => (i, a)).filterMap sending?) :
    Overheard cfg (w.runExecution i b) ((spoken.map fun a => (i, a)) ++ noted) where
  speaks j y hy := by
    change (w.executions.tasks.modify i _)[j]? = some y at hy
    rw [course_append, course_map]
    by_cases hij : i = j
    · subst hij
      rw [get_modify _ hx, if_pos rfl] at hy
      obtain rfl := Option.some.inj hy
      rw [if_pos rfl]
      exact hspeaks
    · have hj : w.executions.tasks[j]? = some y := by
        simpa [List.getElem?_modify, hij] using hy
      rw [if_neg hij]
      exact h.speaks j y hj
  fresh j hj := by
    have hlength : w.executions.tasks.length ≤ j := by
      simpa [runExecution, Executions.setStage] using hj
    have hlt := (List.getElem?_eq_some_iff.mp hx).1
    rw [course_append, course_map, if_neg (by omega)]
    exact h.fresh j hlength
  requests := by
    have htasks : ((w.runExecution i b).executions.tasks.map fun x => x.req.bare) =
        w.executions.tasks.map fun x => x.req.bare :=
      map_bare_modify (f := fun x => { x with stage := b.stage }) (fun _ => rfl) _ i
    rw [htasks]
    change List.Sublist _ ((sentMark b.sent ++ w.wire).filterMap (request? cfg))
    rw [List.filterMap_append]
    exact h.requests.trans (List.sublist_append_right _ _)
  sayings := by
    change (sentMark b.sent ++ w.wire).filterMap saying? = _
    rw [List.filterMap_append, List.filterMap_append, hsaid, h.sayings]

theorem sendings_acts {i : ℕ} {b : ExecutionBlock} {s : State} {p : WorkerMessage → Prop}
    (e : Event) (stage : Stage) (h : SentOn s p b.sent)
    (hp : ∀ msg, p msg → (∃ data, msg = .requestAck data) ∨ ∃ payload, msg = .reply payload) :
    (sentMark b.sent).filterMap saying? =
      ((acts e stage b).map fun a => (i, a)).filterMap sending? := by
  have hheard : ((heard stage e).map fun a => (i, a)).filterMap sending? = [] := by
    unfold heard
    split
    · split <;> rfl
    · rfl
    · rfl
  have hcalled : ((if b.stage = .executing ∧ stage ≠ .executing then [Act.called] else []).map
      fun a => (i, a)).filterMap sending? = [] := by
    split <;> rfl
  rw [acts, said, List.map_append, List.map_append, List.filterMap_append, List.filterMap_append,
    hheard, hcalled, List.append_nil, List.append_nil]
  cases hsent : b.sent with
  | none => rfl
  | some m =>
    rcases hp m.2 (h m hsent).2 with ⟨data, hm⟩ | ⟨payload, hm⟩
    · simp [sentMark, saying?, sending?, hm]
    · simp [sentMark, saying?, sending?, hm]

theorem Overheard.execution (h : Overheard cfg w noted) (he : enabled e w = true) {i : ℕ}
    (hsome : e.execution? = some i) :
    Overheard cfg (effect cfg e w) (w.does cfg e ++ noted) := by
  have hready : w.ready e = true := by
    simp only [enabled, Bool.and_eq_true] at he
    exact he.1
  cases hx : w.executions.tasks[i]? with
  | none =>
    cases e with
    | execution j | executionSent j r | executionPosted j r =>
      obtain rfl : j = i := Option.some.inj hsome
      simpa [effect, onExecution, does, block?, hx] using h
    | _ => cases hsome
  | some x =>
    have hpast := h.speaks i x hx
    cases e with
    | execution j =>
      obtain rfl : j = i := Option.some.inj hsome
      simp only [effect, onExecution, does, block?, hx, Option.map_some]
      exact h.runs hx (ExecuteRequest.resume_speaks hpast)
        (sendings_acts _ _ ExecuteRequest.resume_sent fun _ => id)
    | executionSent j r =>
      obtain rfl : j = i := Option.some.inj hsome
      simp only [effect, onExecution, does, block?, hx, Option.map_some]
      exact h.runs hx (ExecuteRequest.settled_speaks hpast)
        (sendings_acts _ _ ExecuteRequest.settled_sent fun _ => id)
    | executionPosted j r =>
      obtain rfl : j = i := Option.some.inj hsome
      have hs : x.stage = .executing := by simpa [ready, stage?_eq hx] using hready
      rw [hs] at hpast
      simp only [effect, onExecution, does, block?, hx, Option.map_some, hs]
      exact h.runs hx (ExecuteRequest.posted_speaks hpast)
        (sendings_acts _ _ ExecuteRequest.posted_sent fun _ => id)
    | _ => cases hsome

theorem overheard_step (h : Overheard cfg w noted) (he : enabled e w = true) :
    Overheard cfg (effect cfg e w) (w.does cfg e ++ noted) := by
  cases hi : e.execution? with
  | none =>
    rw [does_none hi]
    exact h.elsewhere he hi
  | some i => exact h.execution he hi

end Worker

open Worker

/-- The executions are of requests that have come, one for each at most. What
they have done is a conversation about the request, and there is no other
acknowledgement or reply on the wire. -/
structure Answered (cfg : Config) (w : Worker) (noted : List (ℕ × Act)) : Prop where
  requests : (w.executions.tasks.map fun x => x.req.bare).reverse.Sublist
    (w.wire.filterMap (request? cfg))
  conversations : ∀ (i : ℕ) (x : Execution), w.executions.tasks[i]? = some x →
    Conversation cfg x.req (course i noted)
  fresh : ∀ i, w.executions.tasks.length ≤ i → course i noted = []
  sayings : w.wire.filterMap saying? = noted.filterMap sending?

/-- In every run the requests are answered as they should be. -/
theorem requests_answered {cfg : Config} {w : Worker} {noted : List (ℕ × Act)}
    (h : (overheard cfg).Reachable Machine.Any (w, noted)) : Answered cfg w noted := by
  have hk : Overheard cfg w noted :=
    h.invariant (P := fun s => Overheard cfg s.1 s.2) overheard_initial
      fun e s _ hs (he : enabled e s.1 = true) _ => overheard_step hs he
  exact ⟨hk.requests, fun i x hx => (hk.speaks i x hx).conversation, hk.fresh, hk.sayings⟩

instance (cfg : Config) (e : Event) (s : Worker × List (ℕ × Act)) :
    Decidable ((overheard cfg).enabled e s) :=
  inferInstanceAs (Decidable (Worker.enabled e s.1 = true))

theorem requests_answered_executed :
    ∃ w noted, Answered Sample.config w noted ∧ (noted.filterMap sending?).length = 4 := by
  have hrun : ∃ s : Worker × List (ℕ × Act), (overheard Sample.config).Reachable Machine.Any s ∧
      (s.2.filterMap sending?).length = 4 :=
    Machine.exists_reachable (Sample.active ++ [Sample.requested "a" "1", Sample.requested "b" "2",
      .execution 0, .executionSent 0 .ok] ++ Sample.executed 1 ++
      [.executionPosted 0 (.ok ⟨.null, ∅, 206⟩)]) (by decide)
  obtain ⟨⟨w, noted⟩, hs, hlength⟩ := hrun
  exact ⟨w, noted, requests_answered hs, hlength⟩

end Inngest.Connect
