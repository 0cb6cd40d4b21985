import Mathlib.Data.List.FinRange
import Inngest.CommHandler
import Inngest.Connect.Worker
import Inngest.Follows

/-!
# A Connect execution and the HTTP request it stands for

`_execute_request` posts the payload to a `CommHandler` of its own, with the
function and the step as query parameters. The protocol's `step_id` is optional
and reads as an empty text when there is none. As a query parameter that text
names a step, and every other step is skipped.
-/

set_option autoImplicit false

namespace Inngest.Connect.HttpExecution
open ServerLib Errors StepLib Effect Engine Python

/-! ## Requests and responses -/

def commRequest (req : GatewayExecutorRequestData) : CommRequest where
  body := req.requestPayload
  headers := []
  isConnect := true
  publicPath := none
  queryParams := AList.insert "stepId" (.one (req.stepId.getD ""))
    (AList.singleton "fnId" (.one req.functionSlug))
  requestUrl := ""
  serveOrigin := none
  servePath := none
  timing := ""
  streamTiming := ""

def queryParams (req : GatewayExecutorRequestData) : Dict QueryValue :=
  req.stepId.elim (AList.singleton "fnId" (.one req.functionSlug)) fun stepId =>
    AList.insert "stepId" (.one stepId) (AList.singleton "fnId" (.one req.functionSlug))

structure CallResponse where
  status : SDKResponseStatus
  noRetry : Bool
  retryAfter : Option String
  body : Bytes
  deriving DecidableEq

def CallResponse.ofSdk (res : SDKResponse) : CallResponse :=
  ⟨res.status, res.noRetry, res.retryAfter, res.body⟩

section
variable {σ : Type} (runtime : Runtime σ) (cfg : Config) (handler : AppHandler σ)

def connectHandler : AppHandler σ :=
  { handler with
    framework := .connect
    streaming := .disable }

def execute (req : GatewayExecutorRequestData) (ack : Except PyError Unit) :
    Raising SDKResponse := do
  let res ← match ack with
    | .ok () => (connectHandler handler).post runtime (commRequest req) |>.map Served.toCommResponse
    | .error e => .ok (CommResponse.fromError e)
  let body ← Transforms.dumpJson runtime.toolbox res.body
  .ok (ExecuteRequest.sdkResponse cfg req res (encode body))

def readWrapped : Json → Option CallResponse
  | .obj [("body", .str body), ("headers", .obj headers), ("status", .int status)] =>
    some
      { status := if status = 200 then .done else if status = 206 then .notCompleted else .error
        noRetry := Json.field headers "x-inngest-no-retry" = some (.str "true")
        retryAfter := (Json.field headers "retry-after").bind fun
          | .str after => some after
          | _ => none
        body := encode body }
  | _ => none

def ofResponse (res : CommResponse) (body : String) : CallResponse where
  status := ExecuteRequest.status res
  noRetry := res.headers.lookup "x-inngest-no-retry" = some "true"
  retryAfter := res.headers.lookup "retry-after"
  body := encode body

def callResponse (served : Served) : Option CallResponse :=
  match served.stream with
  | none =>
    let (res, body) := served.toCommResponse.dumped runtime.toolbox
    some (ofResponse res body)
  | some chunks =>
    match chunks [true] with
    | [.json object] => readWrapped object
    | _ => none

/-- An HTTP request for the same function and step with the same payload, which
the handler takes to be genuine. -/
structure Corresponds (req : GatewayExecutorRequestData) (http : CommRequest) : Prop where
  body : http.body = req.requestPayload
  queryParams : http.queryParams = queryParams req
  accepted : ∃ key, handler.requestSigningKey runtime http = .ok (.ok key)

/-- The execution's response is that of the HTTP request. -/
def Agrees (req : GatewayExecutorRequestData) (ack : Except PyError Unit) (http : CommRequest) :
    Prop :=
  (execute runtime cfg handler req ack).map (fun res => some (CallResponse.ofSdk res)) =
    (handler.post runtime http).map (callResponse runtime)

instance (req : GatewayExecutorRequestData) (ack : Except PyError Unit) (http : CommRequest) :
    Decidable (Agrees runtime cfg handler req ack http) :=
  inferInstanceAs (Decidable (_ = _))

end

/-! ## Responses of a call -/

section Responses
variable {σ : Type} {runtime : Runtime σ} {handler : AppHandler σ} {res : CommResponse}
  {exchange : Exchange} {call : Call σ}

def Silent (headers : Dict String) : Prop :=
  headers.lookup "x-inngest-no-retry" = none ∧ headers.lookup "retry-after" = none

theorem createHeaders_silent (tools : Toolbox) (handler : CommHandler) (kind : Option ServerKind) :
    Silent (handler.createHeaders tools kind) :=
  ⟨Net.lookup_createHeaders _ _ _ _ .noRetry, Net.lookup_createHeaders _ _ _ _ .retryAfter⟩

theorem ofResponse_wrapHandler (tools : Toolbox) (handler : CommHandler) (body : String) :
    ofResponse (handler.wrapHandler tools exchange res) body = ofResponse res body := by
  obtain ⟨-, hstatus, hheaders⟩ := handler.wrapHandler_spec tools exchange res
  have hsilent := createHeaders_silent tools handler (some handler.mode)
  simp only [ofResponse, ExecuteRequest.status, hstatus,
    hheaders "x-inngest-no-retry" (by decide) (by decide), hsilent.1,
    hheaders "retry-after" (by decide) (by decide), hsilent.2, Option.none_or]

theorem lookup_retries {headers : Dict String} (h : Silent headers) (set : Bool)
    (after : Option String) :
    let extended := after.elim (CommResponse.withNoRetry set headers)
      ((CommResponse.withNoRetry set headers).insert "retry-after" ·)
    extended.lookup "x-inngest-no-retry" = (if set then some "true" else none) ∧
      extended.lookup "retry-after" = after := by
  have hset : (CommResponse.withNoRetry set headers).lookup "x-inngest-no-retry" =
        (if set then some "true" else none) ∧
      (CommResponse.withNoRetry set headers).lookup "retry-after" = none := by
    cases set with
    | false => exact h
    | true => exact ⟨AList.lookup_insert _, (AList.lookup_insert_ne (by decide)).trans h.2⟩
  cases after with
  | none => exact hset
  | some value => exact ⟨(AList.lookup_insert_ne (by decide)).trans hset.1, AList.lookup_insert _⟩

theorem fromCallResult_headers {headers headers' : Dict String} (h : Silent headers)
    (h' : Silent headers') (result : CallResult) :
    (CommResponse.fromCallResult headers result).body =
        (CommResponse.fromCallResult headers' result).body ∧
      ∀ body, ofResponse (CommResponse.fromCallResult headers result) body =
        ofResponse (CommResponse.fromCallResult headers' result) body := by
  have hset := fun set after => lookup_retries h set after
  have hset' := fun set after => lookup_retries h' set after
  have hsingle : ∀ item : CallItem, ∀ x status,
      let make (headers : Dict String) : CommResponse := ⟨x,
        (CommResponse.retryAfter item).elim
          (CommResponse.withNoRetry (CommResponse.noRetry item) headers)
          ((CommResponse.withNoRetry (CommResponse.noRetry item) headers).insert "retry-after" ·),
        status⟩
      ∀ body, ofResponse (make headers) body = ofResponse (make headers') body :=
      fun item x _ _ => by
    simp only [ofResponse, ExecuteRequest.status, hset, hset']
  rcases hm : result.multi with - | - | ⟨item, items⟩
  · cases hp : CommResponse.prepCallResult result.toCallItem with
    | error e => simp only [CommResponse.fromCallResult, hm, hp, implies_true, and_self]
    | ok x => simpa only [CommResponse.fromCallResult, hm, hp, true_and] using hsingle _ _ _
  · cases hp : CommResponse.prepCallResult result.toCallItem with
    | error e => simp only [CommResponse.fromCallResult, hm, hp, implies_true, and_self]
    | ok x => simpa only [CommResponse.fromCallResult, hm, hp, true_and] using hsingle _ _ _
  · cases hp : (item :: items).mapM CommResponse.prepCallResult with
    | error e => simp only [CommResponse.fromCallResult, hm, hp, implies_true, and_self]
    | ok x =>
      simp only [CommResponse.fromCallResult, hm, hp, true_and, ofResponse, ExecuteRequest.status]
      intro body
      have hn := hset ((item :: items).any CommResponse.noRetry) none
      have hn' := hset' ((item :: items).any CommResponse.noRetry) none
      simp only [Option.elim_none] at hn hn'
      rw [hn.1, hn.2, hn'.1, hn'.2]

theorem readWrapped_wrapped (res : CommResponse) (timing body : String) :
    readWrapped ((res.withHeader .serverTiming timing).wrapped body) =
      some (ofResponse res body) := by
  have hlookup : ∀ name, name ≠ HeaderKey.serverTiming.value →
      Json.field ((res.headers.insert HeaderKey.serverTiming.value timing).entries.map
        fun entry => (entry.1, Json.str entry.2)) name = (res.headers.lookup name).map .str :=
    fun name h => by rw [CommResponse.field_headers, AList.lookup_insert_ne h]
  have hstatus : (if (res.statusCode : ℤ) = 200 then SDKResponseStatus.done
      else if (res.statusCode : ℤ) = 206 then .notCompleted else .error) =
      ExecuteRequest.status res := by
    have h200 : (res.statusCode : ℤ) = 200 ↔ res.statusCode = 200 := by omega
    have h206 : (res.statusCode : ℤ) = 206 ↔ res.statusCode = 206 := by omega
    simp only [ExecuteRequest.status, h200, h206]
  simp only [CommResponse.withHeader, CommResponse.wrapped, readWrapped,
    hlookup "x-inngest-no-retry" (by decide), hlookup "retry-after" (by decide), hstatus,
    ofResponse]
  cases res.headers.lookup "x-inngest-no-retry" <;> cases res.headers.lookup "retry-after" <;> simp

def ofResult (runtime : Runtime σ) (result : CallResult) : CallResponse :=
  let res := CommResponse.fromCallResult ∅ result
  ofResponse res (runtime.text res.body)

theorem silent_empty : Silent ∅ := ⟨rfl, rfl⟩

theorem fromCallResult_serializable (headers : Dict String) (result : CallResult) :
    (CommResponse.fromCallResult headers result).body.serializable = true := by
  cases h : CommResponse.prepares result with
  | true => exact (CommResponse.fromCallResult_prepares _ h).1
  | false =>
    obtain ⟨e, he⟩ := CommResponse.fromCallResult_refused headers h
    rw [he]
    exact CommResponse.fromError_serializable e

structure Says (runtime : Runtime σ) (res : CommResponse) (said : CallResponse) : Prop where
  serializable : res.body.serializable = true
  said : ofResponse res (runtime.text res.body) = said

theorem says_fromCallResult {headers : Dict String} (h : Silent headers) (result : CallResult) :
    Says runtime (CommResponse.fromCallResult headers result) (ofResult runtime result) := by
  obtain ⟨hbody, hsame⟩ := fromCallResult_headers h silent_empty result
  refine ⟨fromCallResult_serializable headers result, ?_⟩
  rw [hbody, hsame]
  rfl

theorem says_fromError (e : PyError) :
    Says runtime (CommResponse.fromError e)
      (ofResponse (CommResponse.fromError e) (runtime.text (CommResponse.fromError e).body)) :=
  ⟨CommResponse.fromError_serializable e, rfl⟩

theorem Says.wrapHandler {said : CallResponse} (h : Says runtime res said)
    (exchange : Exchange) (handler : CommHandler) :
    Says runtime (handler.wrapHandler runtime.toolbox exchange res) said := by
  obtain ⟨hbody, -⟩ := handler.wrapHandler_spec runtime.toolbox exchange res
  refine ⟨by rw [hbody]; exact h.serializable, ?_⟩
  rw [ofResponse_wrapHandler, hbody]
  exact h.said

theorem Says.callResponse_plain {said : CallResponse} (h : Says runtime res said) :
    callResponse runtime res.plain = some said := by
  have hdump : res.dumped runtime.toolbox = (res, runtime.text res.body) :=
    CommResponse.dumped_serializable h.serializable
  simp only [callResponse, CommResponse.plain, hdump, h.said]

theorem Says.callResponse_stream {said : CallResponse} (h : Says runtime res said)
    (outer : CommResponse) (timing : String) :
    callResponse runtime ⟨outer, some (res.stream runtime.toolbox timing)⟩ = some said := by
  have hdump : res.dumped runtime.toolbox = (res, runtime.text res.body) :=
    CommResponse.dumped_serializable h.serializable
  simp only [callResponse, CommResponse.stream, hdump, readWrapped_wrapped, h.said]

def flavor (call : Call σ) : Flavor := if call.fn.opts.isAsync then .async else .sync

def wrapAnswer (runtime : Runtime σ) (handler : AppHandler σ) (exchange : Exchange)
    (served : Served) : Served :=
  { served with
    toCommResponse := handler.wrapHandler runtime.toolbox exchange served.toCommResponse }

theorem answer_says (runtime : Runtime σ) (handler : AppHandler σ) (exchange : Exchange)
    (call : Call σ) :
    (∃ e, call.result runtime handler (flavor call) = .error e ∧
      handler.answer runtime exchange call = .error e) ∨
    ∃ result served, call.result runtime handler (flavor call) = .ok result ∧
      handler.answer runtime exchange call = .ok served ∧
      callResponse runtime (wrapAnswer runtime handler exchange served) =
        some (ofResult runtime result) ∧
      (handler.streaming = .disable →
        Says runtime (wrapAnswer runtime handler exchange served).toCommResponse
          (ofResult runtime result)) := by
  have htext : ∀ result, Says runtime (CommResponse.fromCallResult
      (handler.createHeaders runtime.toolbox exchange.serverKind) result)
      (ofResult runtime result) := fun result => says_fromCallResult
    (createHeaders_silent runtime.toolbox handler.toCommHandler exchange.serverKind) result
  rw [AppHandler.answer, flavor]
  cases hasync : call.fn.opts.isAsync with
  | true =>
    simp only [if_true]
    cases hresult : call.result runtime handler .async with
    | error e => exact .inl ⟨e, rfl, rfl⟩
    | ok result =>
      refine .inr ⟨result, _, rfl, rfl, ?_⟩
      rw [CommHandler.post]
      cases hstreaming : handler.streaming with
      | force => exact ⟨(htext result).callResponse_stream _ _, nofun⟩
      | disable =>
        have hwrapped := (htext result).wrapHandler exchange handler.toCommHandler
        exact ⟨hwrapped.callResponse_plain, fun _ => hwrapped⟩
  | false =>
    simp only [Bool.false_eq_true, if_false]
    cases hresult : call.result runtime handler .sync with
    | error e => exact .inl ⟨e, rfl, rfl⟩
    | ok result =>
      have hwrapped := (htext result).wrapHandler exchange handler.toCommHandler
      exact .inr ⟨result, _, rfl, rfl, hwrapped.callResponse_plain, fun _ => hwrapped⟩

end Responses

/-! ## The plans of both requests -/

section Plans
variable {σ : Type} {runtime : Runtime σ}

theorem plan_both (handler : AppHandler σ) {first second : CommRequest} {params : QueryParams}
    {stepId : Option String}
    (hfirst : parseQueryParams first.queryParams = .ok (.ok params))
    (hsecond : parseQueryParams second.queryParams = .ok (.ok { params with stepId := stepId }))
    (hprobe : params.probe = false) (hbody : second.body = first.body) :
    (∃ e, handler.plan runtime first = .error e ∧ handler.plan runtime second = .error e) ∨
    (∃ e, handler.plan runtime first = .ok (.respond (.error e)) ∧
      handler.plan runtime second = .ok (.respond (.error e))) ∨
    ∃ call, handler.plan runtime first = .ok (.call call) ∧ call.stepId = params.stepId ∧
      handler.plan runtime second = .ok (.call { call with stepId := stepId }) := by
  simp only [AppHandler.plan, AppHandler.planWith, hfirst, hsecond, hprobe, hbody, bind,
    Except.bind, Bool.false_eq_true, if_false]
  split
  · exact .inr (.inl ⟨_, rfl, rfl⟩)
  · exact .inr (.inl ⟨_, rfl, rfl⟩)
  · split
    · exact .inr (.inl ⟨_, rfl, rfl⟩)
    · cases AppHandler.fetch runtime _ with
      | error e => exact .inl ⟨e, rfl, rfl⟩
      | ok fetched =>
        rcases fetched with e | ⟨- | events, steps⟩
        · exact .inr (.inl ⟨_, rfl, rfl⟩)
        · exact .inr (.inl ⟨_, rfl, rfl⟩)
        · exact .inr (.inr ⟨_, rfl, rfl, rfl⟩)

variable (req : GatewayExecutorRequestData)

theorem parse_http : parseQueryParams (queryParams req) =
    .ok (.ok ⟨some req.functionSlug, false, req.stepId.filter (· ≠ unspecifiedStepId), none⟩) := by
  cases h : req.stepId <;> rw [queryParams, h] <;> rfl

theorem parse_connect : parseQueryParams (commRequest req).queryParams =
    .ok (.ok ⟨some req.functionSlug, false,
      (some (req.stepId.getD "")).filter (· ≠ unspecifiedStepId), none⟩) := rfl

end Plans

/-! ## Calls that run through -/

def Unmemoized : Mark → Prop
  | .reported _ memoized _ => memoized = false
  | _ => False

section Follows
variable {σ : Type} (env : Env σ) (target : Option String)

def retarget : Env σ := { env with targetHashedId := target }

variable {env target}

theorem follows_reported (info : StepInfo) (decode : Json → Except PyError Json)
    (otherwise otherwise' : Exec σ Json) :
    Follows Unmemoized (Step.reported env info decode otherwise)
      (Step.reported (retarget env target) info decode otherwise') := by
  intro r s hq
  have hpop : Execution.popMemo (retarget env target) info r s =
    Execution.popMemo env info r s := rfl
  rw [Step.reported_eq] at hq ⊢
  rw [Step.reported_eq, hpop]
  obtain ⟨l, hlog, -⟩ := (Execution.popMemo_done env info r s).hooks
  cases hmemo : s.memos.lookup info.id with
  | some memo => rfl
  | none =>
    rw [hmemo] at hlog
    have hloud : Unmemoized (.reported info.id (none : Option Output).isSome r.inParallel) := rfl
    exact absurd hloud ((quiet_after.mp hq).1 _ (by rw [hlog]; exact List.mem_cons_self))

theorem follows_run (stepId : String) (outputType : Option OutputType)
    (handler handler' : Exec σ Json) :
    Follows Unmemoized (Step.run env stepId outputType handler)
      (Step.run (retarget env target) stepId outputType handler') :=
  follows_bind (follows_refl _) fun _ => follows_reported _ _ _ _

theorem follows_call (c : StepCall) :
    Follows Unmemoized (Step.call env c) (Step.call (retarget env target) c) :=
  follows_bind (follows_refl _) fun _ => follows_bind (follows_refl _) fun _ =>
    follows_reported _ _ _ _

theorem follows_interp (body : Body σ) :
    Follows Unmemoized (body.interp env) (body.interp (retarget env target)) := by
  induction body with
  | ret v => exact follows_refl _
  | raise e => exact follows_refl _
  | code f k ih => exact fun r s hq => ih (f s.store) r { s with store := f s.store } hq
  | look name method b ih => exact follows_bind (follows_refl _) fun _ => ih
  | log name message b ih => exact follows_bind (follows_refl _) fun _ => ih
  | site n b ih => exact follows_within ih
  | run stepId outputType handler k _ ih =>
    exact follows_andThen (follows_run _ _ _ _) fun x => follows_within (ih x)
  | call c k ih => exact follows_andThen (follows_call c) fun x => follows_within (ih x)
  | parallel n callables mode k ihs ih =>
    refine follows_andThen (follows_within (follows_bind (follows_collect ?_ [] [])
      fun _ => follows_refl _)) fun x => follows_bind (follows_refl _) fun _ =>
        follows_within (ih x)
    rw [List.ofFn_eq_map, List.ofFn_eq_map, List.forall₂_map_left_iff, List.forall₂_map_right_iff,
      List.forall₂_same]
    exact fun i _ => follows_within (ihs i)

theorem follows_callHandler {body body' : Exec σ Json} (h : Follows Unmemoized body body')
    (outputType : Option OutputType) :
    Follows Unmemoized (Execution.callHandler env body outputType)
      (Execution.callHandler (retarget env target) body' outputType) :=
  follows_afterwards (follows_bind h fun _ => follows_refl _) fun _ => follows_refl _

theorem follows_executionRun (ctx : Context) (code : Context → Body σ)
    (outputType : Option OutputType) :
    Follows Unmemoized (Execution.run env ctx (fun ctx => (code ctx).interp env) outputType)
      (Execution.run (retarget env target) ctx
        (fun ctx => (code ctx).interp (retarget env target)) outputType) := by
  refine follows_bind (follows_refl _) fun s => follows_bind (follows_refl _) fun x => ?_
  rcases x with e | ⟨ctx, memos⟩
  · exact follows_refl _
  · refine follows_bind (follows_refl _) fun _ => ?_
    have hcall : Follows Unmemoized
        (Execution.callHandler env ((code ctx).interp env) outputType)
        (Execution.callHandler (retarget env target) ((code ctx).interp (retarget env target))
          outputType) := follows_callHandler (follows_interp _) _
    simp only
    split
    · refine follows_bind (follows_refl _) fun err => ?_
      cases err with
      | none => exact hcall
      | some e => exact follows_refl _
    · exact hcall

theorem follows_functionCall (fn : Function σ) (fnId : String) (ctx : Context) :
    Follows Unmemoized (fn.call env fnId ctx) (fn.call (retarget env target) fnId ctx) := by
  unfold Function.call
  split
  · exact follows_refl _
  · exact follows_bind (follows_executionRun ctx _ _) fun _ => follows_refl _

end Follows

/-! ## Agreement -/

section Agreement
variable {σ : Type} (runtime : Runtime σ) (cfg : Config) {handler : AppHandler σ}
  {req : GatewayExecutorRequestData} {ack : Except PyError Unit} {http : CommRequest}

/-- The acknowledgement was sent; and when the message names no step, the
request calls no function, or one that reports memoized steps only. -/
structure Aligned (handler : AppHandler σ) (req : GatewayExecutorRequestData)
    (ack : Except PyError Unit) (http : CommRequest) : Prop where
  acknowledged : ack = .ok ()
  replays : req.stepId = none → ∀ call, handler.plan runtime http = .ok (.call call) →
    Quiet Unmemoized (call.run runtime handler (flavor call)).log

variable {runtime}

theorem result_retarget {call : Call σ}
    (h : Quiet Unmemoized (call.run runtime handler (flavor call)).log) (stepId : Option String) :
    Call.result runtime handler { call with stepId := stepId } (flavor call) =
      call.result runtime handler (flavor call) := by
  have hrun : Call.run runtime handler { call with stepId := stepId } (flavor call) =
      call.run runtime handler (flavor call) := by
    have henv : Call.env runtime handler { call with stepId := stepId } (flavor call) =
      retarget (call.env runtime handler (flavor call)) stepId := rfl
    rw [Call.run, henv]
    exact follows_functionCall call.fn.fn call.fnId call.context Scope.top (call.initial runtime) h
  rw [Call.result, Call.result, hrun]

theorem plans_agree (haligned : Aligned runtime handler req ack http)
    (hcorresponds : Corresponds runtime handler req http) :
    (∃ e, handler.plan runtime http = .error e ∧
      (connectHandler handler).plan runtime (commRequest req) = .error e) ∨
    (∃ e, handler.plan runtime http = .ok (.respond (.error e)) ∧
      (connectHandler handler).plan runtime (commRequest req) = .ok (.respond (.error e))) ∨
    ∃ call call', handler.plan runtime http = .ok (.call call) ∧
      (connectHandler handler).plan runtime (commRequest req) = .ok (.call call') ∧
      flavor call' = flavor call ∧
      Call.result runtime (connectHandler handler) call' (flavor call) =
        call.result runtime handler (flavor call) := by
  have hhttp : parseQueryParams http.queryParams = .ok (.ok
      ⟨some req.functionSlug, false, req.stepId.filter (· ≠ unspecifiedStepId), none⟩) := by
    rw [hcorresponds.queryParams, parse_http]
  have hconnect : (connectHandler handler).plan runtime (commRequest req) =
      handler.plan runtime (commRequest req) := rfl
  rw [hconnect]
  rcases plan_both handler hhttp (parse_connect req) rfl hcorresponds.body.symm with
    h | h | ⟨call, hcall, hstep, hcall'⟩
  · exact .inl h
  · exact .inr (.inl h)
  · refine .inr (.inr ⟨call, _, hcall, hcall', rfl, ?_⟩)
    cases hstepId : req.stepId with
    | none => exact result_retarget (haligned.replays hstepId call hcall) _
    | some stepId =>
      rw [hstepId] at hstep
      have hsame : (some ((some stepId).getD "")).filter (· ≠ unspecifiedStepId) = call.stepId := by
        rw [Option.getD_some, hstep]
      rw [hsame]
      rfl

section Post
variable {handler : AppHandler σ} {http : CommRequest} {key : Option String}
  (hkey : handler.requestSigningKey runtime http = .ok (.ok key))
include hkey

theorem post_raises {e : PyError} (h : handler.plan runtime http = .error e) :
    handler.post runtime http = .error e := by
  rw [AppHandler.post, AppHandler.wrap, hkey]
  simp only [bind, Except.bind, AppHandler.postWith, h]

theorem post_refuses {e : PyError} (h : handler.plan runtime http = .ok (.respond (.error e))) :
    handler.post runtime http = .ok (wrapAnswer runtime handler (http.exchange (.ok key))
      (CommResponse.fromError e).plain) := by
  rw [AppHandler.post, AppHandler.wrap, hkey]
  simp only [bind, Except.bind, AppHandler.postWith, h]
  rfl

theorem post_calls {call : Call σ} (h : handler.plan runtime http = .ok (.call call)) :
    handler.post runtime http = (handler.answer runtime (http.exchange (.ok key)) call).map
      (wrapAnswer runtime handler (http.exchange (.ok key))) := by
  rw [AppHandler.post, AppHandler.wrap, hkey]
  simp only [bind, Except.bind, AppHandler.postWith, h]
  cases handler.answer runtime (http.exchange (.ok key)) call <;> rfl

end Post

theorem execute_error {e : PyError}
    (h : (connectHandler handler).post runtime (commRequest req) = .error e) :
    (execute runtime cfg handler req (.ok ())).map (fun res => some (CallResponse.ofSdk res)) =
      .error e := by
  rw [execute, h]
  rfl

theorem execute_says {served : Served} {said : CallResponse}
    (h : (connectHandler handler).post runtime (commRequest req) = .ok served)
    (htext : Says runtime served.toCommResponse said) :
    (execute runtime cfg handler req (.ok ())).map (fun res => some (CallResponse.ofSdk res)) =
      .ok (some said) := by
  have hdump : Transforms.dumpJson runtime.toolbox served.body = .ok (runtime.text served.body) :=
    if_pos htext.serializable
  rw [execute, h]
  simp only [Except.map, bind, Except.bind, hdump]
  exact congrArg (fun said => Except.ok (some said)) htext.said

/-- An execution whose message names a step, or whose run needs none, is
answered as the HTTP request is. -/
theorem execution_agrees (hcorresponds : Corresponds runtime handler req http)
    (haligned : Aligned runtime handler req ack http) :
    Agrees runtime cfg handler req ack http := by
  obtain ⟨key, hkey⟩ := hcorresponds.accepted
  have hconnect : (connectHandler handler).requestSigningKey runtime (commRequest req) =
    .ok (.ok none) := rfl
  rw [Agrees, haligned.acknowledged]
  rcases plans_agree haligned hcorresponds with ⟨e, he, he'⟩ | ⟨e, he, he'⟩ |
      ⟨call, call', hcall, hcall', hflavor, hresult⟩
  · rw [post_raises hkey he, execute_error cfg (post_raises hconnect he')]
    rfl
  · have htext : ∀ (handler : AppHandler σ) exchange, Says runtime
        (handler.wrapHandler runtime.toolbox exchange (CommResponse.fromError e))
        (ofResponse (CommResponse.fromError e) (runtime.text (CommResponse.fromError e).body)) :=
      fun handler exchange => (says_fromError e).wrapHandler exchange handler.toCommHandler
    rw [post_refuses hkey he, execute_says cfg (post_refuses hconnect he')
      (htext (connectHandler handler) ((commRequest req).exchange (.ok none)))]
    exact congrArg Except.ok (htext handler (http.exchange (.ok key))).callResponse_plain.symm
  · have hhttp := answer_says runtime handler (http.exchange (.ok key)) call
    have hanswer := answer_says runtime (connectHandler handler)
      ((commRequest req).exchange (.ok none)) call'
    rw [hflavor, hresult] at hanswer
    have hpost := post_calls hkey hcall
    have hpost' := post_calls hconnect hcall'
    rcases hhttp with ⟨e, he, hraises⟩ | ⟨result, served, hok, hserved, hsaid, -⟩
    · rcases hanswer with ⟨e', he', hraises'⟩ | ⟨_, _, hok', -⟩
      · obtain rfl := Except.error.inj (he.symm.trans he')
        rw [hpost, hraises, execute_error cfg (by rw [hpost', hraises']; rfl)]
        rfl
      · rw [he] at hok'
        simp at hok'
    · rcases hanswer with ⟨e', he', -⟩ | ⟨result', served', hok', hserved', -, htext⟩
      · rw [hok] at he'
        simp at he'
      · obtain rfl := Except.ok.inj (hok.symm.trans hok')
        rw [hpost, hserved, execute_says cfg (by rw [hpost', hserved']; rfl) (htext rfl)]
        exact congrArg Except.ok hsaid.symm

end Agreement

/-! The first request of a run with one step, which no step is named in. -/

def config : Config := { Sample.config with int := Python.int }

def oneStep : AppHandler Unit :=
  Sample.handler .disable [Sample.fn "f" (fun _ => .run "a" none (.ret (.int 1)) fun
    | .ok v => .ret v
    | .error e => .raise e) none]

def executorRequest (stepId : Option String) : GatewayExecutorRequestData :=
  { Sample.request "request" "lease" with
    functionSlug := "app-f"
    stepId := stepId
    requestPayload := encode Sample.requestText }

def httpRequest (params : List (String × String)) : CommRequest :=
  Sample.commRequest Sample.requestText
    "t=1700000000&s=b36af9b23e7807ab714ae3a8d4262b768b4a6bb4d997aa46e49e679f186b66e6" params

theorem requestSigningKey_congr {σ : Type} (runtime : Runtime σ) (handler : AppHandler σ)
    {a b : CommRequest} (hbody : a.body = b.body) (hheaders : a.headers = b.headers)
    (hconnect : a.isConnect = b.isConnect) :
    handler.requestSigningKey runtime a = handler.requestSigningKey runtime b := by
  simp only [AppHandler.requestSigningKey, CommRequest.headerDict, hbody, hheaders, hconnect]

theorem httpRequest_accepted (params : List (String × String)) :
    oneStep.requestSigningKey Sample.runtime (httpRequest params) =
      .ok (.ok (some Sample.signingKey)) := by
  rw [requestSigningKey_congr _ _ (a := httpRequest params) (b := httpRequest []) rfl rfl rfl]
  decide +kernel

/-- The HTTP request is answered by the step's result, and the execution by an
error. -/
theorem execution_differs :
    Corresponds Sample.runtime oneStep (executorRequest none) (httpRequest [("fnId", "app-f")]) ∧
      ¬ Agrees Sample.runtime config oneStep (executorRequest none) (.ok ())
        (httpRequest [("fnId", "app-f")]) :=
  ⟨⟨rfl, rfl, _, httpRequest_accepted _⟩, by decide +kernel⟩

theorem execution_agrees_planned :
    Agrees Sample.runtime config oneStep (executorRequest (some "step")) (.ok ())
      (httpRequest [("fnId", "app-f"), ("stepId", "step")]) :=
  execution_agrees config ⟨rfl, rfl, _, httpRequest_accepted _⟩ ⟨rfl, nofun⟩

end Inngest.Connect.HttpExecution
