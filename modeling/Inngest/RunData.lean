import Inngest.CommHandler

/-!
# Run data from the API

A request too large to hold the batch and the memoized steps tells the SDK to
fetch them. A fetch can fail in two ways: an error of the request is returned,
and a body that cannot be read makes the fetch raise, which nothing catches.
-/

set_option autoImplicit false

namespace Inngest
open ServerLib Errors StepLib Effect Engine Python

def Errors.bodyInvalidError (message : String) : PyError :=
  error "BodyInvalidError" .bodyInvalid message

def HttpResponse.decode (res : HttpResponse) : Raising Json :=
  res.json.elim (.error (exception "JSONDecodeError" "Expecting value")) fun body => .ok body.json

/-- What an `Inngest` client sends its own requests with. `httpx` may refuse a
URL or a header, and pydantic an event. -/
structure ApiClient where
  apiOrigin : String
  env : Option String
  signingKey : Option String
  signingKeyFallback : Option String
  buildHttpxRequest : (url : String) → (headers : Dict String) → Raising HttpRequest
  validateEvent : Json → Raising Event

namespace ApiClient
variable {σ : Type} (client : ApiClient) (runtime : Runtime σ)

def fetch (url : String) : Raising (MaybeError HttpResponse) := do
  let request ← client.buildHttpxRequest url
    (Net.createHeaders runtime.version client.env none none)
  Net.fetchWithAuthFallback runtime.crypto runtime.send request client.signingKey
    client.signingKeyFallback

def httpError (res : HttpResponse) : PyError :=
  exception "Exception" ("HTTP error: " ++ toString res.statusCode ++ " " ++ res.text)

def get (url : String) : Raising (MaybeError HttpResponse) := do
  match ← client.fetch runtime url with
  | .error e => .ok (.error e)
  | .ok res => if 400 ≤ res.statusCode then .ok (.error (httpError res)) else .ok (.ok res)

/-- Both fetches: `read` raises for a body of the wrong shape. -/
def getData {α : Type} (read : Json → Raising α) (url : String) : Raising (MaybeError α) := do
  match ← client.get runtime url with
  | .error e => .ok (.error e)
  | .ok res =>
    let body ← res.decode
    let data ← read body
    .ok (.ok data)

def readBatch : Json → Raising (List Event)
  | .arr items => items.mapM client.validateEvent
  | _ => .error (bodyInvalidError "batch data is not an array")

/-- Of two fields with one name `json` keeps the later one. -/
def readSteps : Json → Raising (Dict Json)
  | .obj fields => .ok (fields.foldl (fun d field => d.insert field.1 field.2) ∅)
  | _ => .error (bodyInvalidError "step data is not an object")

def batchUrl (runId : String) : String :=
  runtime.urljoin client.apiOrigin ("/v0/runs/" ++ runId ++ "/batch")

def stepsUrl (runId : String) : String :=
  runtime.urljoin client.apiOrigin ("/v0/runs/" ++ runId ++ "/actions")

def getBatch (runId : String) : Raising (MaybeError (List Event)) :=
  client.getData runtime client.readBatch (client.batchUrl runtime runId)

def getSteps (runId : String) : Raising (MaybeError (Dict Json)) :=
  client.getData runtime readSteps (client.stepsUrl runtime runId)

def serve : Runtime σ :=
  { runtime with
    getBatch := client.getBatch runtime
    getSteps := client.getSteps runtime }

/-! ## Outcomes -/

section Outcomes
variable {α : Type} (read : Json → Raising α)

/-- The request failed, or it was answered with an error. -/
def Fails (outcome : MaybeError HttpResponse) : Prop :=
  (∃ e, outcome = .error e) ∨ ∃ res, outcome = .ok res ∧ 400 ≤ res.statusCode

def Gives (outcome : MaybeError HttpResponse) (data : α) : Prop :=
  ∃ res body, outcome = .ok res ∧ res.statusCode < 400 ∧ res.json = some body ∧
    read body.json = .ok data

/-- The body is not JSON, or it has the wrong shape. -/
def Malformed (outcome : MaybeError HttpResponse) : Prop :=
  ∃ res, outcome = .ok res ∧ res.statusCode < 400 ∧
    ∀ body, res.json = some body → ∀ data, read body.json ≠ .ok data

variable {read} {client runtime} {url : String} {outcome : MaybeError HttpResponse}

theorem getData_raises {e : PyError} (h : client.fetch runtime url = .error e) :
    client.getData runtime read url = .error e := by
  rw [getData, get, h]
  rfl

theorem getData_cases (h : client.fetch runtime url = .ok outcome) :
    (∃ data, Gives read outcome data ∧ client.getData runtime read url = .ok (.ok data)) ∨
    (Malformed read outcome ∧ ∃ e, client.getData runtime read url = .error e) ∨
    Fails outcome ∧ ∃ e, client.getData runtime read url = .ok (.error e) := by
  simp only [getData, get, h, bind, Except.bind]
  cases outcome with
  | error e => exact .inr (.inr ⟨.inl ⟨e, rfl⟩, e, rfl⟩)
  | ok res =>
    by_cases hstatus : 400 ≤ res.statusCode
    · simp only [if_pos hstatus]
      exact .inr (.inr ⟨.inr ⟨res, rfl, hstatus⟩, _, rfl⟩)
    · simp only [if_neg hstatus, HttpResponse.decode]
      have hlt : res.statusCode < 400 := by omega
      cases hjson : res.json with
      | none =>
        exact .inr (.inl ⟨⟨res, rfl, hlt, by simp [hjson]⟩, _, rfl⟩)
      | some body =>
        simp only [Option.elim_some]
        cases hread : read body.json with
        | error e =>
          refine .inr (.inl ⟨⟨res, rfl, hlt, fun body' hbody' data => ?_⟩, e, rfl⟩)
          obtain rfl := Option.some.inj (hjson.symm.trans hbody')
          simp [hread]
        | ok data => exact .inl ⟨data, ⟨res, body, rfl, hlt, hjson, hread⟩, rfl⟩

theorem Gives.not_fails {data : α} (h : Gives read outcome data) : ¬ Fails outcome := by
  obtain ⟨res, body, rfl, hlt, -⟩ := h
  rintro (⟨e, he⟩ | ⟨res', he, hge⟩)
  · cases he
  · cases he
    omega

theorem Gives.not_malformed {data : α} (h : Gives read outcome data) :
    ¬ Malformed read outcome := by
  obtain ⟨res, body, rfl, -, hjson, hread⟩ := h
  rintro ⟨res', he, -, hno⟩
  cases he
  exact hno body hjson data hread

theorem Fails.not_malformed (h : Fails outcome) : ¬ Malformed read outcome := by
  rintro ⟨res, rfl, hlt, -⟩
  rcases h with ⟨e, he⟩ | ⟨res', he, hge⟩
  · cases he
  · cases he
    omega

theorem Gives.unique {data data' : α} (h : Gives read outcome data)
    (h' : Gives read outcome data') : data = data' := by
  obtain ⟨res, body, rfl, -, hjson, hread⟩ := h
  obtain ⟨res', body', he, -, hjson', hread'⟩ := h'
  cases he
  cases hjson.symm.trans hjson'
  exact Except.ok.inj (hread.symm.trans hread')

end Outcomes

/-! ## Requests -/

section Requests
variable (handler : AppHandler σ) (req : CommRequest) (params : QueryParams)
  (request : ServerRequest)

/-- An execution request whose data is to be fetched. -/
structure Execution : Prop where
  signed : ∃ key, handler.requestSigningKey runtime req = .ok (.ok key)
  parsed : parseQueryParams req.queryParams = .ok (.ok params)
  probe : params.probe = false
  body : runtime.serverRequest req.body = .ok request
  useApi : request.useApi = true

def batchOutcome : Raising (MaybeError HttpResponse) :=
  client.fetch runtime (client.batchUrl runtime request.ctx.runId)

def stepsOutcome : Raising (MaybeError HttpResponse) :=
  client.fetch runtime (client.stepsUrl runtime request.ctx.runId)

/-- An outcome that the function is not to be called for. -/
def Failed {α : Type} (read : Json → Raising α) (fetched : Raising (MaybeError HttpResponse)) :
    Prop :=
  ∃ outcome, fetched = .ok outcome ∧ (Fails outcome ∨ Malformed read outcome)

/-- Both methods answer, and alike; if a fetch failed, with an error and without
a call. -/
def Answers : Prop :=
  ∃ served servedSync, handler.post (client.serve runtime) req = .ok served ∧
    handler.postSync (client.serve runtime) req = .ok servedSync ∧
    served.statusCode = servedSync.statusCode ∧ served.body = servedSync.body ∧
    (Failed client.readBatch (client.batchOutcome runtime request) ∨
        Failed readSteps (client.stepsOutcome runtime request) →
      400 ≤ served.statusCode ∧
        (∀ call, handler.plan (client.serve runtime) req ≠ .ok (.call call)) ∧
        ∀ call, handler.planSync (client.serve runtime) req ≠ .ok (.call call))

def Readable {α : Type} (read : Json → Raising α) (fetched : Raising (MaybeError HttpResponse)) :
    Prop :=
  ∃ outcome, fetched = .ok outcome ∧ ¬ Malformed read outcome

/-- Nothing raises: neither a fetch, nor the call of a function that
`post_sync` can call. -/
structure Fetchable (fnId : String) (fn : AppFunction σ) : Prop where
  batch : Readable client.readBatch (client.batchOutcome runtime request)
  steps : Readable readSteps (client.stepsOutcome runtime request)
  call : ∀ batch steps events memos, client.batchOutcome runtime request = .ok batch →
    client.stepsOutcome runtime request = .ok steps → Gives client.readBatch batch events →
    Gives readSteps steps memos → fn.opts.isAsync = false ∧
      ∃ result, Call.result (client.serve runtime) handler
        ⟨fn, fnId, { request with steps := memos }, events, params.stepId⟩ .sync = .ok result

/-! ## Plans -/

/-- How a fetch ends, with its outcome if there is one. -/
inductive Ends {α : Type} (read : Json → Raising α) :
    Raising (MaybeError HttpResponse) → Raising (MaybeError α) → Prop where
  | unsent {e} : Ends read (.error e) (.error e)
  | malformed {outcome e} : Malformed read outcome → Ends read (.ok outcome) (.error e)
  | failed {outcome e} : Fails outcome → Ends read (.ok outcome) (.ok (.error e))
  | data {outcome data} : Gives read outcome data → Ends read (.ok outcome) (.ok (.ok data))

variable {client runtime handler req params request}

theorem getData_ends {α : Type} (read : Json → Raising α) (url : String) :
    Ends read (client.fetch runtime url) (client.getData runtime read url) := by
  cases h : client.fetch runtime url with
  | error e =>
    rw [getData_raises h]
    exact .unsent
  | ok outcome =>
    rcases getData_cases h with ⟨data, hgives, hdata⟩ | ⟨hmalformed, e, he⟩ | ⟨hfails, e, he⟩
    · rw [hdata]
      exact .data hgives
    · rw [he]
      exact .malformed hmalformed
    · rw [he]
      exact .failed hfails

namespace Ends
variable {α : Type} {read : Json → Raising α} {fetched : Raising (MaybeError HttpResponse)}

theorem readable_iff {x : Raising (MaybeError α)} (h : Ends read fetched x) :
    Readable read fetched ↔ ∃ r, x = .ok r := by
  cases h with
  | unsent => simp [Readable]
  | malformed h => simp [Readable, h]
  | failed h => simp [Readable, h.not_malformed]
  | data h => simp [Readable, h.not_malformed]

theorem failed_iff {r : MaybeError α} (h : Ends read fetched (.ok r)) :
    Failed read fetched ↔ ∃ e, r = .error e := by
  cases h with
  | failed h => simp [Failed, h]
  | data h => simp [Failed, h.not_fails, h.not_malformed]

theorem not_gives {e : PyError} (h : Ends read fetched (.ok (.error e))) {outcome data}
    (hfetched : fetched = .ok outcome) : ¬ Gives read outcome data := by
  cases h with
  | failed h =>
    obtain rfl := Except.ok.inj hfetched
    exact fun hgives => hgives.not_fails h

theorem data_eq {data : α} (h : Ends read fetched (.ok (.ok data))) {outcome data'}
    (hfetched : fetched = .ok outcome) (hgives : Gives read outcome data') : data = data' := by
  cases h with
  | data h =>
    obtain rfl := Except.ok.inj hfetched
    exact h.unique hgives

theorem gives {data : α} (h : Ends read fetched (.ok (.ok data))) :
    ∃ outcome, fetched = .ok outcome ∧ Gives read outcome data := by
  cases h with
  | data h => exact ⟨_, rfl, h⟩

end Ends

/-! ## Answers -/

section Found
variable {fetch : ServerRequest → Raising (MaybeError AppHandler.RunData)} {fnId : String}
  {fn : AppFunction σ} (hrequest : Execution runtime handler req params request)

include hrequest in
theorem planWith_refused (hno : ∀ fnId fn, params.fnId = some fnId →
      handler.functions.getFunction handler.appId fnId ≠ .ok fn) :
    ∃ e, ∀ fetch, handler.planWith (client.serve runtime) fetch req =
      .ok (.respond (.error e)) := by
  have hbody : (client.serve runtime).serverRequest req.body = .ok request := hrequest.body
  cases hfnId : params.fnId with
  | none =>
    refine ⟨queryParamMissingError "fnId", fun fetch => ?_⟩
    simp [AppHandler.planWith, hrequest.parsed, hrequest.probe, hbody, hfnId, bind, Except.bind]
  | some fnId =>
    cases hfn : handler.functions.getFunction handler.appId fnId with
    | ok fn => exact absurd hfn (hno fnId fn hfnId)
    | error e =>
      refine ⟨e, fun fetch => ?_⟩
      simp [AppHandler.planWith, hrequest.parsed, hrequest.probe, hbody, hfnId, hfn, bind,
        Except.bind]

variable (hfnId : params.fnId = some fnId)
  (hfn : handler.functions.getFunction handler.appId fnId = .ok fn)
include hrequest hfnId hfn

theorem planWith_raises {e : PyError} (h : fetch request = .error e) :
    handler.planWith (client.serve runtime) fetch req = .error e := by
  have hbody : (client.serve runtime).serverRequest req.body = .ok request := hrequest.body
  simp [AppHandler.planWith, hrequest.parsed, hrequest.probe, hbody, hfnId, hfn, h, bind,
    Except.bind]

theorem planWith_fails {e : PyError} (h : fetch request = .ok (.error e)) :
    handler.planWith (client.serve runtime) fetch req = .ok (.respond (.error e)) := by
  have hbody : (client.serve runtime).serverRequest req.body = .ok request := hrequest.body
  simp [AppHandler.planWith, hrequest.parsed, hrequest.probe, hbody, hfnId, hfn, h, bind,
    Except.bind]

theorem planWith_calls {events : List Event} {memos : Dict Json}
    (h : fetch request = .ok (.ok (some events, memos))) :
    handler.planWith (client.serve runtime) fetch req =
      .ok (.call ⟨fn, fnId, { request with steps := memos }, events, params.stepId⟩) := by
  have hbody : (client.serve runtime).serverRequest req.body = .ok request := hrequest.body
  simp [AppHandler.planWith, hrequest.parsed, hrequest.probe, hbody, hfnId, hfn, h, bind,
    Except.bind]

end Found

section Posts
variable {key : Option String}
  (hkey : handler.requestSigningKey runtime req = .ok (.ok key))
include hkey

theorem answers_refused {e : PyError}
    (h : handler.plan (client.serve runtime) req = .ok (.respond (.error e)))
    (h' : handler.planSync (client.serve runtime) req = .ok (.respond (.error e))) :
    Answers client runtime handler req request := by
  have hkey' : handler.requestSigningKey (client.serve runtime) req = .ok (.ok key) := hkey
  obtain ⟨served, hserved, hbody, hstatus⟩ : ∃ served, handler.post (client.serve runtime) req =
      .ok served ∧ served.body = (CommResponse.fromError e).body ∧ served.statusCode = 500 :=
    AppHandler.postWith_refuses hkey' h
  obtain ⟨served', hserved', hbody', hstatus'⟩ : ∃ served,
      handler.postSync (client.serve runtime) req = .ok served ∧
        served.body = (CommResponse.fromError e).body ∧ served.statusCode = 500 :=
    AppHandler.postWith_refuses hkey' h'
  exact ⟨served, served', hserved, hserved', hstatus.trans hstatus'.symm,
    hbody.trans hbody'.symm, fun _ => ⟨by omega, by simp [h], by simp [h']⟩⟩

section Called
variable {call : Call σ}
  (h' : handler.planSync (client.serve runtime) req = .ok (.call call))
include h'

theorem not_answers {e : PyError} (hraises : handler.answerSync (client.serve runtime)
      (req.exchange (.ok key)) call = .error e) :
    ¬ Answers client runtime handler req request := by
  have hkey' : handler.requestSigningKey (client.serve runtime) req = .ok (.ok key) := hkey
  have hraised : handler.postSync (client.serve runtime) req = .error e :=
    AppHandler.postWith_answerRaises hkey' h' hraises
  rintro ⟨served, servedSync, -, hsync, -⟩
  cases hsync.symm.trans hraised

variable (h : handler.plan (client.serve runtime) req = .ok (.call call))
  (hbatch : ¬ Failed client.readBatch (client.batchOutcome runtime request))
  (hsteps : ¬ Failed readSteps (client.stepsOutcome runtime request))
include h hbatch hsteps

theorem answers_of_result {result : CallResult} (hasync : call.fn.opts.isAsync = false)
    (hresult : call.result (client.serve runtime) handler .sync = .ok result) :
    Answers client runtime handler req request := by
  have hkey' : handler.requestSigningKey (client.serve runtime) req = .ok (.ok key) := hkey
  have hsync : ¬ call.fn.opts.isAsync = true := by simp [hasync]
  have hanswer : handler.answerSync (client.serve runtime) (req.exchange (.ok key)) call =
      .ok (CommResponse.fromCallResult (handler.createHeaders (client.serve runtime).toolbox
        (req.exchange (.ok key)).serverKind) result).plain := by
    rw [AppHandler.answerSync, if_neg hsync, hresult]
    rfl
  have hsame : handler.answer (client.serve runtime) (req.exchange (.ok key)) call =
      handler.answerSync (client.serve runtime) (req.exchange (.ok key)) call := by
    rw [AppHandler.answer, AppHandler.answerSync, if_neg hsync, if_neg hsync]
  obtain ⟨served, hserved, hbody, hstatus⟩ := AppHandler.postWith_answers hkey' h
    (hsame.trans hanswer)
  obtain ⟨served', hserved', hbody', hstatus'⟩ := AppHandler.postWith_answers hkey' h' hanswer
  exact ⟨served, served', hserved, hserved', hstatus.trans hstatus'.symm,
    hbody.trans hbody'.symm, fun hfailed => (hfailed.elim hbatch hsteps).elim⟩

theorem answers_called : Answers client runtime handler req request ↔
    call.fn.opts.isAsync = false ∧
      ∃ result, call.result (client.serve runtime) handler .sync = .ok result := by
  constructor
  · intro hanswers
    cases hasync : call.fn.opts.isAsync with
    | true =>
      exact absurd hanswers (not_answers hkey h' (by rw [AppHandler.answerSync, if_pos hasync]))
    | false =>
      have hsync : ¬ call.fn.opts.isAsync = true := by simp [hasync]
      cases hresult : call.result (client.serve runtime) handler .sync with
      | error e =>
        have hraises : handler.answerSync (client.serve runtime) (req.exchange (.ok key)) call =
            .error e := by
          rw [AppHandler.answerSync, if_neg hsync, hresult]
          rfl
        exact absurd hanswers (not_answers hkey h' hraises)
      | ok result => exact ⟨rfl, result, rfl⟩
  · rintro ⟨hasync, result, hresult⟩
    exact answers_of_result hkey h' h hbatch hsteps hasync hresult

end Called

end Posts

section Fetches
variable (huse : request.useApi = true)
include huse

theorem fetch_raises (h : ¬ ((∃ r, runtime.getBatch request.ctx.runId = .ok r) ∧
      ∃ r, runtime.getSteps request.ctx.runId = .ok r)) :
    ∃ e, AppHandler.fetch runtime request = .error e := by
  rw [AppHandler.fetch, if_pos huse]
  cases hbatch : runtime.getBatch request.ctx.runId with
  | error e => cases runtime.getSteps request.ctx.runId <;> exact ⟨_, rfl⟩
  | ok batch =>
    cases hsteps : runtime.getSteps request.ctx.runId with
    | error e => exact ⟨e, rfl⟩
    | ok steps => exact absurd ⟨⟨batch, hbatch⟩, steps, hsteps⟩ h

variable {batch : MaybeError (List Event)} {memos : MaybeError (Dict Json)}
  (hbatch : runtime.getBatch request.ctx.runId = .ok batch)
  (hsteps : runtime.getSteps request.ctx.runId = .ok memos)
include hbatch hsteps

theorem fetch_eq : AppHandler.fetch runtime request =
      .ok (batch.bind fun events => memos.map fun memos => (some events, memos)) ∧
    AppHandler.fetchSync runtime request =
      .ok (batch.bind fun events => memos.map fun memos => (some events, memos)) := by
  rw [AppHandler.fetch, AppHandler.fetchSync, if_pos huse, if_pos huse, hbatch, hsteps]
  cases batch <;> cases memos <;> exact ⟨rfl, rfl⟩

end Fetches

theorem answers_found (hrequest : Execution runtime handler req params request) {fnId : String}
    {fn : AppFunction σ} (hfnId : params.fnId = some fnId)
    (hfn : handler.functions.getFunction handler.appId fnId = .ok fn) :
    Answers client runtime handler req request ↔
      Fetchable client runtime handler params request fnId fn := by
  obtain ⟨key, hkey⟩ := hrequest.signed
  have hbatch : Ends client.readBatch (client.batchOutcome runtime request)
      ((client.serve runtime).getBatch request.ctx.runId) := getData_ends _ _
  have hsteps : Ends readSteps (client.stepsOutcome runtime request)
      ((client.serve runtime).getSteps request.ctx.runId) := getData_ends _ _
  by_cases hboth : (∃ r, (client.serve runtime).getBatch request.ctx.runId = .ok r) ∧
      ∃ r, (client.serve runtime).getSteps request.ctx.runId = .ok r
  · obtain ⟨⟨batch, hb⟩, memos, hs⟩ := hboth
    rw [hb] at hbatch
    rw [hs] at hsteps
    have hreadable := And.intro (hbatch.readable_iff.mpr ⟨_, rfl⟩)
      (hsteps.readable_iff.mpr ⟨_, rfl⟩)
    obtain ⟨hfetch, hfetchSync⟩ := fetch_eq hrequest.useApi hb hs
    rcases batch with e | events
    · exact iff_of_true (answers_refused hkey (planWith_fails hrequest hfnId hfn hfetch)
          (planWith_fails hrequest hfnId hfn hfetchSync))
        ⟨hreadable.1, hreadable.2, fun _ _ _ _ hfetched _ hgives _ =>
          absurd hgives (hbatch.not_gives hfetched)⟩
    · rcases memos with e | memos
      · exact iff_of_true (answers_refused hkey (planWith_fails hrequest hfnId hfn hfetch)
            (planWith_fails hrequest hfnId hfn hfetchSync))
          ⟨hreadable.1, hreadable.2, fun _ _ _ _ _ hfetched _ hgives =>
            absurd hgives (hsteps.not_gives hfetched)⟩
      · rw [answers_called hkey (planWith_calls hrequest hfnId hfn hfetchSync)
          (planWith_calls hrequest hfnId hfn hfetch) (by simp [hbatch.failed_iff])
          (by simp [hsteps.failed_iff])]
        constructor
        · intro hcall
          refine ⟨hreadable.1, hreadable.2, fun _ _ _ _ hfetched hfetched' hevents hmemos => ?_⟩
          obtain rfl := hbatch.data_eq hfetched hevents
          obtain rfl := hsteps.data_eq hfetched' hmemos
          exact hcall
        · intro h
          obtain ⟨outcome, hfetched, hevents⟩ := hbatch.gives
          obtain ⟨outcome', hfetched', hmemos⟩ := hsteps.gives
          exact h.call outcome outcome' events memos hfetched hfetched' hevents hmemos
  · refine iff_of_false ?_ ?_
    · obtain ⟨e, he⟩ := fetch_raises hrequest.useApi hboth
      have hplan : handler.plan (client.serve runtime) req = .error e :=
        planWith_raises hrequest hfnId hfn he
      have hkey' : handler.requestSigningKey (client.serve runtime) req = .ok (.ok key) := hkey
      have hraised : handler.post (client.serve runtime) req = .error e :=
        AppHandler.postWith_raises hkey' hplan
      rintro ⟨served, servedSync, hserved, -⟩
      cases hserved.symm.trans hraised
    · intro h
      exact hboth ⟨hbatch.readable_iff.mp h.batch, hsteps.readable_iff.mp h.steps⟩

/-- Fetches fail into responses exactly when no fetch, and no call of a
synchronous function, raises. -/
theorem answers_iff (hrequest : Execution runtime handler req params request) :
    Answers client runtime handler req request ↔ ∀ fnId fn, params.fnId = some fnId →
      handler.functions.getFunction handler.appId fnId = .ok fn →
        Fetchable client runtime handler params request fnId fn := by
  obtain ⟨key, hkey⟩ := hrequest.signed
  by_cases hfound : ∃ fnId fn, params.fnId = some fnId ∧
      handler.functions.getFunction handler.appId fnId = .ok fn
  · obtain ⟨fnId, fn, hfnId, hfn⟩ := hfound
    have honly : (∀ fnId fn, params.fnId = some fnId →
        handler.functions.getFunction handler.appId fnId = .ok fn →
          Fetchable client runtime handler params request fnId fn) ↔
        Fetchable client runtime handler params request fnId fn := by
      refine ⟨fun h => h fnId fn hfnId hfn, fun h fnId' fn' hfnId' hfn' => ?_⟩
      obtain rfl := Option.some.inj (hfnId.symm.trans hfnId')
      obtain rfl := Except.ok.inj (hfn.symm.trans hfn')
      exact h
    rw [honly]
    exact answers_found hrequest hfnId hfn
  · have hno : ∀ fnId fn, params.fnId = some fnId →
        handler.functions.getFunction handler.appId fnId ≠ .ok fn :=
      fun fnId fn hfnId hfn => hfound ⟨fnId, fn, hfnId, hfn⟩
    obtain ⟨e, he⟩ := planWith_refused hrequest hno
    exact iff_of_true (answers_refused hkey (he _) (he _))
      fun fnId fn hfnId hfn => absurd hfn (hno fnId fn hfnId)

end Requests

end ApiClient

namespace ApiClient

/-! A local server that has the batch, and steps that are an object or not. -/

namespace Local

def client : ApiClient where
  apiOrigin := "http://127.0.0.1:8288"
  env := none
  signingKey := none
  signingKeyFallback := none
  buildHttpxRequest url headers := .ok ⟨url, headers, [], .null⟩
  validateEvent
    | .obj [("name", .str name)] => .ok ⟨[], "", name, 0⟩
    | _ => .error (exception "ValidationError" "1 validation error for Event")

def request : ServerRequest := { Sample.serverRequest with useApi := true }

def batch : HttpResponse :=
  ⟨200, "[\x7b\"name\": \"e\"\x7d]", some (.arr [.obj [("name", .str "e")]])⟩

def runtime (steps : HttpResponse) : Runtime Unit :=
  { Sample.runtime with
    serverRequest := fun _ => .ok request
    send := fun req =>
      .ok (if req.url = "http://127.0.0.1:8288/v0/runs/run/batch" then batch else steps) }

def handler : AppHandler Unit :=
  { Sample.handler .disable
      [{ Sample.fn "f" (fun _ => .ret (.str "done")) none with isAsync := false }] with
    mode := .devServer
    keyed := fun h => nomatch h }

def params : QueryParams := ⟨some "app-f", false, none, none⟩

def req : CommRequest := Sample.commRequest "" "" [("fnId", "app-f")]

def steps : HttpResponse := ⟨200, "\x7b\x7d", some (.obj [])⟩

def noSteps : HttpResponse := ⟨200, "[]", some (.arr [])⟩

theorem execution (steps : HttpResponse) :
    Execution (runtime steps) handler req params request where
  signed := ⟨none, rfl⟩
  parsed := by decide
  probe := rfl
  body := rfl
  useApi := rfl

end Local

theorem answers_iff_fetched :
    Answers Local.client (Local.runtime Local.steps) Local.handler Local.req Local.request := by
  refine (answers_iff (Local.execution Local.steps)).mpr fun fnId fn hfnId hfn => ?_
  obtain rfl := Option.some.inj hfnId
  obtain rfl := Except.ok.inj hfn
  have hbatch : Gives Local.client.readBatch (.ok Local.batch) [⟨[], "", "e", 0⟩] :=
    ⟨_, _, rfl, by decide, rfl, rfl⟩
  have hsteps : Gives readSteps (.ok Local.steps) ∅ := ⟨_, _, rfl, by decide, rfl, rfl⟩
  refine ⟨⟨_, rfl, hbatch.not_malformed⟩, ⟨_, rfl, hsteps.not_malformed⟩, ?_⟩
  intro batch steps events memos hbatch' hsteps' hevents hmemos
  obtain rfl := Except.ok.inj hbatch'
  obtain rfl := Except.ok.inj hsteps'
  obtain rfl := hbatch.unique hevents
  obtain rfl := hsteps.unique hmemos
  exact ⟨rfl, _, rfl⟩

/-- The steps are an array, and both methods raise. -/
theorem malformed_not_answers :
    Execution (Local.runtime Local.noSteps) Local.handler Local.req Local.params Local.request ∧
      Failed readSteps (Local.client.stepsOutcome (Local.runtime Local.noSteps) Local.request) ∧
      Local.handler.post (Local.client.serve (Local.runtime Local.noSteps)) Local.req =
        .error (bodyInvalidError "step data is not an object") ∧
      Local.handler.postSync (Local.client.serve (Local.runtime Local.noSteps)) Local.req =
        .error (bodyInvalidError "step data is not an object") ∧
      ¬ Answers Local.client (Local.runtime Local.noSteps) Local.handler Local.req
        Local.request := by
  have hpost : Local.handler.post (Local.client.serve (Local.runtime Local.noSteps)) Local.req =
      .error (bodyInvalidError "step data is not an object") := rfl
  refine ⟨Local.execution Local.noSteps, ⟨.ok Local.noSteps, rfl, .inr ?_⟩, hpost, rfl, ?_⟩
  · refine ⟨Local.noSteps, rfl, by decide, fun body hbody data hread => ?_⟩
    obtain rfl := Option.some.inj hbody
    cases hread
  · rintro ⟨served, servedSync, hserved, -⟩
    cases hserved.symm.trans hpost

end ApiClient

end Inngest
