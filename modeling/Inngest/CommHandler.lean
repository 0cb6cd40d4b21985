import Inngest.Registration
import Inngest.ServeUrl
import Inngest.Streaming

/-!
# The methods of `CommHandler`

A request is checked, its function is found and called, and the response gets
its headers and its signature. Parsing by pydantic and HTTP requests are
inputs here. Every method may raise; the adapters of the web frameworks turn
what it returns into bytes.
-/

set_option autoImplicit false

namespace Inngest
open ServerLib Errors StepLib Effect Engine Python

/-! ## Requests -/

/-- Headers as a dictionary; of two with one name the later one counts. -/
def Net.headerDict (headers : List (String × String)) : Dict String :=
  headers.foldl (fun d h => d.insert h.1 h.2) ∅

def Net.normalizeHeaders (headers : List (String × String)) : Dict String :=
  Net.headerDict (headers.map fun h => (h.1.toLower, h.2))

inductive QueryValue where
  | one (value : String)
  | many (values : List String)
  deriving DecidableEq, Repr

def QueryValue.first : QueryValue → Option String
  | .one value => some value
  | .many values => values.head?

structure CommRequest where
  body : Bytes
  headers : List (String × String)
  isConnect : Bool
  publicPath : Option String
  queryParams : Dict QueryValue
  requestUrl : String
  serveOrigin : Option String
  servePath : Option String
  timing : String
  streamTiming : String

def CommRequest.headerDict (req : CommRequest) : Dict String :=
  if req.isConnect then Net.headerDict req.headers else Net.normalizeHeaders req.headers

def CommRequest.exchange (req : CommRequest) (key : MaybeError (Option String)) : Exchange :=
  ⟨req.headerDict, key.toOption.join, req.timing, req.streamTiming⟩

/-- `probe` is the one that there is, `trust`. -/
structure QueryParams where
  fnId : Option String
  probe : Bool
  stepId : Option String
  syncId : Option String
  deriving DecidableEq, Repr

def unspecifiedStepId : String := "step"

def parseQueryParams (params : Dict QueryValue) : Raising (MaybeError QueryParams) :=
  if params.values.any fun v => v.first.isNone then
    .error (exception "IndexError" "list index out of range")
  else
    let get (key : String) := (params.lookup key).bind QueryValue.first
    let probe := (get "probe").getD ""
    if probe ≠ "" ∧ probe ≠ "trust" then
      .ok (.error (exception "Exception" ("unsupported probe: " ++ probe)))
    else
      .ok (.ok ⟨get "fnId", probe = "trust",
        (get "stepId").filter (· ≠ unspecifiedStepId), get "deployId"⟩)

structure ServerRequest where
  ctx : ServerRequestCtx
  event : Event
  events : Option (List Event)
  steps : Dict Json
  useApi : Bool

structure HttpRequest where
  url : String
  headers : Dict String
  params : List (String × String)
  body : Json

structure HttpResponse where
  statusCode : ℕ
  text : String
  json : Option Dumped

/-- What the handlers are run with: cryptography, the clock, `json`, pydantic,
the check of network locations, the variables of the environment, `urljoin` and
HTTP, and the store that the user's code begins with. Of the batch and the steps,
which are fetched at once, `stepsFirst` has the steps come first. -/
structure Runtime (σ : Type) where
  crypto : Crypto
  clock : Clock
  version : String
  text : Json → String
  complaint : Json → String
  loads : String → Option Json
  hash : String → String
  serverRequest : Bytes → MaybeError ServerRequest
  syncRequest : Bytes → MaybeError String
  getBatch : String → Raising (MaybeError (List Event))
  getSteps : String → Raising (MaybeError (Dict Json))
  stepsFirst : Bool
  checkNetloc : List Char → Option PyError
  environ : String → Option String
  urljoin : String → String → String
  send : HttpRequest → Except String HttpResponse
  loggingEnabled : Bool
  store : σ

def Runtime.createServeUrl {σ : Type} (runtime : Runtime σ) (req : CommRequest)
    (requestUrl : String) : Raising String :=
  Net.createServeUrl runtime.checkNetloc runtime.environ req.publicPath requestUrl req.serveOrigin
    req.servePath

def Runtime.toolbox {σ : Type} (runtime : Runtime σ) : Toolbox where
  version := runtime.version
  text := runtime.text
  complaint := runtime.complaint
  signResponse body signingKey :=
    Net.signResponse runtime.crypto runtime.clock (encode body) signingKey

/-! ## The handler -/

/-- A `CommHandler` with what it reads of its client. Without a signing key the
constructor raises in cloud mode. -/
structure AppHandler (σ : Type) extends CommHandler where
  appId : String
  appVersion : Option String
  apiOrigin : String
  eventApiOrigin : String
  eventKey : Option String
  signingKey : Option String
  signingKeyFallback : Option String
  allowInBandSync : Bool
  functions : Functions σ
  middleware : List (Hooks σ)
  serializer : Option Serializer
  keyed : mode = .cloud → signingKey.isSome = true

structure Call (σ : Type) where
  fn : AppFunction σ
  fnId : String
  request : ServerRequest
  events : List Event
  stepId : Option String

/-- A response is there before a function is called, or a function is called. -/
inductive Plan (σ : Type) where
  | respond (response : MaybeError CommResponse)
  | call (call : Call σ)

def CommResponse.plain (res : CommResponse) : Served := ⟨res, none⟩

def Served.ofMaybeError : MaybeError Served → Served
  | .error e => (CommResponse.fromError e).plain
  | .ok served => served

section
variable {σ : Type} (runtime : Runtime σ) (handler : AppHandler σ)

namespace Call
variable (call : Call σ)

def context : Context where
  attempt := call.request.ctx.attempt
  event := call.request.event
  events := call.events
  runId := call.request.ctx.runId

def env (flavor : Flavor) : Env σ where
  flavor := flavor
  hash := runtime.hash
  serializer := handler.serializer
  middleware := MiddlewareManager.fromClient handler.middleware call.fn.opts.middleware
  request := call.request.ctx
  targetHashedId := call.stepId

def initial : Engine.State σ :=
  ⟨StepMemos.fromRaw runtime.loads call.request.steps, fun _ => 0, false,
    runtime.loggingEnabled, fun _ => none, runtime.store⟩

def run (flavor : Flavor) : Run σ CallResult :=
  call.fn.fn.call (call.env runtime handler flavor) call.fnId call.context Scope.top
    (call.initial runtime)

/-- What the call returns. An interrupt that leaves it is raised as well. -/
def result (flavor : Flavor) : Raising CallResult :=
  match (call.run runtime handler flavor).outcome with
  | .ok result => .ok result
  | .exc e => .error e
  | .intr _ => .error (exception "NestedStepInterrupt" "")

end Call

namespace AppHandler

/-- What a request was signed with. One that came by Connect is not signed. -/
def requestSigningKey (req : CommRequest) : Raising (MaybeError (Option String)) :=
  if req.isConnect then .ok (.ok none)
  else Net.validateRequestSig runtime.crypto req.body req.headerDict handler.mode
    handler.signingKey handler.signingKeyFallback

/-- `wrap_handler`, with the method that it decorates. -/
def wrap (requireSignature : Bool)
    (method : MaybeError (Option String) → Raising (MaybeError Served))
    (req : CommRequest) : Raising Served := do
  match ← handler.requestSigningKey runtime req, requireSignature with
  | .error e, true => .ok (CommResponse.plain { CommResponse.fromError e with statusCode := 401 })
  | key, _ =>
    let served := Served.ofMaybeError (← method key)
    .ok { served with
      toCommResponse := handler.wrapHandler runtime.toolbox (req.exchange key)
        served.toCommResponse }

abbrev RunData := Option (List Event) × Dict Json

def gather {α β : Type} (batch : Raising α) (steps : Raising β) : Raising (α × β) :=
  match batch, steps with
  | .ok batch, .ok steps => .ok (batch, steps)
  | .error e, .error e' => .error (if runtime.stepsFirst then e' else e)
  | .error e, .ok _ => .error e
  | .ok _, .error e => .error e

def fetch (request : ServerRequest) : Raising (MaybeError RunData) :=
  if request.useApi then do
    match ← gather runtime (runtime.getBatch request.ctx.runId)
      (runtime.getSteps request.ctx.runId) with
    | (.error e, _) => .ok (.error e)
    | (.ok _, .error e) => .ok (.error e)
    | (.ok events, .ok steps) => .ok (.ok (some events, steps))
  else .ok (.ok (request.events, request.steps))

def fetchSync (request : ServerRequest) : Raising (MaybeError RunData) :=
  if request.useApi then do
    match ← runtime.getBatch request.ctx.runId with
    | .error e => .ok (.error e)
    | .ok events =>
      match ← runtime.getSteps request.ctx.runId with
      | .error e => .ok (.error e)
      | .ok steps => .ok (.ok (some events, steps))
  else .ok (.ok (request.events, request.steps))

theorem fetchSync_of_fetch {request : ServerRequest} {data : RunData}
    (h : fetch runtime request = .ok (.ok data)) :
    fetchSync runtime request = .ok (.ok data) := by
  rw [fetch] at h
  rw [fetchSync]
  split at h
  · rw [if_pos ‹_›]
    cases hbatch : runtime.getBatch request.ctx.runId <;>
      cases hsteps : runtime.getSteps request.ctx.runId <;>
        simp only [hbatch, hsteps, gather, bind, Except.bind, reduceCtorEq] at h ⊢
    split at h <;> simp_all
  · rwa [if_neg ‹_›]

def planWith (fetch : ServerRequest → Raising (MaybeError RunData)) (req : CommRequest) :
    Raising (Plan σ) := do
  match ← parseQueryParams req.queryParams with
  | .error e => .ok (.respond (.error e))
  | .ok params =>
    if params.probe then .ok (.respond (.ok ⟨.null, ∅, 200⟩))
    else match runtime.serverRequest req.body, params.fnId with
      | .error e, _ => .ok (.respond (.error e))
      | .ok _, none => .ok (.respond (.error (queryParamMissingError "fnId")))
      | .ok request, some fnId =>
        match handler.functions.getFunction handler.appId fnId with
        | .error e => .ok (.respond (.error e))
        | .ok fn =>
          match ← fetch request with
          | .error e => .ok (.respond (.error e))
          | .ok (none, _) =>
            .ok (.respond (.error (exception "Exception" "events not in request")))
          | .ok (some events, steps) =>
            .ok (.call ⟨fn, fnId, { request with steps := steps }, events, params.stepId⟩)

def plan (req : CommRequest) : Raising (Plan σ) := handler.planWith runtime (fetch runtime) req

def planSync (req : CommRequest) : Raising (Plan σ) :=
  handler.planWith runtime (fetchSync runtime) req

/-- The rest of `post`. A synchronous function is called on a thread. -/
def answer (exchange : Exchange) (call : Call σ) : Raising Served :=
  if call.fn.opts.isAsync then do
    let result ← call.result runtime handler .async
    .ok (handler.toCommHandler.post runtime.toolbox exchange result)
  else do
    let result ← call.result runtime handler .sync
    .ok (CommResponse.fromCallResult
      (handler.createHeaders runtime.toolbox exchange.serverKind) result).plain

def unreachable : PyError := exception "UnreachableError" "handler is not sync"

def answerSync (exchange : Exchange) (call : Call σ) : Raising Served :=
  if call.fn.opts.isAsync then .error unreachable
  else do
    let result ← call.result runtime handler .sync
    .ok (CommResponse.fromCallResult
      (handler.createHeaders runtime.toolbox exchange.serverKind) result).plain

def postWith (plan : CommRequest → Raising (Plan σ)) (answer : Exchange → Call σ → Raising Served)
    (req : CommRequest) (key : MaybeError (Option String)) : Raising (MaybeError Served) := do
  match ← plan req with
  | .respond (.error e) => .ok (.error e)
  | .respond (.ok res) => .ok (.ok res.plain)
  | .call call =>
    (answer (req.exchange key) call).map .ok

section Wrap
variable {runtime handler} {requireSignature : Bool} {key : MaybeError (Option String)}
  {method : MaybeError (Option String) → Raising (MaybeError Served)} {req : CommRequest}
  (hkey : handler.requestSigningKey runtime req = .ok key)
  (hpass : requireSignature = true → key.isOk = true)
include hkey hpass

theorem wrap_eq : handler.wrap runtime requireSignature method req =
    (method key).map fun x => { Served.ofMaybeError x with
      toCommResponse := handler.wrapHandler runtime.toolbox (req.exchange key)
        (Served.ofMaybeError x).toCommResponse } := by
  rw [wrap, hkey]
  cases hx : method key <;> cases key <;> cases requireSignature <;>
    simp_all [bind, Except.bind, Except.map, Except.isOk, Except.toBool]

theorem wrap_raises {e : PyError} (h : method key = .error e) :
    handler.wrap runtime requireSignature method req = .error e := by
  rw [wrap_eq hkey hpass, h]
  rfl

theorem wrap_answers {x : MaybeError Served} (h : method key = .ok x) :
    ∃ served, handler.wrap runtime requireSignature method req = .ok served ∧
      served.body = (Served.ofMaybeError x).body ∧
      served.statusCode = (Served.ofMaybeError x).statusCode := by
  have hspec := handler.wrapHandler_spec runtime.toolbox (req.exchange key)
    (Served.ofMaybeError x).toCommResponse
  rw [wrap_eq hkey hpass, h]
  exact ⟨_, rfl, hspec.1, hspec.2.1⟩

end Wrap

section Posts
variable {runtime handler} {plan : CommRequest → Raising (Plan σ)}
  {answer : Exchange → Call σ → Raising Served} {req : CommRequest} {key : Option String}
  (hkey : handler.requestSigningKey runtime req = .ok (.ok key))
include hkey

theorem postWith_raises {e : PyError} (h : plan req = .error e) :
    handler.wrap runtime true (postWith plan answer req) req = .error e := by
  refine wrap_raises hkey (fun _ => rfl) ?_
  simp only [postWith, h, bind, Except.bind]

theorem postWith_refuses {e : PyError} (h : plan req = .ok (.respond (.error e))) :
    ∃ served, handler.wrap runtime true (postWith plan answer req) req = .ok served ∧
      served.body = (CommResponse.fromError e).body ∧ served.statusCode = 500 := by
  have hpost : postWith plan answer req (.ok key) = .ok (.error e) := by
    simp only [postWith, h, bind, Except.bind]
  exact wrap_answers hkey (fun _ => rfl) hpost

theorem postWith_answers {call : Call σ} {res : Served} (h : plan req = .ok (.call call))
    (hanswer : answer (req.exchange (.ok key)) call = .ok res) :
    ∃ served, handler.wrap runtime true (postWith plan answer req) req = .ok served ∧
      served.body = res.body ∧ served.statusCode = res.statusCode := by
  have hpost : postWith plan answer req (.ok key) = .ok (.ok res) := by
    simp only [postWith, h, hanswer, Except.map, bind, Except.bind]
  exact wrap_answers hkey (fun _ => rfl) hpost

theorem postWith_answerRaises {call : Call σ} {e : PyError} (h : plan req = .ok (.call call))
    (hanswer : answer (req.exchange (.ok key)) call = .error e) :
    handler.wrap runtime true (postWith plan answer req) req = .error e := by
  refine wrap_raises hkey (fun _ => rfl) ?_
  simp only [postWith, h, hanswer, Except.map, bind, Except.bind]

end Posts

def post (req : CommRequest) : Raising Served :=
  handler.wrap runtime true
    (postWith (handler.plan runtime) (handler.answer runtime) req) req

def postSync (req : CommRequest) : Raising Served :=
  handler.wrap runtime true
    (postWith (handler.planSync runtime) (handler.answerSync runtime) req) req

/-! ### Inspection -/

def unauthenticatedInspection : List (String × Dumped) :=
  [("schema_version", .str "2024-05-24"),
    ("function_count", .int handler.functions.size),
    ("has_event_key", .bool handler.eventKey.isSome),
    ("has_signing_key", .bool handler.signingKey.isSome),
    ("has_signing_key_fallback", .bool handler.signingKeyFallback.isSome),
    ("mode", .str handler.mode.value)]

def capabilities : Dumped :=
  .obj [("connect", .str "v1"), ("in_band_sync", .str "v1"), ("trust_probe", .str "v1")]

def keyHash (hash : String → Raising String) : Option String → Raising (Option String)
  | none => .ok none
  | some key => if key = "" then .ok none else (hash key).map some

def authenticatedInspection (req : CommRequest) : Raising (List (String × Dumped)) := do
  let eventKeyHash ← keyHash (fun key => .ok (Transforms.hashEventKey runtime.crypto key))
    handler.eventKey
  let signingKeyHash ← keyHash (Transforms.hashSigningKey runtime.crypto) handler.signingKey
  let signingKeyFallbackHash ← keyHash (Transforms.hashSigningKey runtime.crypto)
    handler.signingKeyFallback
  .ok [("schema_version", .str "2024-05-24"), ("api_origin", .str handler.apiOrigin),
    ("app_id", .str handler.appId), ("authentication_succeeded", .bool true),
    ("capabilities", capabilities), ("env", .text handler.env),
    ("event_api_origin", .str handler.eventApiOrigin), ("event_key_hash", .text eventKeyHash),
    ("framework", .str handler.framework.value),
    ("function_count", .int handler.functions.size),
    ("has_event_key", .bool handler.eventKey.isSome),
    ("has_signing_key", .bool handler.signingKey.isSome),
    ("has_signing_key_fallback", .bool handler.signingKeyFallback.isSome),
    ("mode", .str handler.mode.value), ("sdk_language", .str "py"),
    ("sdk_version", .str runtime.version), ("serve_origin", .text req.serveOrigin),
    ("serve_path", .text req.servePath),
    ("signing_key_fallback_hash", .text signingKeyFallbackHash),
    ("signing_key_hash", .text signingKeyHash)]

/-- `_build_inspection_response`; a request is signed when a key validated it. -/
def buildInspectionResponse (req : CommRequest) (key : MaybeError (Option String)) :
    Raising (List (String × Dumped)) :=
  match key with
  | .ok (some _) => handler.authenticatedInspection runtime req
  | _ => .ok handler.unauthenticatedInspection

def inspect (req : CommRequest) (key : MaybeError (Option String)) :
    Raising (MaybeError Served) :=
  if (req.exchange key).serverKind.any (· ≠ handler.mode) then
    .ok (.ok (CommResponse.plain ⟨.obj [], ∅, 403⟩))
  else do
    let inspection ← handler.buildInspectionResponse runtime req key
    .ok (.ok (CommResponse.plain ⟨(Dumped.obj inspection).json, ∅, 200⟩))

def getSync (req : CommRequest) : Raising Served :=
  handler.wrap runtime false (handler.inspect runtime req) req

end AppHandler

end

/-! ### Syncing -/

mutual
def Transforms.deepStripNone : Json → Json
  | .arr items => .arr (stripItems items)
  | .obj fields => .obj (stripFields fields)
  | v => v

def Transforms.stripItems : List Json → List Json
  | [] => []
  | .null :: items => stripItems items
  | item :: items => deepStripNone item :: stripItems items

def Transforms.stripFields : List (String × Json) → List (String × Json)
  | [] => []
  | (_, .null) :: fields => stripFields fields
  | (name, value) :: fields => (name, deepStripNone value) :: stripFields fields
end

mutual
theorem Transforms.deepStripNone_serializable : (v : Json) → v.serializable = true →
    (deepStripNone v).serializable = true
  | .arr items, h => stripItems_serializable items h
  | .obj fields, h => stripFields_serializable fields h
  | .null, h | .bool _, h | .int _, h | .float _, h | .str _, h | .other _, h => h

theorem Transforms.stripItems_serializable : (items : List Json) →
    Json.serializableItems items = true → Json.serializableItems (stripItems items) = true
  | [], h => h
  | item :: items, h => by
    simp only [Json.serializableItems, Bool.and_eq_true] at h
    have hitems := stripItems_serializable items h.2
    cases item with
    | null => exact hitems
    | _ => simp [stripItems, Json.serializableItems, hitems, deepStripNone_serializable _ h.1]

theorem Transforms.stripFields_serializable : (fields : List (String × Json)) →
    Json.serializableFields fields = true → Json.serializableFields (stripFields fields) = true
  | [], h => h
  | (_, value) :: fields, h => by
    simp only [Json.serializableFields, Bool.and_eq_true] at h
    have hfields := stripFields_serializable fields h.2
    cases value with
    | null => exact hfields
    | _ => simp [stripFields, Json.serializableFields, hfields, deepStripNone_serializable _ h.1]
end

def syncKindHeader : String := "x-inngest-sync-kind"

def inBand : String := "in_band"
def outOfBand : String := "out_of_band"

/-- `net.fetch_with_auth_fallback`: a refused request is sent once more, with
the fallback key. -/
def Net.fetchWithAuthFallback (crypto : Crypto) (send : HttpRequest → Except String HttpResponse)
    (request : HttpRequest) (signingKey signingKeyFallback : Option String) :
    Raising (MaybeError HttpResponse) := do
  let authorized (key : String) : Raising HttpRequest :=
    (Transforms.hashSigningKey crypto key).map fun hash =>
      { request with headers := request.headers.insert "authorization" ("Bearer " ++ hash) }
  let failed (err : String) : MaybeError HttpResponse :=
    .error (exception "Exception" ("Failed request to " ++ request.url ++ ": " ++ err))
  let first ← signingKey.elim (.ok request) authorized
  match send first, signingKeyFallback with
  | .error err, _ => .ok (failed err)
  | .ok res, some fallback =>
    if res.statusCode = 403 ∨ res.statusCode = 401 then
      match authorized fallback with
      | .error e => .ok (failed e.message)
      | .ok second =>
        match send second with
        | .error err => .ok (failed err)
        | .ok res => .ok (.ok res)
    else .ok (.ok res)
  | .ok res, none => .ok (.ok res)

namespace Syncer
variable {σ : Type} (runtime : Runtime σ) (handler : AppHandler σ) (req : CommRequest)

def functionConfigs (appUrl : String) : MaybeError Dumped := do
  let configs ← handler.functions.getFunctionConfigs appUrl
  (configs.mapM FunctionConfig.toDict).map Dumped.arr

def notSigned : PyError := exception "Exception" "request must be signed for in-band sync"

def inBandSync (key : MaybeError (Option String)) : Raising (MaybeError Served) :=
  match key, runtime.syncRequest req.body with
  | .ok (some _), .error e => .ok (.error e)
  | .ok (some _), .ok url => do
    let appUrl ← runtime.createServeUrl req url
    match handler.functions.getFunctionConfigs appUrl with
    | .error e => .ok (.error e)
    | .ok configs => do
      let inspection ← handler.buildInspectionResponse runtime req key
      match configs.mapM FunctionConfig.toDict with
      | .error e => .ok (.error e)
      | .ok functions =>
        let body := Dumped.obj [("app_id", .str handler.appId),
          ("appVersion", .text handler.appVersion), ("env", .text handler.env),
          ("framework", .str handler.framework.value), ("functions", .arr functions),
          ("inspection", .obj inspection), ("platform", .null), ("sdk_author", .str "inngest"),
          ("sdk_language", .str "py"), ("sdk_version", .str runtime.version),
          ("url", .str appUrl)]
        .ok (.ok (CommResponse.plain ⟨Transforms.deepStripNone body.json,
          AList.singleton syncKindHeader inBand, 200⟩))
  | _, _ => .ok (.error notSigned)

def mismatch : ServerKind → String
  | .devServer => "Sync rejected since it's from a Dev Server but expected Cloud"
  | .cloud => "Sync rejected since it's from Cloud but expected Dev Server"

/-- `CommResponse.from_error_code`, for a sync of the wrong server kind. -/
def rejected (kind : ServerKind) : CommResponse where
  body := .obj [("code", .str ErrorCode.serverKindMismatch.value),
    ("message", .str (mismatch kind))]
  headers := ∅
  statusCode := 400

/-- `_create_out_of_band_request`: the request to send, or the response that
is given without it. -/
def createOutOfBandRequest : Raising (MaybeError (CommResponse ⊕ HttpRequest)) := do
  let appUrl ← runtime.createServeUrl req req.requestUrl
  let kind := (req.exchange (.ok none)).serverKind
  match kind.filter (· ≠ handler.mode) with
  | some kind => .ok (.ok (.inl (rejected kind)))
  | none => do
    match ← parseQueryParams req.queryParams, functionConfigs handler appUrl with
    | .error e, _ => .ok (.error e)
    | .ok _, .error e => .ok (.error e)
    | .ok params, .ok functions =>
      let body := Dumped.obj [("appname", .str handler.appId),
        ("appVersion", .text handler.appVersion), ("capabilities", AppHandler.capabilities),
        ("deploy_type", .str "ping"), ("framework", .str handler.framework.value),
        ("functions", functions), ("sdk", .str ("py:v" ++ runtime.version)),
        ("url", .str appUrl), ("v", .str "0.1")]
      .ok (.ok (.inr
        { url := runtime.urljoin handler.apiOrigin "/fn/register"
          headers := handler.createHeaders runtime.toolbox kind
          params := params.syncId.toList.map fun id => ("deployId", id)
          body := Transforms.deepStripNone body.json }))

/-- `_parse_out_of_band_response`. The response for a refused registration is
made and not returned. -/
def parseOutOfBandResponse (res : HttpResponse) : MaybeError CommResponse :=
  match res.json with
  | none => .error (registrationFailedError "response is not valid JSON")
  | some body =>
    match body.json with
    | .obj _ => .ok ⟨body.json, AList.singleton syncKindHeader outOfBand, 200⟩
    | _ => .error (registrationFailedError "response is not an object")

def outOfBandSync : Raising (MaybeError Served) := do
  match ← createOutOfBandRequest runtime handler req with
  | .error e => .ok (.error e)
  | .ok (.inl res) => .ok (.ok res.plain)
  | .ok (.inr request) =>
    match ← Net.fetchWithAuthFallback runtime.crypto runtime.send request handler.signingKey
        handler.signingKeyFallback with
    | .error e => .ok (.error e)
    | .ok res => .ok ((parseOutOfBandResponse res).map CommResponse.plain)

def sync (key : MaybeError (Option String)) : Raising (MaybeError Served) :=
  if req.headerDict.lookup syncKindHeader = some inBand ∧ handler.allowInBandSync = true then
    match key with
    | .error e => .ok (.ok (CommResponse.plain { CommResponse.fromError e with statusCode := 401 }))
    | .ok none =>
      .ok (.ok (CommResponse.plain { CommResponse.fromError notSigned with statusCode := 401 }))
    | .ok (some _) => inBandSync runtime handler req key
  else outOfBandSync runtime handler req

end Syncer

namespace AppHandler
variable {σ : Type} (runtime : Runtime σ) (handler : AppHandler σ)

def put (req : CommRequest) : Raising Served :=
  handler.wrap runtime false (Syncer.sync runtime handler req) req

def putSync (req : CommRequest) : Raising Served :=
  handler.wrap runtime false (Syncer.sync runtime handler req) req

end AppHandler

/-! ## A sample handler

One function that returns a text, in an app that runs in the cloud. -/

namespace Sample

def unicodeEscape (n : ℕ) : List Char := '\\' :: 'u' :: (Nat.toDigits 16 n).leftpad 4 '0'

def escaped (c : Char) : List Char :=
  if c = '"' ∨ c = '\\' then ['\\', c]
  else if c = '\n' then ['\\', 'n']
  else if c = '\r' then ['\\', 'r']
  else if c = '\t' then ['\\', 't']
  else if c = '\x08' then ['\\', 'b']
  else if c = '\x0c' then ['\\', 'f']
  else if 0x20 ≤ c.toNat ∧ c.toNat < 0x7f then [c]
  else if c.toNat < 0x10000 then unicodeEscape c.toNat
  else
    -- a surrogate pair
    unicodeEscape (0xd800 + (c.toNat - 0x10000) / 0x400) ++
      unicodeEscape (0xdc00 + (c.toNat - 0x10000) % 0x400)

def quoted (s : String) : String := "\"" ++ .ofList (s.toList.flatMap escaped) ++ "\""

mutual
def text : Json → String
  | .null => "null"
  | .bool b => toString b
  | .int n => toString n
  | .float q => toString q
  | .str s => quoted s
  | .arr items => "[" ++ ", ".intercalate (textItems items) ++ "]"
  | .obj fields => "\x7b" ++ ", ".intercalate (textFields fields) ++ "\x7d"
  | .other _ => ""

def textItems : List Json → List String
  | [] => []
  | item :: items => text item :: textItems items

def textFields : List (String × Json) → List String
  | [] => []
  | (name, value) :: fields => (quoted name ++ ": " ++ text value) :: textFields fields
end

theorem text_obj (fields : List (String × Json)) : text (.obj fields) ≠ text .null := fun h => by
  have hfirst := congrArg (fun s => s.toList.head?) h
  simp [text] at hfirst

def serverRequest : ServerRequest where
  ctx := ⟨0, false, none, "run"⟩
  event := ⟨[], "", "e", 0⟩
  events := some []
  steps := ∅
  useApi := false

def unreadable : PyError := exception "BodyInvalidError" "body is not a request"

def unbalanced (netloc : List Char) : Option PyError :=
  if ('[' ∈ netloc) = (']' ∈ netloc) then none
  else some (exception "ValueError" "Invalid IPv6 URL")

def runtime : Runtime Unit where
  crypto := cryptography
  clock := clock
  version := "0.5.18"
  text := text
  complaint _ := "Object of type object is not JSON serializable"
  loads _ := none
  hash := hashStepId
  serverRequest body := if body = encode requestText then .ok serverRequest else .error unreadable
  syncRequest _ := .error unreadable
  getBatch _ := .ok (.error unreadable)
  getSteps _ := .ok (.error unreadable)
  stepsFirst := false
  checkNetloc := unbalanced
  environ _ := none
  urljoin origin path := origin ++ path
  send _ := .error "connection refused"
  loggingEnabled := false
  store := ()

def fn (localId : String) (handler : Context → Body Unit)
    (onFailure : Option (Context → Body Unit)) : FunctionOpts Unit where
  localId := localId
  name := localId
  retries := none
  settings := .onFailure
  triggers := []
  handler := handler
  outputType := none
  onFailure := onFailure
  isAsync := true
  middleware := []

def handler (streaming : Streaming) (functions : List (FunctionOpts Unit)) : AppHandler Unit where
  env := none
  mode := .cloud
  framework := .fastApi
  streaming := streaming
  appId := "app"
  appVersion := none
  apiOrigin := "https://api.inngest.com"
  eventApiOrigin := "https://inn.gs"
  eventKey := none
  signingKey := some signingKey
  signingKeyFallback := none
  allowInBandSync := true
  functions := Functions.ofList (functions.map (AppFunction.mk "app"))
  middleware := []
  serializer := none
  keyed _ := rfl

def commRequest (body signature : String) (queryParams : List (String × String)) :
    CommRequest where
  body := encode body
  headers := [(HeaderKey.signature.value, signature)]
  isConnect := false
  publicPath := none
  queryParams := queryParams.foldl (fun d a => d.insert a.1 (.one a.2)) ∅
  requestUrl := "https://example.com/api/inngest"
  serveOrigin := none
  servePath := none
  timing := ""
  streamTiming := ""

end Sample

end Inngest
