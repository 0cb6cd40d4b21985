import Inngest.Response

/-!
# Streamed responses

`CommHandler.post` either waits for the call result or hands out a stream: a
space now and then, and at the end one object that wraps the response. What it
returns goes through `wrap_handler` and the adapter of the framework. FastAPI
is the one adapter that lets a stream through.
-/

set_option autoImplicit false

namespace Inngest
open ServerLib Errors

/-! ## Headers -/

def Transforms.getServerKind (headers : Dict String) : Except PyError (Option ServerKind) :=
  match headers.lookup HeaderKey.serverKind.value with
  | none => .ok none
  | some value =>
    match ServerKind.ofValue value with
    | some kind => .ok (some kind)
    | none => .error (exception "Exception" ("invalid server kind: " ++ value))

/-- `net.create_headers`, in a given version of the package. -/
def Net.createHeaders (version : String) (env : Option String) (framework : Option Framework)
    (serverKind : Option ServerKind) : Dict String :=
  let headers : Dict String :=
    AList.insert HeaderKey.userAgent.value ("inngest-py:v" ++ version)
      (AList.insert HeaderKey.requestVersion.value preferredExecutionVersion
        (AList.insert HeaderKey.sdk.value ("inngest-py:v" ++ version)
          (AList.insert HeaderKey.contentType.value "application/json" ∅)))
  let headers := env.elim headers (headers.insert HeaderKey.env.value ·)
  let headers := framework.elim headers (headers.insert HeaderKey.framework.value ·.value)
  serverKind.elim headers (headers.insert HeaderKey.expectedServerKind.value ·.value)

def Dict.merge {α : Type} (headers others : Dict α) : Dict α := others ∪ headers

/-! ## The pipeline -/

/-- What the responses are made with: the version of the package, the text of
`json.dumps` where it accepts a value and its complaint where it does not, and
`net.sign_response`. -/
structure Toolbox where
  version : String
  text : Json → String
  complaint : Json → String
  signResponse : (body signingKey : String) → String

inductive Streaming where
  | disable
  | force
  deriving DecidableEq, Repr

inductive Chunk where
  | space
  | json (value : Json)
  deriving DecidableEq

/-- A `CommResponse` with its `stream`. The stream sees how the tests for the
task's completion come out, one after the other. -/
structure Served extends CommResponse where
  stream : Option (List Bool → List Chunk)

structure CommHandler where
  env : Option String
  mode : ServerKind
  framework : Framework
  streaming : Streaming

/-- A request on its way: its headers, the key its signature was validated
with, and what the timings are when the headers are written. -/
structure Exchange where
  headers : Dict String
  signingKey : Option String
  timing : String
  streamTiming : String

section Pipeline
variable (tools : Toolbox)

def Transforms.dumpJson (obj : Json) : Except PyError String :=
  if obj.serializable then .ok (tools.text obj)
  else .error (outputUnserializableError (tools.complaint obj))

namespace CommResponse

def dumped (res : CommResponse) : CommResponse × String :=
  match Transforms.dumpJson tools res.body with
  | .ok body => (res, body)
  | .error e => (fromError e, tools.text (fromError e).body)

def withHeader (res : CommResponse) (key : HeaderKey) (value : String) : CommResponse :=
  { res with headers := res.headers.insert key.value value }

def sign (res : CommResponse) (signingKey : String) : Except PyError CommResponse :=
  (Transforms.dumpJson tools res.body).map fun body =>
    res.withHeader .signature (tools.signResponse body signingKey)

def wrapped (res : CommResponse) (body : String) : Json :=
  .obj [("body", .str body),
    ("headers", .obj (res.headers.entries.map fun entry => (entry.1, .str entry.2))),
    ("status", .int res.statusCode)]

def stream (res : CommResponse) (timing : String) : List Bool → List Chunk
  | [] => []
  | false :: polls => .space :: stream res timing polls
  | true :: _ =>
    let (res, body) := res.dumped tools
    [.json ((res.withHeader .serverTiming timing).wrapped body)]

end CommResponse

/-- A server kind that cannot be read is logged and dropped. -/
def Exchange.serverKind (exchange : Exchange) : Option ServerKind :=
  match Transforms.getServerKind exchange.headers with
  | .ok kind => kind
  | .error _ => none

namespace CommHandler
variable (handler : CommHandler)

def createHeaders (serverKind : Option ServerKind) : Dict String :=
  Net.createHeaders tools.version handler.env (some handler.framework) serverKind

/-- The end of `post`, for an `async` function whose call gives `result`. -/
def post (exchange : Exchange) (result : CallResult) : Served :=
  let headers := handler.createHeaders tools exchange.serverKind
  let res := CommResponse.fromCallResult headers result
  match handler.streaming with
  | .force => ⟨⟨.null, headers, 201⟩, some (res.stream tools exchange.streamTiming)⟩
  | .disable => ⟨res, none⟩

def wrapHandler (exchange : Exchange) (res : CommResponse) : CommResponse :=
  let res := { res with
    headers := (res.headers.merge (handler.createHeaders tools (some handler.mode))).insert
      HeaderKey.serverTiming.value exchange.timing }
  match exchange.signingKey with
  | none => res
  | some signingKey =>
    match res.sign tools signingKey with
    | .ok res => res
    | .error _ => res

end CommHandler

inductive Response where
  | full (content : String) (headers : Dict String) (statusCode : ℕ)
  | streaming (chunks : List Bool → List Chunk) (headers : Dict String) (statusCode : ℕ)

namespace FastApi

def toResponse (served : Served) : Response :=
  match served.stream with
  | some chunks => .streaming chunks served.headers served.statusCode
  | none =>
    let (res, body) := served.toCommResponse.dumped tools
    .full body res.headers res.statusCode

end FastApi

def CommHandler.serve (handler : CommHandler) (exchange : Exchange) (result : CallResult) :
    Response :=
  let served := handler.post tools exchange result
  FastApi.toResponse tools { served with
    toCommResponse := handler.wrapHandler tools exchange served.toCommResponse }

end Pipeline

/-! ## What the pieces do -/

theorem Dict.lookup_insert_header (d : Dict String) (key key' : HeaderKey) (value : String) :
    (d.insert key.value value).lookup key'.value =
      if key' = key then some value else d.lookup key'.value := by
  by_cases h : key' = key
  · rw [h, if_pos rfl, AList.lookup_insert]
  · rw [if_neg h, AList.lookup_insert_ne fun hv => h (HeaderKey.value_injective hv)]

theorem Dict.lookup_merge {α : Type} (a b : Dict α) (key : String) :
    (a.merge b).lookup key = (b.lookup key).or (a.lookup key) := by
  by_cases h : key ∈ b
  · obtain ⟨v, hv⟩ := Option.isSome_iff_exists.mp (AList.lookup_isSome.mpr h)
    rw [Dict.merge, AList.lookup_union_left h, hv, Option.some_or]
  · rw [Dict.merge, AList.lookup_union_right h, AList.lookup_eq_none.mpr h, Option.none_or]

namespace Net

theorem lookup_createHeaders (version : String) (env : Option String)
    (framework : Option Framework) (kind : Option ServerKind) (key : HeaderKey) :
    (createHeaders version env framework kind).lookup key.value =
      match key with
      | .contentType => some "application/json"
      | .sdk | .userAgent => some ("inngest-py:v" ++ version)
      | .requestVersion => some preferredExecutionVersion
      | .env => env
      | .framework => framework.map Framework.value
      | .expectedServerKind => kind.map ServerKind.value
      | _ => none := by
  cases env <;> cases framework <;> cases kind <;> cases key <;>
    simp [createHeaders, Dict.lookup_insert_header, -AList.insert_empty]

end Net

namespace CommResponse
variable {tools : Toolbox} {res : CommResponse} {timing : String}

theorem dumped_serializable (h : res.body.serializable = true) :
    res.dumped tools = (res, tools.text res.body) := by
  rw [dumped, Transforms.dumpJson, if_pos h]

theorem stream_eq (polls : List Bool) :
    res.stream tools timing polls =
      List.replicate (polls.takeWhile (· = false)).length .space ++
        if true ∈ polls then res.stream tools timing [true] else [] := by
  induction polls with
  | nil => rfl
  | cons poll polls ih =>
    cases poll with
    | false => simpa [stream, List.replicate_succ] using ih
    | true => simp [stream]

theorem lookup_extended {headers : Dict String} (set : Bool) (after : Option String) {key : String}
    (hn : key ≠ HeaderKey.noRetry.value) (hr : key ≠ HeaderKey.retryAfter.value) :
    (after.elim (withNoRetry set headers)
      ((withNoRetry set headers).insert "retry-after" ·)).lookup key = headers.lookup key := by
  have hset : (withNoRetry set headers).lookup key = headers.lookup key := by
    cases set with
    | false => rfl
    | true => exact AList.lookup_insert_ne hn
  cases after with
  | none => exact hset
  | some value => exact (AList.lookup_insert_ne hr).trans hset

theorem below_extended {headers : Dict String} (set : Bool) (after : Option String)
    (hn : headers.lookup HeaderKey.noRetry.value = none)
    (hr : headers.lookup HeaderKey.retryAfter.value = none) :
    Dict.Below headers (after.elim (withNoRetry set headers)
      ((withNoRetry set headers).insert "retry-after" ·)) := by
  intro key v hv
  rwa [lookup_extended]
  · rintro rfl
    simp [hn] at hv
  · rintro rfl
    simp [hr] at hv

theorem field_headers (headers : Dict String) (key : String) :
    Json.field (headers.entries.map fun entry => (entry.1, Json.str entry.2)) key =
      (headers.lookup key).map Json.str := by
  rw [AList.lookup]
  induction headers.entries with
  | nil => rfl
  | cons entry entries ih =>
    obtain ⟨k, v⟩ := entry
    by_cases h : k = key
    · subst h
      simp [Json.field]
    · have hne : key ≠ (⟨k, v⟩ : (_ : String) × String).1 := Ne.symm h
      simp [Json.field, h, ih, List.dlookup_cons_ne _ _ hne]

end CommResponse

theorem Exchange.serverKind_eq_some {exchange : Exchange} {kind : ServerKind} :
    exchange.serverKind = some kind ↔
      exchange.headers.lookup HeaderKey.serverKind.value = some kind.value := by
  cases hl : exchange.headers.lookup HeaderKey.serverKind.value with
  | none => simp [serverKind, Transforms.getServerKind, hl]
  | some value =>
    rw [Option.some.injEq, ← ServerKind.ofValue_eq_some]
    cases hk : ServerKind.ofValue value <;> simp [serverKind, Transforms.getServerKind, hl, hk]

section Handler
variable (tools : Toolbox) (handler : CommHandler) (exchange : Exchange) (result : CallResult)

theorem CommHandler.wrapHandler_spec (res : CommResponse) :
    (handler.wrapHandler tools exchange res).body = res.body ∧
      (handler.wrapHandler tools exchange res).statusCode = res.statusCode ∧
      ∀ key, key ≠ HeaderKey.serverTiming.value → key ≠ HeaderKey.signature.value →
        (handler.wrapHandler tools exchange res).headers.lookup key =
          ((handler.createHeaders tools (some handler.mode)).lookup key).or
            (res.headers.lookup key) := by
  cases hk : exchange.signingKey with
  | none =>
    simp only [wrapHandler, hk]
    refine ⟨trivial, trivial, fun key ht _ => ?_⟩
    rw [AList.lookup_insert_ne ht, Dict.lookup_merge]
  | some signingKey =>
    cases hd : Transforms.dumpJson tools res.body with
    | ok body =>
      simp only [wrapHandler, hk, CommResponse.sign, hd, Except.map, CommResponse.withHeader]
      refine ⟨trivial, trivial, fun key ht hs => ?_⟩
      rw [AList.lookup_insert_ne hs, AList.lookup_insert_ne ht, Dict.lookup_merge]
    | error e =>
      simp only [wrapHandler, hk, CommResponse.sign, hd, Except.map]
      refine ⟨trivial, trivial, fun key ht _ => ?_⟩
      rw [AList.lookup_insert_ne ht, Dict.lookup_merge]

end Handler

/-! ## The streamed and the plain response -/

namespace Streaming

/-- The object holds the response, but for two headers. -/
def Wraps (value : Json) : Response → Prop
  | .full content headers statusCode =>
    ∃ fields entries, value = .obj fields ∧
      Json.field fields "body" = some (.str content) ∧
      Json.field fields "status" = some (.int statusCode) ∧
      Json.field fields "headers" = some (.obj entries) ∧
      ∀ key, key ≠ HeaderKey.serverTiming.value → key ≠ HeaderKey.signature.value →
        Json.field entries key = (headers.lookup key).map .str
  | .streaming _ _ _ => False

/-- Forced to stream, the handler sends spaces until the task is done and then
the response it would have given otherwise. -/
def Transparent (tools : Toolbox) (handler : CommHandler) (exchange : Exchange)
    (result : CallResult) : Prop :=
  ∃ chunks headers statusCode,
    { handler with streaming := .force }.serve tools exchange result =
      .streaming chunks headers statusCode ∧
    ∀ polls, true ∈ polls → ∃ spaces value,
      chunks polls = List.replicate spaces .space ++ [.json value] ∧
      Wraps value ({ handler with streaming := .disable }.serve tools exchange result)

section
variable (tools : Toolbox) (handler : CommHandler) (exchange : Exchange) (result : CallResult)

/-- The response that both ways of answering begin with. -/
def response : CommResponse :=
  CommResponse.fromCallResult (handler.createHeaders tools exchange.serverKind) result

theorem response_serializable :
    (response tools handler exchange result).body.serializable = true := by
  cases h : CommResponse.prepares result with
  | true => exact (CommResponse.fromCallResult_prepares _ h).1
  | false =>
    obtain ⟨e, he⟩ := CommResponse.fromCallResult_refused
      (handler.createHeaders tools exchange.serverKind) h
    rw [response, he]
    exact CommResponse.fromError_serializable e

theorem serve_force :
    { handler with streaming := .force }.serve tools exchange result =
      .streaming ((response tools handler exchange result).stream tools exchange.streamTiming)
        (handler.wrapHandler tools exchange
          ⟨.null, handler.createHeaders tools exchange.serverKind, 201⟩).headers 201 := by
  have hstatus := (handler.wrapHandler_spec tools exchange
    ⟨.null, handler.createHeaders tools exchange.serverKind, 201⟩).2.1
  exact congrArg (Response.streaming _ _) hstatus

theorem serve_disable :
    { handler with streaming := .disable }.serve tools exchange result =
      .full (tools.text (response tools handler exchange result).body)
        (handler.wrapHandler tools exchange (response tools handler exchange result)).headers
        (response tools handler exchange result).statusCode := by
  obtain ⟨hbody, hstatus, -⟩ := handler.wrapHandler_spec tools exchange
    (response tools handler exchange result)
  have hs : (handler.wrapHandler tools exchange
      (response tools handler exchange result)).body.serializable = true := by
    rw [hbody]
    exact response_serializable tools handler exchange result
  have hd : (handler.wrapHandler tools exchange
      (response tools handler exchange result)).dumped tools = _ :=
    CommResponse.dumped_serializable hs
  rw [hbody] at hd
  change (match (handler.wrapHandler tools exchange
    (response tools handler exchange result)).dumped tools with
    | (res, body) => Response.full body res.headers res.statusCode) = _
  rw [hd]
  exact congrArg (Response.full _ _) hstatus

def final : Json :=
  ((response tools handler exchange result).withHeader .serverTiming
    exchange.streamTiming).wrapped (tools.text (response tools handler exchange result).body)

theorem stream_done (polls : List Bool) (h : true ∈ polls) :
    (response tools handler exchange result).stream tools exchange.streamTiming polls =
      List.replicate (polls.takeWhile (· = false)).length .space ++
        [.json (final tools handler exchange result)] := by
  rw [CommResponse.stream_eq, if_pos h, CommResponse.stream,
    CommResponse.dumped_serializable (response_serializable tools handler exchange result)]
  rfl

/-- Body and status are always those of the plain response. The headers are,
if they include all that `wrap_handler` sets. -/
theorem wraps_iff :
    Wraps (final tools handler exchange result)
        ({ handler with streaming := .disable }.serve tools exchange result) ↔
      Dict.Below (handler.createHeaders tools (some handler.mode))
        (response tools handler exchange result).headers := by
  have hplain := (handler.wrapHandler_spec tools exchange
    (response tools handler exchange result)).2.2
  have hfinal : ∀ key, key ≠ HeaderKey.serverTiming.value →
      Json.field (((response tools handler exchange result).headers.insert
          HeaderKey.serverTiming.value exchange.streamTiming).entries.map
        fun entry => (entry.1, Json.str entry.2)) key =
        ((response tools handler exchange result).headers.lookup key).map .str := by
    intro key hkey
    rw [CommResponse.field_headers, AList.lookup_insert_ne hkey]
  rw [serve_disable]
  constructor
  · rintro ⟨fields, entries, hvalue, -, -, hentries, heq⟩ key v hv
    have ht : key ≠ HeaderKey.serverTiming.value := by
      rintro rfl
      simp [CommHandler.createHeaders, Net.lookup_createHeaders] at hv
    have hs : key ≠ HeaderKey.signature.value := by
      rintro rfl
      simp [CommHandler.createHeaders, Net.lookup_createHeaders] at hv
    obtain rfl := Json.obj.inj hvalue
    obtain rfl := Json.obj.inj (Option.some.inj hentries)
    have hkey := heq key ht hs
    rw [hplain key ht hs, hv, Option.some_or] at hkey
    exact Option.map_injective (fun _ _ => Json.str.inj) ((hfinal key ht).symm.trans hkey)
  · intro hbelow
    refine ⟨_, _, rfl, rfl, rfl, rfl, fun key ht hs => (hfinal key ht).trans ?_⟩
    rw [hplain key ht hs]
    cases hv : (handler.createHeaders tools (some handler.mode)).lookup key with
    | none => rw [Option.none_or]
    | some v => rw [Option.some_or, hbelow key v hv]

theorem transparent_iff_below :
    Transparent tools handler exchange result ↔
      Dict.Below (handler.createHeaders tools (some handler.mode))
        (response tools handler exchange result).headers := by
  rw [← wraps_iff]
  constructor
  · rintro ⟨chunks, headers, statusCode, hserve, hchunks⟩
    rw [serve_force] at hserve
    obtain ⟨rfl, -, -⟩ := Response.streaming.inj hserve
    obtain ⟨spaces, value, hdone, hwraps⟩ := hchunks [true] (by simp)
    rw [stream_done tools handler exchange result [true] (by simp)] at hdone
    have hlast := congrArg List.getLast? hdone
    simp only [List.getLast?_append, List.getLast?_singleton, Option.some_or, Option.some.injEq,
      Chunk.json.injEq] at hlast
    rwa [hlast]
  · intro h
    refine ⟨_, _, _, serve_force tools handler exchange result, fun polls hp => ?_⟩
    exact ⟨_, _, stream_done tools handler exchange result polls hp, h⟩

/-- An error response lacks most of the headers, and any other response has
those that fit the server kind of the request. -/
theorem below_iff :
    Dict.Below (handler.createHeaders tools (some handler.mode))
        (response tools handler exchange result).headers ↔
      CommResponse.prepares result = true ∧ exchange.serverKind = some handler.mode := by
  cases hp : CommResponse.prepares result with
  | false =>
    obtain ⟨e, he⟩ := CommResponse.fromCallResult_refused
      (handler.createHeaders tools exchange.serverKind) hp
    refine iff_of_false (fun hbelow => ?_) (by simp)
    have hsdk := hbelow HeaderKey.sdk.value _ (Net.lookup_createHeaders _ _ _ _ .sdk)
    have hnone : (CommResponse.fromError e).headers.lookup HeaderKey.sdk.value = none := rfl
    rw [response, he, hnone] at hsdk
    simp at hsdk
  | true =>
    obtain ⟨-, set, after, hheaders⟩ := CommResponse.fromCallResult_prepares
      (handler.createHeaders tools exchange.serverKind) hp
    constructor
    · intro hbelow
      have hkind := hbelow HeaderKey.expectedServerKind.value handler.mode.value
        (Net.lookup_createHeaders _ _ _ _ .expectedServerKind)
      rw [response, hheaders, CommResponse.lookup_extended set after (by decide) (by decide),
        CommHandler.createHeaders, Net.lookup_createHeaders] at hkind
      exact ⟨rfl, Option.map_injective ServerKind.value_injective hkind⟩
    · rintro ⟨-, hkind⟩
      rw [response, hheaders, hkind]
      refine CommResponse.below_extended set after ?_ ?_
      · exact Net.lookup_createHeaders _ _ _ _ .noRetry
      · exact Net.lookup_createHeaders _ _ _ _ .retryAfter

/-- Streaming is transparent exactly for a result that can be dumped and a
request that carries the server kind the client runs in. -/
theorem streaming_transparent_iff :
    Transparent tools handler exchange result ↔
      CommResponse.prepares result = true ∧
        exchange.headers.lookup HeaderKey.serverKind.value = some handler.mode.value := by
  rw [transparent_iff_below, below_iff, Exchange.serverKind_eq_some]

end

/-! Two requests to a client in development mode, streamed and not. -/

def tools : Toolbox where
  version := "0.5.18"
  text
    | .str s => "\"" ++ s ++ "\""
    | _ => "..."
  complaint _ := "Object of type object is not JSON serializable"
  signResponse _ _ := "t=0&s=0"

def handler : CommHandler where
  env := none
  mode := .devServer
  framework := .fastApi
  streaming := .disable

def exchange (headers : Dict String) : Exchange where
  headers := headers
  signingKey := none
  timing := ""
  streamTiming := ""

/-- An output that cannot be dumped costs the stream most of its headers, and
so does a request without a server kind the one that names it. -/
theorem streamed_headers_missing :
    ¬ Transparent tools handler
        (exchange (AList.singleton HeaderKey.serverKind.value ServerKind.devServer.value))
        (CallResult.ofOutput (.other "object")) ∧
      ¬ Transparent tools handler (exchange ∅) (CallResult.ofOutput (.str "Hi")) := by
  rw [transparent_iff_below, transparent_iff_below]
  constructor
  · intro h
    exact absurd (h HeaderKey.sdk.value "inngest-py:v0.5.18" (by decide)) (by decide)
  · intro h
    exact absurd (h HeaderKey.expectedServerKind.value "dev" (by decide)) (by decide)

end Streaming

end Inngest
