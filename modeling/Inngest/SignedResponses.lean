import Inngest.CommHandler

/-!
# What a signature is over

The handler signs a response by the text of its body, and the adapter of the
web framework writes that text later. For a stream there is no body: the
signature is over `null`, and what is written is the stream.
-/

set_option autoImplicit false

namespace Inngest
open ServerLib Errors StepLib Python

/-! ## Adapters -/

inductive Adapter where
  | fastApi
  | flask
  | django
  | tornado
  deriving DecidableEq, Repr

namespace Adapter

def framework : Adapter → Framework
  | fastApi => .fastApi
  | flask => .flask
  | django => .django
  | tornado => .tornado

/-- Only FastAPI's `serve` takes a mode; the others disable streaming. -/
def streaming (adapter : Adapter) (mode : Streaming) : Streaming :=
  match adapter with
  | fastApi => mode
  | flask | django | tornado => .disable

def serve {σ : Type} (adapter : Adapter) (handler : AppHandler σ) : AppHandler σ :=
  { handler with
    framework := adapter.framework
    streaming := adapter.streaming handler.streaming }

theorem streaming_force {adapter : Adapter} {mode : Streaming}
    (h : adapter.streaming mode = .force) : adapter = .fastApi := by
  cases adapter <;> first | rfl | simp [streaming] at h

def toResponse (tools : Toolbox) : Adapter → Served → Response
  | fastApi, served => FastApi.toResponse tools served
  | _, served =>
    let (res, body) := served.toCommResponse.dumped tools
    .full body res.headers res.statusCode

end Adapter

def Chunk.bytes (tools : Toolbox) : Chunk → Bytes
  | .space => encode " "
  | .json value => encode (tools.text value)

namespace Response

def headers : Response → Dict String
  | .full _ headers _ => headers
  | .streaming _ headers _ => headers

def written (tools : Toolbox) (polls : List Bool) : Response → Bytes
  | .full content _ _ => encode content
  | .streaming chunks _ _ => (chunks polls).flatMap (Chunk.bytes tools)

end Response

inductive Method where
  | post
  | postSync
  | getSync
  | put
  | putSync
  deriving DecidableEq, Repr

namespace SignedResponses
variable {σ : Type} (runtime : Runtime σ) (handler : AppHandler σ)

def handle : Method → CommRequest → Raising Served
  | .post => handler.post runtime
  | .postSync => handler.postSync runtime
  | .getSync => handler.getSync runtime
  | .put => handler.put runtime
  | .putSync => handler.putSync runtime

/-- The response is signed, and the signature is good for what is written. -/
def SignedOverWritten (adapter : Adapter) (key : String) (served : Served) : Prop :=
  let response := adapter.toResponse runtime.toolbox served
  (response.headers.lookup HeaderKey.signature.value).isSome = true ∧
    ∀ polls, true ∈ polls →
      Net.validateResponseSig runtime.crypto (response.written runtime.toolbox polls)
        response.headers .cloud key = .ok (.ok (some key))

def Streams (method : Method) (req : CommRequest) : Prop :=
  handler.streaming = .force ∧ method = .post ∧
    ∃ call, handler.plan runtime req = .ok (.call call) ∧ call.fn.opts.isAsync = true

instance (method : Method) (req : CommRequest) : Decidable (Streams runtime handler method req) :=
  match h : handler.plan runtime req with
  | .ok (.call call) => decidable_of_iff
      (handler.streaming = .force ∧ method = .post ∧ call.fn.opts.isAsync = true)
      (by simp [Streams, h])
  | .ok (.respond _) | .error _ => isFalse (by simp [Streams, h])

/-! ## The bodies of responses -/

section Bodies
variable {runtime handler} {req : CommRequest} {key : MaybeError (Option String)}

def Serializable (served : Served) : Prop := served.body.serializable = true

/-- A method's result: its body can be dumped, and a stream, which has none,
ends with an object. -/
structure Made (served : Served) (streams : Prop) : Prop where
  body : Serializable served
  stream : served.stream.isSome = true ↔ streams
  chunks : ∀ chunks, served.stream = some chunks → served.body = .null ∧
    ∃ fields, chunks [true] = [.json (.obj fields)]

theorem Made.plain {served : Served} {streams : Prop}
    (h : Serializable served ∧ served.stream = none) (hno : ¬ streams) : Made served streams where
  body := h.1
  stream := by simp [h.2, hno]
  chunks := by simp [h.2]

theorem planWith_respond {fetch : ServerRequest → Raising (MaybeError AppHandler.RunData)}
    {res : CommResponse} (h : handler.planWith runtime fetch req = .ok (.respond (.ok res))) :
    res = ⟨.null, ∅, 200⟩ := by
  obtain ⟨params, -, h⟩ := Raising.bind_eq_ok.mp h
  split at h
  · simp at h
  · split at h
    · simp only [Except.ok.injEq, Plan.respond.injEq] at h
      exact h.symm
    · split at h
      · simp at h
      · simp at h
      · split at h
        · simp at h
        · obtain ⟨fetched, -, h⟩ := Raising.bind_eq_ok.mp h
          split at h <;> simp at h

theorem answer_served {exchange : Exchange} {call : Call σ} {served : Served}
    (h : handler.answer runtime exchange call = .ok served) :
    Made served (handler.streaming = .force ∧ call.fn.opts.isAsync = true) := by
  have hbody := fun result =>
    Streaming.response_serializable runtime.toolbox handler.toCommHandler exchange result
  rw [AppHandler.answer] at h
  split at h
  · rename_i hasync
    obtain ⟨result, -, h⟩ := Raising.bind_eq_ok.mp h
    obtain rfl := Except.ok.inj h
    rw [CommHandler.post]
    cases handler.streaming with
    | force =>
      refine ⟨rfl, by simp [hasync], fun chunks h => ⟨rfl, ?_⟩⟩
      obtain rfl := Option.some.inj h
      exact ⟨_, rfl⟩
    | disable => exact .plain ⟨hbody result, rfl⟩ (by simp)
  · rename_i hsync
    obtain ⟨result, -, h⟩ := Raising.bind_eq_ok.mp h
    obtain rfl := Except.ok.inj h
    exact .plain ⟨hbody result, rfl⟩ fun hno => hsync hno.2

theorem answerSync_served {exchange : Exchange} {call : Call σ} {served : Served}
    (h : handler.answerSync runtime exchange call = .ok served) :
    Serializable served ∧ served.stream = none := by
  rw [AppHandler.answerSync] at h
  split at h
  · simp at h
  · obtain ⟨result, -, h⟩ := Raising.bind_eq_ok.mp h
    obtain rfl := Except.ok.inj h
    exact ⟨Streaming.response_serializable runtime.toolbox handler.toCommHandler exchange result,
      rfl⟩

theorem postWith_served
    {fetch : ServerRequest → Raising (MaybeError AppHandler.RunData)}
    {answer : Exchange → Call σ → Raising Served} {x : MaybeError Served}
    (h : AppHandler.postWith (handler.planWith runtime fetch) answer req key = .ok x) :
    (Serializable (.ofMaybeError x) ∧ (Served.ofMaybeError x).stream = none ∧
      ∀ call, handler.planWith runtime fetch req ≠ .ok (.call call)) ∨
    ∃ call served, handler.planWith runtime fetch req = .ok (.call call) ∧
      answer (req.exchange key) call = .ok served ∧ Served.ofMaybeError x = served := by
  obtain ⟨plan, hplan, h⟩ := Raising.bind_eq_ok.mp h
  split at h
  · obtain rfl := Except.ok.inj h
    exact .inl ⟨rfl, rfl, by simp [hplan]⟩
  · obtain rfl := Except.ok.inj h
    refine .inl ⟨?_, rfl, by simp [hplan]⟩
    rw [planWith_respond hplan]
    rfl
  · obtain ⟨served, hserved, rfl⟩ := Raising.map_eq_ok.mp h
    exact .inr ⟨_, served, hplan, hserved, rfl⟩

theorem inspect_served {x : MaybeError Served} (h : handler.inspect runtime req key = .ok x) :
    Serializable (.ofMaybeError x) ∧ (Served.ofMaybeError x).stream = none := by
  rw [AppHandler.inspect] at h
  split at h
  · obtain rfl := Except.ok.inj h
    exact ⟨rfl, rfl⟩
  · obtain ⟨inspection, -, h⟩ := Raising.bind_eq_ok.mp h
    obtain rfl := Except.ok.inj h
    exact ⟨(Dumped.obj inspection).serializable, rfl⟩

theorem inBandSync_served {x : MaybeError Served}
    (h : Syncer.inBandSync runtime handler req key = .ok x) :
    Serializable (.ofMaybeError x) ∧ (Served.ofMaybeError x).stream = none := by
  unfold Syncer.inBandSync at h
  split at h
  · obtain rfl := Except.ok.inj h
    exact ⟨rfl, rfl⟩
  · obtain ⟨appUrl, -, h⟩ := Raising.bind_eq_ok.mp h
    split at h
    · obtain rfl := Except.ok.inj h
      exact ⟨rfl, rfl⟩
    · obtain ⟨inspection, -, h⟩ := Raising.bind_eq_ok.mp h
      split at h
      · obtain rfl := Except.ok.inj h
        exact ⟨rfl, rfl⟩
      · obtain rfl := Except.ok.inj h
        exact ⟨Transforms.deepStripNone_serializable _ (Dumped.serializable _), rfl⟩
  · obtain rfl := Except.ok.inj h
    exact ⟨rfl, rfl⟩

theorem createOutOfBandRequest_served {res : CommResponse}
    (h : Syncer.createOutOfBandRequest runtime handler req = .ok (.ok (.inl res))) :
    res.body.serializable = true := by
  obtain ⟨appUrl, -, h⟩ := Raising.bind_eq_ok.mp h
  simp only at h
  split at h
  · simp only [Except.ok.injEq, Sum.inl.injEq] at h
    rw [← h]
    rfl
  · obtain ⟨params, -, h⟩ := Raising.bind_eq_ok.mp h
    split at h <;> simp at h

theorem outOfBandSync_served {x : MaybeError Served}
    (h : Syncer.outOfBandSync runtime handler req = .ok x) :
    Serializable (.ofMaybeError x) ∧ (Served.ofMaybeError x).stream = none := by
  obtain ⟨request, hrequest, h⟩ := Raising.bind_eq_ok.mp h
  split at h
  · obtain rfl := Except.ok.inj h
    exact ⟨rfl, rfl⟩
  · obtain rfl := Except.ok.inj h
    exact ⟨createOutOfBandRequest_served hrequest, rfl⟩
  · obtain ⟨res, -, h⟩ := Raising.bind_eq_ok.mp h
    split at h
    · obtain rfl := Except.ok.inj h
      exact ⟨rfl, rfl⟩
    · rename_i res
      obtain rfl := Except.ok.inj h
      rw [Syncer.parseOutOfBandResponse]
      split
      · exact ⟨rfl, rfl⟩
      · rename_i body _
        split
        · exact ⟨body.serializable, rfl⟩
        · exact ⟨rfl, rfl⟩

theorem sync_served {x : MaybeError Served} (h : Syncer.sync runtime handler req key = .ok x) :
    Serializable (.ofMaybeError x) ∧ (Served.ofMaybeError x).stream = none := by
  unfold Syncer.sync at h
  split at h
  · split at h
    · obtain rfl := Except.ok.inj h
      exact ⟨rfl, rfl⟩
    · obtain rfl := Except.ok.inj h
      exact ⟨rfl, rfl⟩
    · exact inBandSync_served h
  · exact outOfBandSync_served h

end Bodies

/-! ## Signed and written -/

section Signed
variable {runtime handler} {method : Method} {req : CommRequest} {key : String} {served : Served}

theorem wrap_signed {requireSignature : Bool}
    {inner : MaybeError (Option String) → Raising (MaybeError Served)}
    (hkey : handler.requestSigningKey runtime req = .ok (.ok (some key)))
    (h : handler.wrap runtime requireSignature inner req = .ok served) :
    ∃ x, inner (.ok (some key)) = .ok x ∧ served = { Served.ofMaybeError x with
      toCommResponse := handler.wrapHandler runtime.toolbox (req.exchange (.ok (some key)))
        (Served.ofMaybeError x).toCommResponse } := by
  obtain ⟨k, hk, h⟩ := Raising.bind_eq_ok.mp h
  obtain rfl := Except.ok.inj (hkey.symm.trans hk)
  obtain ⟨x, hx, h⟩ := Raising.bind_eq_ok.mp h
  exact ⟨x, hx, (Except.ok.inj h).symm⟩

theorem handle_signed (hkey : handler.requestSigningKey runtime req = .ok (.ok (some key)))
    (h : handle runtime handler method req = .ok served) :
    ∃ res, Made res (Streams runtime handler method req) ∧
      served = { res with
        toCommResponse := handler.wrapHandler runtime.toolbox (req.exchange (.ok (some key)))
          res.toCommResponse } := by
  cases method with
  | post =>
    obtain ⟨x, hx, rfl⟩ := wrap_signed hkey h
    rcases postWith_served hx with ⟨hbody, hstream, hcall⟩ | ⟨call, served, hplan, hserved, hx⟩
    · exact ⟨_, .plain ⟨hbody, hstream⟩ (fun hno => by
        obtain ⟨-, -, call, hplan, -⟩ := hno
        exact hcall call hplan), rfl⟩
    · have hmade := answer_served hserved
      have hcall : handler.plan runtime req = .ok (.call call) := hplan
      rw [hx]
      exact ⟨_, ⟨hmade.body, by simp [hmade.stream, Streams, hcall], hmade.chunks⟩, rfl⟩
  | postSync =>
    obtain ⟨x, hx, rfl⟩ := wrap_signed hkey h
    refine ⟨_, .plain ?_ (fun hno => nomatch hno.2.1), rfl⟩
    rcases postWith_served hx with ⟨hbody, hstream, -⟩ | ⟨call, served, -, hserved, hx⟩
    · exact ⟨hbody, hstream⟩
    · rw [hx]
      exact answerSync_served hserved
  | getSync =>
    obtain ⟨x, hx, rfl⟩ := wrap_signed hkey h
    exact ⟨_, .plain (inspect_served hx) (fun hno => nomatch hno.2.1), rfl⟩
  | put =>
    obtain ⟨x, hx, rfl⟩ := wrap_signed hkey h
    exact ⟨_, .plain (sync_served hx) (fun hno => nomatch hno.2.1), rfl⟩
  | putSync =>
    obtain ⟨x, hx, rfl⟩ := wrap_signed hkey h
    exact ⟨_, .plain (sync_served hx) (fun hno => nomatch hno.2.1), rfl⟩

variable (runtime handler req key)

theorem lookup_signature {res : Served} (hbody : Serializable res) :
    (handler.wrapHandler runtime.toolbox (req.exchange (.ok (some key)))
      res.toCommResponse).headers.lookup HeaderKey.signature.value =
      some (Net.signResponse runtime.crypto runtime.clock (encode (runtime.text res.body))
        key) := by
  have hdump : Transforms.dumpJson runtime.toolbox res.body = .ok (runtime.text res.body) := by
    exact if_pos hbody
  have hkey : (req.exchange (.ok (some key))).signingKey = some key := rfl
  simp only [CommHandler.wrapHandler, hkey, CommResponse.sign, hdump, Except.map,
    CommResponse.withHeader]
  exact AList.lookup_insert _

theorem wrapHandler_body (res : CommResponse) :
    (handler.wrapHandler runtime.toolbox (req.exchange (.ok (some key))) res).body = res.body :=
  (handler.wrapHandler_spec runtime.toolbox (req.exchange (.ok (some key))) res).1

variable {runtime handler req key}

theorem toResponse_plain {adapter : Adapter} {served : Served}
    (hbody : Serializable served) (hstream : served.stream = none) :
    adapter.toResponse runtime.toolbox served =
      .full (runtime.text served.body) served.headers served.statusCode := by
  have hdump : served.toCommResponse.dumped runtime.toolbox =
      (served.toCommResponse, runtime.text served.body) :=
    CommResponse.dumped_serializable hbody
  cases adapter <;> simp only [Adapter.toResponse, FastApi.toResponse, hstream, hdump]

theorem accepted_of_plain {adapter : Adapter} {served : Served} (hbody : Serializable served)
    (hstream : served.stream = none)
    (hlookup : served.headers.lookup HeaderKey.signature.value = some
      (Net.signResponse runtime.crypto runtime.clock (encode (runtime.text served.body)) key)) :
    SignedOverWritten runtime adapter key served := by
  rw [SignedOverWritten]
  simp only [toResponse_plain hbody hstream]
  refine ⟨by rw [Response.headers, hlookup]; rfl, fun polls _ => ?_⟩
  rw [Response.headers, Net.validateResponseSig_signed hlookup, Response.written, if_pos rfl]

theorem rejected_of_stream (hmac : ∀ key, Function.Injective (runtime.crypto.hmac key))
    (htext : ∀ fields, runtime.text (.obj fields) ≠ runtime.text .null) {wrapped : CommResponse}
    {chunks : List Bool → List Chunk} {fields : List (String × Json)}
    (hchunks : chunks [true] = [.json (.obj fields)])
    (hlookup : wrapped.headers.lookup HeaderKey.signature.value = some
      (Net.signResponse runtime.crypto runtime.clock (encode (runtime.text .null)) key)) :
    ¬ SignedOverWritten runtime .fastApi key ⟨wrapped, some chunks⟩ := by
  have hwritten : (Response.streaming chunks wrapped.headers wrapped.statusCode).written
      runtime.toolbox [true] = encode (runtime.text (.obj fields)) := by
    simp [Response.written, hchunks, Chunk.bytes, Runtime.toolbox]
  rintro ⟨-, h⟩
  have hsent : Net.validateResponseSig runtime.crypto
      ((Response.streaming chunks wrapped.headers wrapped.statusCode).written runtime.toolbox
        [true]) wrapped.headers .cloud key = .ok (.ok (some key)) := h [true] (by simp)
  rw [hwritten, Net.validateResponseSig_signed hlookup] at hsent
  split at hsent
  · rename_i hdigest
    exact htext fields (encode_injective (List.append_cancel_right (hmac _ hdigest))).symm
  · simp at hsent

section
variable {adapter : Adapter} (hmac : ∀ key, Function.Injective (runtime.crypto.hmac key))
  (htext : ∀ fields, runtime.text (.obj fields) ≠ runtime.text .null)
  (hkey : (adapter.serve handler).requestSigningKey runtime req = .ok (.ok (some key)))
  (hserve : handle runtime (adapter.serve handler) method req = .ok served)

include hkey hserve

theorem isSome_signature :
    (served.headers.lookup HeaderKey.signature.value).isSome = true := by
  obtain ⟨res, hmade, rfl⟩ := handle_signed hkey hserve
  rw [lookup_signature runtime _ req key hmade.body]
  rfl

theorem accepted_plain (hplain : ¬ Streams runtime (adapter.serve handler) method req) :
    SignedOverWritten runtime adapter key served := by
  obtain ⟨res, hmade, rfl⟩ := handle_signed hkey hserve
  have hstream : res.stream = none := by
    rwa [← hmade.stream, Option.isSome_iff_ne_none, not_not] at hplain
  have hlookup := lookup_signature runtime (adapter.serve handler) req key hmade.body
  have hbody := wrapHandler_body runtime (adapter.serve handler) req key res.toCommResponse
  rw [← hbody] at hlookup
  refine accepted_of_plain ?_ hstream hlookup
  rw [Serializable, hbody]
  exact hmade.body

include hmac htext

theorem refused_stream (hstreams : Streams runtime (adapter.serve handler) method req) :
    ¬ SignedOverWritten runtime adapter key served := by
  obtain ⟨res, hmade, rfl⟩ := handle_signed hkey hserve
  obtain ⟨chunks, hstream⟩ := Option.isSome_iff_exists.mp (hmade.stream.mpr hstreams)
  obtain ⟨hnull, fields, hchunks⟩ := hmade.chunks chunks hstream
  have hlookup := lookup_signature runtime (adapter.serve handler) req key hmade.body
  rw [hnull] at hlookup
  obtain rfl := Adapter.streaming_force hstreams.1
  rw [hstream]
  exact rejected_of_stream hmac htext hchunks hlookup

/-- With a MAC that does not collide, the signature of a response to a signed
request is good for what is written exactly when that is not a stream. -/
theorem signed_over_written_iff :
    SignedOverWritten runtime adapter key served ↔
      ¬ Streams runtime (adapter.serve handler) method req :=
  ⟨fun hsigned hstreams => refused_stream hmac htext hkey hserve hstreams hsigned,
    accepted_plain hkey hserve⟩

end

end Signed

/-! A request that calls a function, and one that only probes. -/

def greet : FunctionOpts Unit := Sample.fn "f" (fun _ => .ret (.str "Hi")) none

def called : CommRequest :=
  Sample.commRequest Sample.requestText
    "t=1700000000&s=b36af9b23e7807ab714ae3a8d4262b768b4a6bb4d997aa46e49e679f186b66e6"
    [("fnId", "app-f"), ("stepId", "step")]

def probed : CommRequest :=
  Sample.commRequest ""
    "t=1700000000&s=bc0d01944fc78212f8a7877f1a45c6a872f2db95db27e173659daa2c949a1c75"
    [("probe", "trust")]

/-- The signature of a stream is refused for what the stream says. -/
theorem streamed_signature_refused :
    (Adapter.fastApi.serve (Sample.handler .force [greet])).requestSigningKey Sample.runtime
        called = .ok (.ok (some Sample.signingKey)) ∧
      ∃ served, handle Sample.runtime (Adapter.fastApi.serve (Sample.handler .force [greet]))
          .post called = .ok served ∧
        (served.headers.lookup HeaderKey.signature.value).isSome = true ∧
        ¬ SignedOverWritten Sample.runtime .fastApi Sample.signingKey served := by
  have hkey : (Adapter.fastApi.serve (Sample.handler .force [greet])).requestSigningKey
      Sample.runtime called = .ok (.ok (some Sample.signingKey)) := by decide +kernel
  have hserve : (handle Sample.runtime (Adapter.fastApi.serve (Sample.handler .force [greet]))
      .post called).isOk = true := by decide +kernel
  obtain ⟨served, hserve⟩ := Raising.exists_ok hserve
  exact ⟨hkey, served, hserve, isSome_signature hkey hserve,
    refused_stream Sample.mac_injective Sample.text_obj hkey hserve (by decide +kernel)⟩

theorem signed_over_written_iff_probed :
    ∃ served, handle Sample.runtime (Adapter.fastApi.serve (Sample.handler .force [greet]))
        .post probed = .ok served ∧
      SignedOverWritten Sample.runtime .fastApi Sample.signingKey served := by
  have hserve : (handle Sample.runtime (Adapter.fastApi.serve (Sample.handler .force [greet]))
      .post probed).isOk = true := by decide +kernel
  obtain ⟨served, hserve⟩ := Raising.exists_ok hserve
  exact ⟨served, hserve, (signed_over_written_iff Sample.mac_injective Sample.text_obj
    (by decide +kernel) hserve).mpr (by decide +kernel)⟩

end SignedResponses

end Inngest
