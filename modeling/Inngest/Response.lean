import Inngest.Request

/-!
# From a call result to a response

`Function.call` hands the result of an execution to the `transform_output`
hooks and then runs `before_response`. `CommResponse.from_call_result` makes
the body that the executor reads.
-/

set_option autoImplicit false

namespace Inngest
open ServerLib Errors StepLib Effect Engine

/-! ## `MiddlewareManager.transform_output` -/

namespace CallItem

def isEmpty (item : CallItem) : Bool := item.error.isNone ∧ item.output.isNone ∧ item.step.isNone

def toTransform (item : CallItem) : TransformOutputResult where
  error := item.error
  output := item.output
  step := item.step.map fun info => ⟨info.displayName, info.op, info.opts⟩

/-- What is kept of the changes they made: the error, the output, and the
options, which the hooks share with the result. -/
def update (item : CallItem) (result : TransformOutputResult) : CallItem where
  error := result.error
  output := result.output
  step := item.step.map fun info =>
    { info with opts := result.step.elim info.opts TransformOutputStepInfo.opts }

theorem update_toTransform (item : CallItem) : item.update item.toTransform = item := by
  obtain ⟨error, output, _ | info⟩ := item <;> rfl

end CallItem

namespace MiddlewareManager
variable {σ : Type} (flavor : Flavor) (ms : List (Middleware σ))

def transformItem (item : CallItem) : Exec σ (Except PyError CallItem) :=
  if item.isEmpty then pure (.ok item)
  else do
    match ← transformOutputHooks flavor ms item.toTransform with
    | .error e => pure (.error e)
    | .ok result => pure (.ok (item.update result))

/-- The hooks see a single result only; an empty `multi` raises. -/
def transformOutput (result : CallResult) : Exec σ (Except PyError CallResult) :=
  match result.multi with
  | some [] => Comp.raise (exception "IndexError" "list index out of range")
  | some [item] => do
    match ← transformItem flavor ms item with
    | .error e => pure (.error e)
    | .ok item => pure (.ok { result with multi := some [item] })
  | some (_ :: _ :: _) => pure (.ok result)
  | none => do
    match ← transformItem flavor ms result.toCallItem with
    | .error e => pure (.error e)
    | .ok item => pure (.ok { result with toCallItem := item })

variable {flavor ms} {result : CallResult} {r : Scope} {s t : State σ} {x : Except PyError CallItem}

theorem transformOutput_none (h : result.multi = none)
    (ht : transformItem flavor ms result.toCallItem r s = ⟨.ok x, t, []⟩) :
    transformOutput flavor ms result r s = ⟨.ok (x.map (⟨·, none⟩)), t, []⟩ := by
  rw [transformOutput, h]
  simp only
  rw [Comp.bind_ok (by rw [ht]), ht]
  cases x <;> rfl

theorem transformOutput_one {item : CallItem} (h : result.multi = some [item])
    (ht : transformItem flavor ms item r s = ⟨.ok x, t, []⟩) :
    transformOutput flavor ms result r s =
      ⟨.ok (x.map fun item => ⟨result.toCallItem, some [item]⟩), t, []⟩ := by
  rw [transformOutput, h]
  simp only
  rw [Comp.bind_ok (by rw [ht]), ht]
  cases x <;> rfl

theorem transformOutput_several {first second : CallItem} {rest : List CallItem}
    (h : result.multi = some (first :: second :: rest)) :
    transformOutput flavor ms result r s = ⟨.ok (.ok result), s, []⟩ := by
  rw [transformOutput, h]
  rfl

end MiddlewareManager

/-! ## `Function.call` -/

structure Function (σ : Type) where
  id : String
  handler : Context → Body σ
  outputType : Option OutputType
  onFailure : Option (Context → Body σ)

namespace Function
variable {σ : Type} (env : Env σ) (fn : Function σ) (fnId : String)

def onFailureFnId : Option String := fn.onFailure.map fun _ => fn.id ++ "-failure"

def select : Except PyError ((Context → Body σ) × Option OutputType) :=
  if fn.id = fnId then .ok (fn.handler, fn.outputType)
  else if fn.onFailureFnId = some fnId then
    match fn.onFailure with
    | none => .error (functionNotFoundError "on_failure not defined")
    | some handler => .ok (handler, some "object")
  else .error (functionNotFoundError "function ID mismatch")

def afterRun (result : CallResult) : Exec σ CallResult := do
  match ← MiddlewareManager.transformOutput env.flavor env.middleware result with
  | .error e => pure (CallResult.ofError e)
  | .ok result =>
    match ← MiddlewareManager.beforeResponse env.flavor env.middleware with
    | .error e => pure (CallResult.ofError e)
    | .ok _ => pure result

def call (ctx : Context) : Exec σ CallResult :=
  match fn.select fnId with
  | .error e => pure (CallResult.ofError e)
  | .ok (handler, outputType) => do
    let result ← Execution.run env ctx (fun ctx => (handler ctx).interp env) outputType
    afterRun env result

end Function

/-! ## `CommResponse` -/

structure CommResponse where
  body : Json
  headers : Dict String
  statusCode : ℕ
  deriving DecidableEq

def ErrorData.fromError (e : PyError) : Json :=
  .obj [("code", .str e.code.value), ("message", .str e.message), ("name", .str e.name),
    ("stack", e.stack.elim .null .str)]

def StepInfo.toDict (info : StepInfo) : List (String × Json) :=
  [("displayName", .str info.displayName), ("id", .str info.id),
    ("name", info.name.elim .null .str), ("op", .str info.op.value),
    ("opts", info.opts.elim .null .obj),
    ("userland", info.userland.elim .null fun u =>
      .obj [("id", .str u.id), ("index", u.index.elim .null fun n => .int n)])]

namespace CommResponse

/-- `type(err).__name__`; a `StepError` carries the name of the user's error. -/
def typeName (e : PyError) : String :=
  match e.cls with
  | .stepError => "StepError"
  | _ => e.name

def fromError (e : PyError) : CommResponse where
  body := .obj [("code", .str e.code.value), ("message", .str e.message),
    ("name", .str (typeName e))]
  headers := AList.insert "content-type" "application/json" ∅
  statusCode := 500

def unserializable (step : Option StepInfo) : PyError :=
  outputUnserializableError (match step with
    | some info => "\"" ++ info.displayName ++ "\" returned unserializable data"
    | none => "returned unserializable data")

/-- What `step.to_dict()` returns for options that pydantic cannot dump. -/
def unknownType : PyError :=
  exception "PydanticSerializationError" "Unable to serialize unknown type"

def dumpsOpts (item : CallItem) : Bool :=
  (item.step.bind StepInfo.opts).all Json.serializableFields

/-- Pydantic accepts the options of the step and `json.dumps` the output, where
there are any. -/
def dumps (item : CallItem) : Bool := dumpsOpts item && item.output.all Json.serializable

/-- `_prep_call_result`, once options and output are known to be serializable.
Results of the function itself are not nested. -/
def prepared (item : CallItem) : Json :=
  match item.step with
  | some info => .obj (StepInfo.toDict info ++
      item.error.toList.map (fun e => ("error", ErrorData.fromError e)) ++
      item.output.toList.map (fun v => ("data", v)))
  | none => (item.error.map ErrorData.fromError).getD (item.output.getD .null)

def prepCallResult (item : CallItem) : Except PyError Json :=
  if dumpsOpts item then
    if item.output.all Json.serializable then .ok (prepared item)
    else .error (unserializable item.step)
  else .error unknownType

def noRetry (item : CallItem) : Bool := item.error.any (fun e => ¬ isRetriable e)

def retryAfter (item : CallItem) : Option String :=
  item.error.bind fun e =>
    if e.cls = .retryAfterError then e.retryAfter.map Transforms.toIsoUtc else none

def withNoRetry (set : Bool) (headers : Dict String) : Dict String :=
  if set then headers.insert "x-inngest-no-retry" "true" else headers

/-- `headers` are the ones of `net.create_headers`. -/
def fromCallResult (headers : Dict String) (result : CallResult) : CommResponse :=
  match result.multi with
  | some (item :: items) =>
    match (item :: items).mapM prepCallResult with
    | .error e => fromError e
    | .ok body => ⟨.arr body, withNoRetry ((item :: items).any noRetry) headers, 206⟩
  | _ =>
    match prepCallResult result.toCallItem with
    | .error e => fromError e
    | .ok body =>
      let headers := withNoRetry (noRetry result.toCallItem) headers
      ⟨body, (retryAfter result.toCallItem).elim headers (headers.insert "retry-after" ·),
        if result.error.isSome then 500 else 200⟩

theorem prepCallResult_ok {item : CallItem} (h : dumps item = true) :
    prepCallResult item = .ok (prepared item) := by
  simp only [dumps, Bool.and_eq_true] at h
  rw [prepCallResult, if_pos h.1, if_pos h.2]

theorem prepCallResult_error {item : CallItem} (h : dumps item = false) :
    ∃ e, prepCallResult item = .error e := by
  by_cases ho : dumpsOpts item = true
  · have hd : ¬ item.output.all Json.serializable = true := by simpa [dumps, ho] using h
    exact ⟨unserializable item.step, by rw [prepCallResult, if_pos ho, if_neg hd]⟩
  · exact ⟨unknownType, by rw [prepCallResult, if_neg ho]⟩

theorem mapM_prepCallResult (items : List CallItem) (h : items.all dumps = true) :
    items.mapM prepCallResult = .ok (items.map prepared) := by
  induction items with
  | nil => rfl
  | cons item items ih =>
    simp only [List.all_cons, Bool.and_eq_true] at h
    simp [List.mapM_cons, prepCallResult_ok h.1, ih h.2, bind, Except.bind, pure, Except.pure]

theorem mapM_prepCallResult_error (items : List CallItem) (h : items.all dumps = false) :
    ∃ e, items.mapM prepCallResult = .error e := by
  induction items with
  | nil => simp at h
  | cons item items ih =>
    by_cases hd : dumps item = true
    · obtain ⟨e, he⟩ := ih (by simpa [hd] using h)
      exact ⟨e, by simp [List.mapM_cons, prepCallResult_ok hd, he, bind, Except.bind]⟩
    · have hd' : dumps item = false := by simpa using hd
      obtain ⟨e, he⟩ := prepCallResult_error hd'
      exact ⟨e, by simp [List.mapM_cons, he, bind, Except.bind]⟩

theorem fromCallResult_multi (headers : Dict String) {result : CallResult} {items : List CallItem}
    (h : result.multi = some items) (hne : items ≠ []) :
    (items.all dumps = true ∧ ∃ hs, fromCallResult headers result =
      ⟨.arr (items.map prepared), hs, 206⟩) ∨
    (items.all dumps = false ∧ (fromCallResult headers result).statusCode = 500) := by
  obtain ⟨item, items, rfl⟩ := List.exists_cons_of_ne_nil hne
  cases hd : (item :: items).all dumps with
  | true =>
    refine .inl ⟨rfl, withNoRetry ((item :: items).any noRetry) headers, ?_⟩
    rw [fromCallResult, h]
    simp only [mapM_prepCallResult _ hd]
  | false =>
    obtain ⟨e, he⟩ := mapM_prepCallResult_error _ hd
    refine .inr ⟨rfl, ?_⟩
    rw [fromCallResult, h]
    simp only [he]
    rfl

theorem fromCallResult_single (headers : Dict String) (result : CallResult)
    (h : result.multi = none) :
    (dumps result.toCallItem = true ∧ ∃ hs, fromCallResult headers result =
      ⟨prepared result.toCallItem, hs, if result.error.isSome then 500 else 200⟩) ∨
    (dumps result.toCallItem = false ∧ (fromCallResult headers result).statusCode = 500) := by
  cases hd : dumps result.toCallItem with
  | true =>
    refine .inl ⟨rfl, (retryAfter result.toCallItem).elim
      (withNoRetry (noRetry result.toCallItem) headers)
      ((withNoRetry (noRetry result.toCallItem) headers).insert "retry-after" ·), ?_⟩
    rw [fromCallResult, h]
    simp only [prepCallResult_ok hd]
  | false =>
    obtain ⟨e, he⟩ := prepCallResult_error hd
    refine .inr ⟨rfl, ?_⟩
    rw [fromCallResult, h]
    simp only [he]
    rfl

/-- Everything that `_prep_call_result` is applied to can be dumped. -/
def prepares (result : CallResult) : Bool :=
  match result.multi with
  | some (item :: items) => (item :: items).all dumps
  | _ => dumps result.toCallItem

theorem fromError_serializable (e : PyError) : (fromError e).body.serializable = true := rfl

theorem prepared_serializable {item : CallItem} (h : dumps item = true) :
    (prepared item).serializable = true := by
  obtain ⟨error, output, step⟩ := item
  simp only [dumps, dumpsOpts, Bool.and_eq_true] at h
  obtain ⟨hopts, hout⟩ := h
  have herror : ∀ e : PyError, (ErrorData.fromError e).serializable = true := by
    intro e
    cases hs : e.stack <;>
      simp [ErrorData.fromError, hs, Json.serializable, Json.serializableFields]
  cases step with
  | none =>
    cases error with
    | some e => exact herror e
    | none => cases output <;> simp_all [prepared, Json.serializable]
  | some info =>
    have hdict : Json.serializableFields (StepInfo.toDict info) = true := by
      obtain ⟨displayName, id, name, op, opts, userland⟩ := info
      cases name <;> cases opts <;> cases userland with
      | none => simp_all [StepInfo.toDict, Json.serializable, Json.serializableFields]
      | some u =>
        obtain ⟨uid, _ | index⟩ := u <;>
          simp_all [StepInfo.toDict, Json.serializable, Json.serializableFields]
    rw [prepared]
    simp only [Json.serializable, Json.serializableFields_append, hdict, Bool.true_and]
    cases error <;> cases output <;> simp_all [Json.serializableFields]

theorem fromCallResult_refused (headers : Dict String) {result : CallResult}
    (h : prepares result = false) : ∃ e, fromCallResult headers result = fromError e := by
  rcases hm : result.multi with - | - | ⟨item, items⟩
  · have hd : dumps result.toCallItem = false := by simpa [prepares, hm] using h
    obtain ⟨e, he⟩ := prepCallResult_error hd
    exact ⟨e, by simp only [fromCallResult, hm, he]⟩
  · have hd : dumps result.toCallItem = false := by simpa [prepares, hm] using h
    obtain ⟨e, he⟩ := prepCallResult_error hd
    exact ⟨e, by simp only [fromCallResult, hm, he]⟩
  · have hd : (item :: items).all dumps = false := by simpa only [prepares, hm] using h
    obtain ⟨e, he⟩ := mapM_prepCallResult_error (item :: items) hd
    exact ⟨e, by simp only [fromCallResult, hm, he]⟩

/-- A response to a result that can be dumped has a body that can be dumped,
and its headers are those it was given and at most two more. -/
theorem fromCallResult_prepares (headers : Dict String) {result : CallResult}
    (h : prepares result = true) :
    (fromCallResult headers result).body.serializable = true ∧
      ∃ (set : Bool) (after : Option String), (fromCallResult headers result).headers =
        after.elim (withNoRetry set headers)
          ((withNoRetry set headers).insert "retry-after" ·) := by
  rcases hm : result.multi with - | - | ⟨item, items⟩
  · have hd : dumps result.toCallItem = true := by simpa [prepares, hm] using h
    simp only [fromCallResult, hm, prepCallResult_ok hd]
    exact ⟨prepared_serializable hd, _, _, rfl⟩
  · have hd : dumps result.toCallItem = true := by simpa [prepares, hm] using h
    simp only [fromCallResult, hm, prepCallResult_ok hd]
    exact ⟨prepared_serializable hd, _, _, rfl⟩
  · have hd : (item :: items).all dumps = true := by simpa only [prepares, hm] using h
    simp only [fromCallResult, hm, mapM_prepCallResult _ hd]
    exact ⟨Json.serializableItems_map fun x hx =>
      prepared_serializable (List.all_eq_true.mp hd x hx), _, none, rfl⟩

end CommResponse

/-- The response to a request, if the function's code lets one be made. -/
def respond {σ : Type} (env : Env σ) (fn : Function σ) (fnId : String) (headers : Dict String)
    (inv : Invocation σ) : Option CommResponse :=
  ((fn.call env fnId inv.ctx Scope.top inv.initial).outcome.value?).map
    (CommResponse.fromCallResult headers)

section
variable {σ : Type} {env : Env σ} {fn : Function σ} {fnId : String} {headers : Dict String}
  {inv : Invocation σ}

/-- The error of `before_response`, called in state `s`. -/
def beforeResponseError (env : Env σ) (s : State σ) : Option PyError :=
  match (MiddlewareManager.beforeResponse env.flavor env.middleware Scope.top s).outcome with
  | .ok (.error e) => some e
  | _ => none

theorem beforeResponse_outcome (env : Env σ) (s : State σ) :
    (MiddlewareManager.beforeResponse env.flavor env.middleware Scope.top s).outcome =
      .ok ((beforeResponseError env s).elim (.ok ()) .error) := by
  obtain ⟨⟨x, hx⟩, -, -⟩ := MiddlewareManager.hookLoop_spec
    (MiddlewareManager.refuseCoroutine env.flavor Hooks.beforeResponse) Hooks.beforeResponse
    env.middleware () Scope.top s
  rw [← MiddlewareManager.beforeResponse] at hx
  rw [beforeResponseError, hx]
  cases x <;> rfl

theorem afterRun_outcome {result result' : CallResult} {s t : State σ} {l : List Mark}
    (h : MiddlewareManager.transformOutput env.flavor env.middleware result Scope.top s =
      ⟨.ok (.ok result'), t, l⟩) :
    (Function.afterRun env result Scope.top s).outcome =
      .ok ((beforeResponseError env t).elim result' CallResult.ofError) := by
  rw [Function.afterRun, Comp.bind_ok (by rw [h]), h]
  simp only [Done.after_outcome]
  rw [Comp.bind_ok (beforeResponse_outcome env t)]
  cases beforeResponseError env t <;> rfl

theorem afterRun_error {result : CallResult} {s t : State σ} {l : List Mark} {e : PyError}
    (h : MiddlewareManager.transformOutput env.flavor env.middleware result Scope.top s =
      ⟨.ok (.error e), t, l⟩) :
    (Function.afterRun env result Scope.top s).outcome = .ok (CallResult.ofError e) := by
  rw [Function.afterRun, Comp.bind_ok (by rw [h]), h]
  rfl

end

end Inngest
