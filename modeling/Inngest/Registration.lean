import Inngest.OrderedDict
import Inngest.Response
import Inngest.Signature

/-!
# Registered functions and their configurations

A function is registered under the app's ID and its own. What is synced holds
one configuration for the function and one more for its `on_failure` handler,
whose ID is the function's with a suffix. A request names one of these IDs, and
the functions are searched for it in their order.
-/

set_option autoImplicit false

namespace Inngest
open ServerLib Errors

structure Dumped where
  json : Json
  serializable : json.serializable = true

namespace Dumped

def null : Dumped := ⟨.null, rfl⟩
def str (s : String) : Dumped := ⟨.str s, rfl⟩
def int (n : ℤ) : Dumped := ⟨.int n, rfl⟩
def bool (b : Bool) : Dumped := ⟨.bool b, rfl⟩
def empty : Dumped := ⟨.arr [], rfl⟩
def text (s : Option String) : Dumped := s.elim null str

def arr (items : List Dumped) : Dumped :=
  ⟨.arr (items.map Dumped.json), Json.serializableItems_map fun v _ => v.serializable⟩

theorem fields_serializable (fields : List (String × Dumped)) :
    Json.serializableFields (fields.map fun f => (f.1, f.2.json)) = true := by
  induction fields with
  | nil => rfl
  | cons f fields ih => simpa [Json.serializableFields, f.2.serializable] using ih

def obj (fields : List (String × Dumped)) : Dumped :=
  ⟨.obj (fields.map fun f => (f.1, f.2.json)), by
    rw [Json.serializable, fields_serializable]⟩

end Dumped

/-- `to_dict`: the first field that cannot be dumped gives the exception. -/
def dumpModel (fields : List (String × MaybeError Dumped)) : MaybeError Dumped :=
  (fields.mapM fun (f : String × MaybeError Dumped) => f.2.map (Prod.mk f.1)).map Dumped.obj

/-- The settings of a function, as they are dumped; a duration may be refused. -/
structure FunctionSettings where
  batchEvents : MaybeError Dumped
  cancel : MaybeError Dumped
  concurrency : MaybeError Dumped
  debounce : MaybeError Dumped
  idempotency : MaybeError Dumped
  priority : MaybeError Dumped
  rateLimit : MaybeError Dumped
  throttle : MaybeError Dumped
  timeouts : MaybeError Dumped
  singleton : MaybeError Dumped

def FunctionSettings.onFailure : FunctionSettings where
  batchEvents := .ok .null
  cancel := .ok .empty
  concurrency := .ok .empty
  debounce := .ok .null
  idempotency := .ok .null
  priority := .ok .null
  rateLimit := .ok .null
  throttle := .ok .null
  timeouts := .ok .null
  singleton := .ok .null

/-- The arguments of `create_function`. Both handlers are asynchronous or
neither is; the constructor of `Function` raises otherwise. -/
structure FunctionOpts (σ : Type) where
  localId : String
  name : String
  retries : Option ℕ
  settings : FunctionSettings
  triggers : List Dumped
  handler : Context → Body σ
  outputType : Option OutputType
  onFailure : Option (Context → Body σ)
  isAsync : Bool
  middleware : List (Hooks σ)

structure AppFunction (σ : Type) where
  appId : String
  opts : FunctionOpts σ

inductive RuntimeType where
  | http
  | ws
  deriving DecidableEq, Repr

def RuntimeType.value : RuntimeType → String
  | .http => "http"
  | .ws => "ws"

structure FunctionConfig where
  settings : FunctionSettings
  id : String
  name : String
  retries : Option ℕ
  runtimeType : RuntimeType
  url : String
  triggers : List Dumped

def rootStepId : String := "step"

def FunctionConfig.step (config : FunctionConfig) : Dumped :=
  .obj [("id", .str rootStepId), ("name", .str rootStepId),
    ("retries", config.retries.elim .null fun n => .obj [("attempts", .int n)]),
    ("runtime", .obj [("type", .str config.runtimeType.value), ("url", .str config.url)])]

def FunctionConfig.toDict (config : FunctionConfig) : MaybeError Dumped :=
  dumpModel [("batchEvents", config.settings.batchEvents), ("cancel", config.settings.cancel),
    ("concurrency", config.settings.concurrency), ("debounce", config.settings.debounce),
    ("id", .ok (.str config.id)), ("idempotency", config.settings.idempotency),
    ("name", .ok (.str config.name)), ("priority", config.settings.priority),
    ("rateLimit", config.settings.rateLimit), ("steps", .ok (.obj [(rootStepId, config.step)])),
    ("throttle", config.settings.throttle), ("timeouts", config.settings.timeouts),
    ("singleton", config.settings.singleton), ("triggers", .ok (.arr config.triggers))]

namespace AppFunction
variable {σ : Type} (f : AppFunction σ)

def id : String := f.appId ++ "-" ++ f.opts.localId

def fn : Function σ where
  id := f.id
  handler := f.opts.handler
  outputType := f.opts.outputType
  onFailure := f.opts.onFailure

def onFailureFnId : Option String := f.fn.onFailureFnId

def stepUrl (appUrl fnId : String) : String :=
  appUrl ++ "?" ++ Python.urlencode [("fnId", fnId), ("stepId", rootStepId)]

def mainConfig (appUrl : String) : FunctionConfig where
  settings := f.opts.settings
  id := f.id
  name := f.opts.name
  retries := f.opts.retries
  runtimeType := if "wss://".isPrefixOf (stepUrl appUrl f.id) then .ws else .http
  url := stepUrl appUrl f.id
  triggers := f.opts.triggers

def onFailureConfig (appUrl fnId : String) : FunctionConfig where
  settings := .onFailure
  id := fnId
  name := f.opts.name ++ " (failure)"
  retries := some 0
  runtimeType := .http
  url := stepUrl appUrl fnId
  triggers := [.obj [("event", .str "inngest/function.failed"),
    ("expression", .str ("event.data.function_id == '" ++ f.id ++ "'"))]]

/-- `Function.get_config`: the main configuration and the one for failures. -/
def getConfig (appUrl : String) : FunctionConfig × Option FunctionConfig :=
  (f.mainConfig appUrl, f.onFailureFnId.map (f.onFailureConfig appUrl))

end AppFunction

abbrev Functions (σ : Type) := OrderedDict String (AppFunction σ)

namespace Functions
variable {σ : Type}

def ofList (functions : List (AppFunction σ)) : Functions σ :=
  functions.foldl (fun d f => d.put f.id f) .empty

def getFunctionConfigs (appUrl : String) (fns : Functions σ) : MaybeError (List FunctionConfig) :=
  let configs := fns.values.flatMap fun f =>
    (f.getConfig appUrl).1 :: (f.getConfig appUrl).2.toList
  if configs = [] then .error (functionConfigInvalidError "no functions found") else .ok configs

def find (fns : Functions σ) (fnId : String) : Option (AppFunction σ) :=
  fns.values.find? fun f => f.id = fnId ∨ f.onFailureFnId = some fnId

/-- `CommHandler._get_function`: an ID without the app's is looked for last. -/
def getFunction (fns : Functions σ) (appId fnId : String) : MaybeError (AppFunction σ) :=
  match fns.find fnId with
  | some f => .ok f
  | none =>
    match fns.find (appId ++ "-" ++ fnId) with
    | some f => .ok f
    | none => .error (functionNotFoundError ("function " ++ fnId ++ " not found"))

theorem items_foldl_put (functions : List (AppFunction σ)) (d : Functions σ)
    (h : (d.items.map Prod.fst ++ functions.map AppFunction.id).Nodup) :
    (functions.foldl (fun d f => OrderedDict.put d f.id f) d).items =
      d.items ++ functions.map fun f => (f.id, f) := by
  induction functions generalizing d with
  | nil => simp
  | cons f functions ih =>
    have hnew : f.id ∉ d.items.map Prod.fst := fun hm =>
      (List.nodup_append.mp h).2.2 _ hm _ (by simp) rfl
    have hput : (OrderedDict.put d f.id f).items = d.items ++ [(f.id, f)] := by
      rw [OrderedDict.put, dif_neg hnew]
    rw [List.foldl_cons, ih]
    · simp [hput]
    · simpa [hput] using h

theorem values_ofList {functions : List (AppFunction σ)}
    (h : (functions.map AppFunction.id).Nodup) : (ofList functions).values = functions := by
  rw [OrderedDict.values, ofList, items_foldl_put _ _ (by simpa [OrderedDict.empty] using h)]
  simp [OrderedDict.empty, Function.comp_def]

end Functions

end Inngest
