import Inngest.Json

/-!
# The wire vocabulary and the errors of the SDK

Opcodes, error codes, parallel modes and events of `server_lib`, and the
exceptions of `errors.py` with the attributes that the engine reads. The
interrupts of `step_lib` are not exceptions in this sense: they derive from
`BaseException` and have their own type.
-/

set_option autoImplicit false

namespace Inngest

namespace ServerLib

inductive Opcode where
  | aiGateway
  | invoke
  | planned
  | sleep
  | stepRun
  | stepError
  | waitForEvent
  | stepFailed
  deriving DecidableEq, Repr

def Opcode.value : Opcode → String
  | .aiGateway => "AIGateway"
  | .invoke => "InvokeFunction"
  | .planned => "StepPlanned"
  | .sleep => "Sleep"
  | .stepRun => "StepRun"
  | .stepError => "StepError"
  | .waitForEvent => "WaitForEvent"
  | .stepFailed => "StepFailed"

theorem Opcode.value_injective : Function.Injective Opcode.value := by
  intro a b h
  cases a <;> cases b <;> first | rfl | exact absurd h (by decide)

inductive ParallelMode where
  | race
  | wait
  deriving DecidableEq, Repr

def ParallelMode.value : ParallelMode → String
  | .race => "race"
  | .wait => "wait"

inductive Framework where
  | connect
  | digitalOcean
  | django
  | fastApi
  | flask
  | tornado
  deriving DecidableEq, Repr

def Framework.value : Framework → String
  | .connect => "connect"
  | .digitalOcean => "digitalocean"
  | .django => "django"
  | .fastApi => "fast_api"
  | .flask => "flask"
  | .tornado => "tornado"

inductive ServerKind where
  | cloud
  | devServer
  deriving DecidableEq, Repr

def ServerKind.value : ServerKind → String
  | .cloud => "cloud"
  | .devServer => "dev"

/-- `ServerKind(value)`, which raises on any other text. -/
def ServerKind.ofValue (value : String) : Option ServerKind :=
  [cloud, devServer].find? fun kind => kind.value = value

theorem ServerKind.value_injective : Function.Injective ServerKind.value := by
  intro a b h
  cases a <;> cases b <;> first | rfl | exact absurd h (by decide)

theorem ServerKind.ofValue_eq_some {value : String} {kind : ServerKind} :
    ofValue value = some kind ↔ value = kind.value := by
  constructor
  · intro h
    have hkind : kind.value = value := by simpa using List.find?_some h
    exact hkind.symm
  · rintro rfl
    cases kind <;> rfl

/-- The headers of a response, and the one of a request that decides about them. -/
inductive HeaderKey where
  | contentType
  | env
  | expectedServerKind
  | framework
  | noRetry
  | requestVersion
  | retryAfter
  | sdk
  | serverKind
  | serverTiming
  | signature
  | userAgent
  deriving DecidableEq, Repr

def HeaderKey.value : HeaderKey → String
  | .contentType => "content-type"
  | .env => "x-inngest-env"
  | .expectedServerKind => "x-inngest-expected-server-kind"
  | .framework => "x-inngest-framework"
  | .noRetry => "x-inngest-no-retry"
  | .requestVersion => "x-inngest-req-version"
  | .retryAfter => "retry-after"
  | .sdk => "x-inngest-sdk"
  | .serverKind => "x-inngest-server-kind"
  | .serverTiming => "server-timing"
  | .signature => "x-inngest-signature"
  | .userAgent => "user-agent"

theorem HeaderKey.value_injective : Function.Injective HeaderKey.value := by
  intro a b h
  cases a <;> cases b <;> first | rfl | exact absurd h (by decide)

def preferredExecutionVersion : String := "2"

def optKeyParallelMode : String := "parallelMode"

inductive ErrorCode where
  | asyncUnsupported
  | bodyInvalid
  | eventKeyUnspecified
  | functionConfigInvalid
  | functionNotFound
  | headerMissing
  | nonRetriableError
  | outputUnserializable
  | queryParamMissing
  | registrationFailed
  | retryAfterError
  | sendEventFailed
  | serverKindMismatch
  | signingKeyUnspecified
  | sigVerificationFailed
  | stepErrored
  | stepNested
  | stepUnexpected
  | unknown
  | urlInvalid
  deriving DecidableEq, Repr

def ErrorCode.value : ErrorCode → String
  | .asyncUnsupported => "async_unsupported"
  | .bodyInvalid => "body_invalid"
  | .eventKeyUnspecified => "event_key_unspecified"
  | .functionConfigInvalid => "function_config_invalid"
  | .functionNotFound => "function_not_found"
  | .headerMissing => "header_missing"
  | .nonRetriableError => "non_retriable_error"
  | .outputUnserializable => "output_unserializable"
  | .queryParamMissing => "query_param_missing"
  | .registrationFailed => "registration_failed"
  | .retryAfterError => "retry_after_error"
  | .sendEventFailed => "send_event_failed"
  | .serverKindMismatch => "server_kind_mismatch"
  | .signingKeyUnspecified => "signing_key_unspecified"
  | .sigVerificationFailed => "sig_verification_failed"
  | .stepErrored => "step_errored"
  | .stepNested => "step_nested"
  | .stepUnexpected => "step_unexpected"
  | .unknown => "unknown"
  | .urlInvalid => "url_invalid"

structure Event where
  data : List (String × Json)
  id : String
  name : String
  ts : ℤ
  deriving DecidableEq, Repr

structure ServerRequestCtx where
  attempt : ℕ
  disableImmediateExecution : Bool
  maxAttempts : Option ℕ
  runId : String
  deriving DecidableEq, Repr

end ServerLib

open ServerLib

/-- A `datetime` by its microseconds in UTC since the beginning of the year 1.
One that is outside of the range there makes `astimezone` raise. -/
abbrev UtcTime := Fin 315537897600000000

namespace Errors

/-- The classes, with their subclasses, that some `except` clause or
`isinstance` test of the SDK tells apart, and the one that a coroutine does not
let through. -/
inductive Class where
  | exception
  | stopIteration
  | nonRetryableError
  | error
  | nonRetriableError
  | retryAfterError
  | stepError
  deriving DecidableEq, Repr

/-- An instance of `Exception`, with what `ErrorData.from_error`,
`is_retriable` and `is_quiet` read from it. -/
structure PyError where
  cls : Class
  name : String
  message : String
  stack : Option String
  code : ErrorCode
  isRetriable : Bool
  quiet : Bool
  retryAfter : Option UtcTime
  deriving DecidableEq, Repr

/-- An exception from outside the SDK's hierarchy. -/
def exception (name message : String) : PyError where
  cls := .exception
  name := name
  message := message
  stack := none
  code := .unknown
  isRetriable := true
  quiet := false
  retryAfter := none

def stopIteration : PyError := { exception "StopIteration" "" with cls := .stopIteration }

def nonRetryableError (message : String) : PyError :=
  { exception "NonRetryableError" message with cls := .nonRetryableError }

/-- A subclass of `errors.Error` that only sets a code. -/
def error (name : String) (code : ErrorCode) (message : String) : PyError where
  cls := .error
  name := name
  message := message
  stack := none
  code := code
  isRetriable := true
  quiet := false
  retryAfter := none

def codedError (code : ErrorCode) (message : String) (isRetriable : Bool) : PyError :=
  { error "CodedError" code message with isRetriable := isRetriable }

def asyncUnsupportedError (message : String) : PyError :=
  error "AsyncUnsupportedError" .asyncUnsupported message

def functionConfigInvalidError (message : String) : PyError :=
  error "FunctionConfigInvalidError" .functionConfigInvalid message

def functionNotFoundError (message : String) : PyError :=
  error "FunctionNotFoundError" .functionNotFound message

def stepUnexpectedError (message : String) : PyError :=
  error "StepUnexpectedError" .stepUnexpected message

def headerMissingError (message : String) : PyError :=
  error "HeaderMissingError" .headerMissing message

def queryParamMissingError (message : String) : PyError :=
  error "QueryParamMissingError" .queryParamMissing message

def registrationFailedError (message : String) : PyError :=
  error "RegistrationFailedError" .registrationFailed message

def signingKeyMissingError (message : String) : PyError :=
  error "SigningKeyMissingError" .signingKeyUnspecified message

def sigVerificationFailedError : PyError :=
  error "SigVerificationFailedError" .sigVerificationFailed ""

def outputUnserializableError (message : String) : PyError :=
  { error "OutputUnserializableError" .outputUnserializable message with isRetriable := false }

def nonRetriableError (message : String) (quiet : Bool) : PyError :=
  { error "NonRetriableError" .nonRetriableError message with
    cls := .nonRetriableError, isRetriable := false, quiet := quiet }

def retryAfterError (message : String) (retryAfter : UtcTime) (quiet : Bool) : PyError :=
  { error "RetryAfterError" .retryAfterError message with
    cls := .retryAfterError, quiet := quiet, retryAfter := some retryAfter }

/-- The error a memoized failure is raised as. Its name and stack are those
of the user's error. -/
def stepError (message name : String) (stack : Option String) : PyError :=
  { error name .stepErrored message with cls := .stepError, stack := stack, isRetriable := false }

def isRetriable (e : PyError) : Bool :=
  match e.cls with
  | .exception | .stopIteration | .nonRetryableError => true
  | _ => e.isRetriable

end Errors

/-! ## `transforms.to_iso_utc` -/

namespace Transforms
open Errors

def date (days : ℕ) : ℕ × ℕ × ℕ :=
  let ofEra := days % 146097
  let year := (ofEra - ofEra / 1460 + ofEra / 36524 - ofEra / 146096) / 365
  let ofYear := ofEra - (365 * year + year / 4 - year / 100)
  let month := (5 * ofYear + 2) / 153
  let day := ofYear - (153 * month + 2) / 5 + 1
  if month < 10 then (400 * (days / 146097) + year, month + 3, day)
  else (400 * (days / 146097) + year + 1, month - 9, day)

def padded (width n : ℕ) : String :=
  .ofList ((Nat.toDigits 10 n).leftpad width '0')

def toIsoUtc (value : UtcTime) : String :=
  let ms := value.val / 1000
  let (year, month, day) := date (ms / 86400000 + 306)
  toString year ++ "-" ++ padded 2 month ++ "-" ++ padded 2 day ++ "T" ++
    padded 2 (ms / 3600000 % 24) ++ ":" ++ padded 2 (ms / 60000 % 60) ++ ":" ++
    padded 2 (ms / 1000 % 60) ++ "." ++ padded 3 (ms % 1000) ++ "Z"

example : toIsoUtc 63871286399999999 = "2024-12-31T23:59:59.999Z" ∧
    toIsoUtc 63845193600000000 = "2024-03-05T00:00:00.000Z" := by decide +kernel

/-! ## `transforms.to_duration_str` on a number of milliseconds -/

def second : ℤ := 1000
def minute : ℤ := 60 * second
def hour : ℤ := 60 * minute
def day : ℤ := 24 * hour
def week : ℤ := 7 * day

def durationUnits : List (ℤ × String) :=
  [(week, "w"), (day, "d"), (hour, "h"), (minute, "m"), (second, "s")]

def toDurationStr (ms : ℤ) : Except PyError String :=
  if ms < second then
    .error (functionConfigInvalidError "duration must be at least 1 second")
  else
    match durationUnits.find? (fun u => ms % u.1 = 0) with
    | some (unit, suffix) => .ok (toString (ms / unit) ++ suffix)
    | none => .error (functionConfigInvalidError "duration must be a whole number of seconds")

def toMaybeDurationStr : Option ℤ → Except PyError (Option String)
  | none => .ok none
  | some ms => (toDurationStr ms).map some

end Transforms

end Inngest
