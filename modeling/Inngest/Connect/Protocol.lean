import Inngest.Response

/-!
# The Connect protocol

The messages between a worker and the gateway. What a message's payload
decodes to is part of the message: a handler decodes the payload of a kind as
one type only, so a payload is what that decoding makes of it.
-/

set_option autoImplicit false

namespace Inngest.Connect
open Errors

abbrev Bytes := List UInt8

structure AuthData where
  sessionToken : String
  syncToken : String
  deriving DecidableEq, Repr

structure StartResponse where
  connectionId : String
  gatewayEndpoint : String
  sessionToken : String
  syncToken : String
  deriving DecidableEq, Repr

structure GatewayConnectionReadyData where
  extendLeaseInterval : String
  deriving DecidableEq, Repr

structure GatewayExecutorRequestData where
  requestId : String
  accountId : String
  envId : String
  appId : String
  appName : String
  functionSlug : String
  stepId : Option String
  requestPayload : Bytes
  systemTraceCtx : Bytes
  userTraceCtx : Bytes
  runId : String
  leaseId : String
  deriving DecidableEq, Repr

structure WorkerRequestExtendLeaseAckData where
  requestId : String
  newLeaseId : Option String
  deriving DecidableEq, Repr

structure WorkerReplyAckData where
  requestId : String
  deriving DecidableEq, Repr

inductive GatewayMessage where
  | hello
  | connectionReady (payload : Except PyError GatewayConnectionReadyData)
  | executorRequest (payload : Except PyError GatewayExecutorRequestData)
  | extendLeaseAck (payload : Except PyError WorkerRequestExtendLeaseAckData)
  | replyAck (payload : Except PyError WorkerReplyAckData)
  | heartbeat
  | closing
  | other
  deriving DecidableEq

inductive RawMessage where
  | text
  | bytes (msg : Except PyError GatewayMessage)

structure AppConfiguration where
  appName : String
  appVersion : Option String
  functions : Bytes
  deriving DecidableEq, Repr

structure WorkerConnectRequestData where
  apps : List AppConfiguration
  authData : AuthData
  connectionId : String
  environment : Option String
  instanceId : String
  maxWorkerConcurrency : Option ℕ
  deriving DecidableEq, Repr

structure WorkerRequestAckData where
  accountId : String
  appId : String
  envId : String
  functionSlug : String
  requestId : String
  stepId : String
  systemTraceCtx : Bytes
  userTraceCtx : Bytes
  deriving DecidableEq, Repr

structure WorkerRequestExtendLeaseData where
  accountId : String
  envId : String
  functionSlug : String
  leaseId : String
  requestId : String
  runId : String
  stepId : String
  systemTraceCtx : Bytes
  userTraceCtx : Bytes
  deriving DecidableEq, Repr

inductive SDKResponseStatus where
  | notCompleted
  | done
  | error
  deriving DecidableEq, Repr

structure SDKResponse where
  accountId : String
  appId : String
  body : Bytes
  envId : String
  noRetry : Bool
  requestId : String
  requestVersion : Option ℤ
  retryAfter : Option String
  sdkVersion : Option String
  status : SDKResponseStatus
  systemTraceCtx : Bytes
  userTraceCtx : Bytes
  deriving DecidableEq, Repr

inductive WorkerMessage where
  | connect (data : WorkerConnectRequestData)
  | requestAck (data : WorkerRequestAckData)
  | extendLease (data : WorkerRequestExtendLeaseData)
  | reply (payload : Bytes)
  | pause
  | heartbeat
  deriving DecidableEq, Repr

namespace GatewayExecutorRequestData
variable (req : GatewayExecutorRequestData)

def ackData : WorkerRequestAckData where
  accountId := req.accountId
  appId := req.appId
  envId := req.envId
  functionSlug := req.functionSlug
  requestId := req.requestId
  stepId := req.stepId.getD ""
  systemTraceCtx := req.systemTraceCtx
  userTraceCtx := req.userTraceCtx

def extendLeaseData : WorkerRequestExtendLeaseData where
  accountId := req.accountId
  envId := req.envId
  functionSlug := req.functionSlug
  leaseId := req.leaseId
  requestId := req.requestId
  runId := req.runId
  stepId := req.stepId.getD ""
  systemTraceCtx := req.systemTraceCtx
  userTraceCtx := req.userTraceCtx

end GatewayExecutorRequestData

/-- The endpoint and the credentials of one start response. `conn_init` holds
the first two; the third is the id that the same response puts in `conn_id`. -/
structure ConnInit where
  authData : AuthData
  endpoint : String
  connectionId : String
  deriving DecidableEq, Repr

/-! ## What the worker is configured with -/

structure AppConfig where
  appId : String
  /-- `pydantic_core.to_json` of the function configs -/
  functions : Except PyError Bytes
  version : Option String

structure Config where
  apps : List AppConfig
  env : Option String
  instanceId : String
  maxWorkerConcurrency : Option ℕ
  extendLeaseInterval : Option ℕ
  rewriteGatewayEndpoint : Option (String → Except PyError String)
  /-- The scheme and the host name that `urllib.parse.urlparse` finds. -/
  urlparse : String → Except PyError (String × Option String)
  /-- `str.isspace` of a character -/
  isSpace : Char → Bool
  /-- The value of a decimal digit in Unicode. -/
  digitValue : Char → Option ℕ
  /-- `int` of a header's value -/
  int : String → Option ℤ
  bodyBytes : CommResponse → Except PyError Bytes
  /-- `SDKResponse.SerializeToString` -/
  serialize : SDKResponse → Bytes

def maxConnInitAttempts : ℕ := 5

def defaultMaxBufferSizeBytes : ℕ := 1024 * 1024 * 500

end Inngest.Connect
