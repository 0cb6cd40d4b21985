import Inngest.Connect.State

/-!
# `ConnInitHandler`

The task that asks for a gateway, over and over. `wait_for(None)` is entered
with no error only, so an error is carried through the attempts alone.
-/

set_option autoImplicit false

namespace Inngest.Connect
open Errors

abbrev StartResult := Except PyError (ℕ × Except PyError StartResponse)

inductive StartPc where
  | created
  | waiting
  | fetching (attempts : ℕ) (err : Option PyError)
  | sleeping (attempts : ℕ) (err : Option PyError)
  | stopped
  deriving DecidableEq

namespace ConnInitStarter
variable (cfg : Config)

def validSchemes : List String := ["ws", "wss"]

def validateGatewayEndpoint (endpoint : String) : Option PyError :=
  if endpoint.toList.all cfg.isSpace then
    some (exception "Exception" "gateway endpoint is empty")
  else
    match cfg.urlparse endpoint with
    | .error e => some e
    | .ok (scheme, hostname) =>
      if scheme ∉ validSchemes then
        some (exception "Exception" ("gateway endpoint scheme " ++ scheme ++
          " is not valid, must be one of " ++ ", ".intercalate validSchemes))
      else
        match hostname with
        | none => some (exception "Exception" "gateway endpoint hostname is required")
        | some _ => none

inductive Attempt where
  | success
  | retry (e : PyError)
  | giveUp (e : PyError)

/-- The `except` clauses. `rewrite_gateway_endpoint` too may raise the first. -/
def raised (e : PyError) : Attempt :=
  if e.cls = .nonRetryableError then .giveUp e else .retry e

def rewrite (endpoint : String) : Except PyError String :=
  match cfg.rewriteGatewayEndpoint with
  | none => .ok endpoint
  | some f => f endpoint

def attempt (res : StartResult) (s : State) : State × Attempt :=
  match res with
  | .error e => (s, raised e)
  | .ok (status, content) =>
    if status = 401 ∨ status = 403 then
      (s, raised (nonRetryableError "unauthorized"))
    else if status ≠ 200 then
      (s, raised (exception "Exception" ("failed to send start request: " ++ toString status)))
    else
      match content with
      | .error e => (s, raised e)
      | .ok resp =>
        let s := { s with connId := some resp.connectionId }
        match rewrite cfg resp.gatewayEndpoint with
        | .error e => (s, raised e)
        | .ok endpoint =>
          match validateGatewayEndpoint cfg endpoint with
          | some e => (s, raised e)
          | none =>
            ({ s with connInit := s.connInit.set (some
                ⟨⟨resp.sessionToken, resp.syncToken⟩, endpoint, resp.connectionId⟩) }, .success)

def begin (closed : Bool) (s : State) : State × StartPc :=
  if s.connState.value = .closed then (s, .stopped)
  else ({ s with connState := s.connState.set .connecting },
    if closed then .stopped else .fetching 0 none)

def loop (closed : Bool) (err : Option PyError) (s : State) : State × StartPc :=
  if closed then (s, .stopped)
  else
    match err with
    | some e => ({ s with fatalError := s.fatalError.set (some e) }, .stopped)
    | none =>
      if s.connInit.value = none then begin closed s
      else (s.waitConnInit .startRequest, .waiting)

def afterAttempt (closed : Bool) (attempts : ℕ) (r : State × Attempt) : State × StartPc :=
  match r.2 with
  | .success => loop closed none r.1
  | .giveUp e => loop closed (some e) r.1
  | .retry e =>
    if attempts < maxConnInitAttempts ∧ closed = false then (r.1, .sleeping attempts (some e))
    else loop closed (some e) r.1

def responded (closed : Bool) (attempts : ℕ) (res : StartResult) (s : State) : State × StartPc :=
  afterAttempt closed (attempts + 1) (attempt cfg res s)

/-- The task goes on without a response: at its start, when `conn_init` is
`None` again, and after the delay between two attempts. -/
def resume (closed : Bool) (pc : StartPc) (s : State) : State × StartPc :=
  match pc with
  | .created => loop closed none s
  | .waiting => begin closed (s.release .startRequest)
  | .sleeping attempts err => (s, .fetching attempts err)
  | pc => (s, pc)

def resumable (pc : StartPc) (s : State) : Bool :=
  match pc with
  | .created | .sleeping _ _ => true
  | .waiting => (s.connInit.woken .startRequest Option.isNone).isSome
  | _ => false

end ConnInitStarter

end Inngest.Connect
