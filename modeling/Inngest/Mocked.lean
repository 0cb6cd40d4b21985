import Inngest.Registration

/-!
# The mocked executor

`experimental/mocked/trigger.py` runs a function to its end in one process. It
calls the function again and again: a response to a call is taken into the
memos, and a planned step is asked for in one of the next calls.
-/

set_option autoImplicit false

namespace Inngest
open ServerLib Errors StepLib Effect Engine

namespace Mocked

inductive Status where
  | completed
  | failed
  deriving DecidableEq, Repr

def Status.value : Status → String
  | .completed => "Completed"
  | .failed => "Failed"

inductive Stub where
  | timeout
  | value (v : Json)
  deriving DecidableEq, Repr

def Stub.memo : Stub → Json
  | .timeout => .null
  | .value v => v

structure Result where
  error : Option PyError
  output : Option Json
  status : Status
  deriving DecidableEq, Repr

def Result.failed (e : PyError) : Result := ⟨some e, some .null, .failed⟩

def Result.completed (output : Option Json) : Result := ⟨none, output, .completed⟩

def unstubbedStepError (stepId : String) : PyError :=
  exception "UnstubbedStepError" ("step " ++ stepId ++ " is not stubbed")

def emptySentinel : Json := .other "EmptySentinel"

/-- What one call of `trigger` fixes. `pop` is the element that `planned.pop()`
takes in each turn; sets have no order. -/
structure Mock (σ : Type) where
  fn : AppFunction σ
  middleware : List (Hooks σ)
  serializer : Option Serializer
  stubs : Dict Stub
  loads : String → Option Json
  hash : String → String
  pop : ℕ → ℕ

structure Triggered (σ : Type) extends Mock σ where
  event : Event
  moreEvents : List Event

/-- The variables of the loop, with the user's store and the history of the
calls so far. -/
structure Vars (σ : Type) where
  steps : Dict Json
  planned : List String
  attempt : ℕ
  turns : ℕ
  loggingEnabled : Bool
  store : σ
  log : List Mark

inductive Progress (σ : Type) where
  | goesOn (vars : Vars σ)
  | ends (outcome : Outcome PyError Interrupt Result) (vars : Vars σ)

def Vars.start {σ : Type} (loggingEnabled : Bool) (store : σ) : Vars σ :=
  ⟨∅, [], 0, 0, loggingEnabled, store, []⟩

def Vars.remember {σ : Type} (vars : Vars σ) (id : String) (memo : Json) : Vars σ :=
  { vars with steps := vars.steps.insert id memo }

namespace Triggered
variable {σ : Type} (mock : Triggered σ)

def events : List Event := mock.event :: mock.moreEvents

def flavor : Flavor := if mock.fn.opts.isAsync then .async else .sync

def maxAttempt : ℕ := mock.fn.opts.retries.getD 4

def context (attempt : ℕ) : Context := ⟨attempt, mock.event, mock.events, "test"⟩

def env (attempt : ℕ) (stepId : Option String) : Env σ where
  flavor := mock.flavor
  hash := mock.hash
  serializer := mock.serializer
  middleware := MiddlewareManager.fromClient mock.middleware mock.fn.opts.middleware
  request := ⟨attempt, true, none, "test"⟩
  targetHashedId := stepId

def initial (vars : Vars σ) : State σ :=
  ⟨StepMemos.fromRaw mock.loads vars.steps, fun _ => 0, false, vars.loggingEnabled,
    fun _ => none, vars.store⟩

def call (vars : Vars σ) (stepId : Option String) : Run σ CallResult :=
  mock.fn.fn.call (mock.env vars.attempt stepId) mock.fn.id (mock.context vars.attempt) Scope.top
    (mock.initial vars)

def popped (vars : Vars σ) : Option String × Vars σ :=
  let i := mock.pop vars.turns % vars.planned.length
  (vars.planned[i]?, { vars with planned := vars.planned.eraseIdx i, turns := vars.turns + 1 })

/-- An event loop runs an asynchronous call in a context of its own. -/
def after (vars : Vars σ) (d : Run σ CallResult) : Vars σ :=
  { vars with
    loggingEnabled := match mock.flavor with
      | .sync => d.state.loggingEnabled
      | .async => vars.loggingEnabled
    store := d.state.store
    log := vars.log ++ d.log }

def retry (e : PyError) (vars : Vars σ) : Progress σ :=
  if vars.attempt ≥ mock.maxAttempt then .ends (.ok (Result.failed e)) vars
  else .goesOn { vars with attempt := vars.attempt + 1 }

def absorbItem (item : CallItem) (vars : Vars σ) : Progress σ :=
  match item.step with
  | none => .goesOn vars
  | some step =>
    match item.error with
    | some e => mock.retry e vars
    | none =>
      match mock.stubs.lookup step.displayName with
      | some stub => .goesOn (vars.remember step.id stub.memo)
      | none =>
        match step.op with
        | .planned => .goesOn { vars with planned := vars.planned.insert step.id }
        | .sleep => .goesOn (vars.remember step.id .null)
        | .stepRun => .goesOn (vars.remember step.id (item.output.getD emptySentinel))
        | _ => .ends (.exc (unstubbedStepError step.displayName)) vars

def absorb : List CallItem → Vars σ → Progress σ
  | [], vars => .goesOn vars
  | item :: items, vars =>
    match mock.absorbItem item vars with
    | .goesOn vars => absorb items vars
    | .ends outcome vars => .ends outcome vars

def conclude (res : CallResult) (vars : Vars σ) : Progress σ :=
  match res.error, res.multi with
  | some e, _ => mock.retry e vars
  | none, some (item :: items) => mock.absorb (item :: items) vars
  | none, some [] => .ends (.ok (Result.completed res.output)) vars
  | none, none => .ends (.ok (Result.completed res.output)) vars

def turn (vars : Vars σ) : Progress σ :=
  let (stepId, vars) := mock.popped vars
  let d := mock.call vars stepId
  match d.outcome with
  | .ok res => mock.conclude res (mock.after vars d)
  | .exc e => .ends (.exc e) (mock.after vars d)
  | .intr i => .ends (.intr i) (mock.after vars d)

def loop : ℕ → Vars σ → Option (Outcome PyError Interrupt Result × Vars σ)
  | 0, _ => none
  | fuel + 1, vars =>
    match mock.turn vars with
    | .goesOn vars => loop fuel vars
    | .ends outcome vars => some (outcome, vars)

end Triggered

/-- `trigger`, called with a list of events; one event is a list of one. -/
def trigger {σ : Type} (mock : Mock σ) (events : List Event)
    (loggingEnabled : Bool) (store : σ) (fuel : ℕ) :
    Option (Outcome PyError Interrupt Result × Vars σ) :=
  match events with
  | [] => some (.exc (exception "Exception" "Must provide at least 1 event"),
      Vars.start loggingEnabled store)
  | event :: more => (Triggered.mk mock event more).loop fuel (Vars.start loggingEnabled store)

end Mocked

end Inngest
