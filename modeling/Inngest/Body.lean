import Inngest.Decision

/-!
# Function bodies

A deterministic function body is a tree. Between two step calls it does what
it likes with its own store; after a call it continues with the value or the
exception that the call gave, so ordinary control flow and `try`/`except
Exception` are choices of the continuation. Interrupts never reach a
continuation. A handler is a body too, and may wrongly contain steps. The call
sites of the source are numbered, so that branches which meet again agree.
-/

set_option autoImplicit false

namespace Inngest
open ServerLib Errors StepLib Effect Engine

inductive Body (σ : Type) : Type where
  | ret (v : Json)
  | raise (e : PyError)
  | code (f : σ → σ) (k : σ → Body σ)
  /-- `name = ctx.logger.method` -/
  | look (name method : String) (b : Body σ)
  /-- `name(message)` -/
  | log (name message : String) (b : Body σ)
  /-- the next call is at least the `n`-th call site here -/
  | site (n : ℕ) (b : Body σ)
  | run (stepId : String) (outputType : Option OutputType) (handler : Body σ)
      (k : Except PyError Json → Body σ)
  | call (c : StepCall) (k : Except PyError Json → Body σ)
  | parallel (n : ℕ) (callables : Fin n → Body σ) (mode : ParallelMode)
      (k : Except PyError (List Json) → Body σ)

namespace FilteredLogger

def proxiedMethods : List String :=
  ["critical", "debug", "error", "exception", "fatal", "info", "log", "warn", "warning"]

/-- `__getattr__` hands out the method of the underlying logger. -/
def forwards (loggingEnabled : Bool) (name : String) : Bool :=
  ¬ (name ∈ proxiedMethods ∧ ¬ loggingEnabled)

variable {σ : Type}

def holding (name method : String) (s : State σ) : State σ :=
  { s with held := Function.update s.held name (some ⟨method, forwards s.loggingEnabled method⟩) }

/-- The flag counts when the attribute is looked up, and no more when it is
called. -/
def getattr (name method : String) : Exec σ Unit := do
  let s ← Comp.get
  Comp.mark (.looked name method (forwards s.loggingEnabled method))
  Comp.modify (holding name method)

/-- A name that was given to no attribute of `ctx.logger` is not a logging call. -/
def call (name message : String) : Exec σ Unit := do
  let s ← Comp.get
  match s.held name with
  | some found => Comp.mark (.logged name found.method message found.forwards)
  | none => pure ()

def callMarks (s : State σ) (name message : String) : List Mark :=
  match s.held name with
  | some found => [.logged name found.method message found.forwards]
  | none => []

end FilteredLogger

namespace Body
variable {σ : Type} (env : Env σ)

/-- A group of `n` callables gave back an output for each of them. -/
def completes (n : ℕ) : Except PyError (List Json) → Bool
  | .ok outputs => outputs.length = n
  | .error _ => false

def interp : Body σ → Exec σ Json
  | .ret v => Comp.done v
  | .raise e => Comp.raise e
  | .code f k => fun r s => interp (k (f s.store)) r { s with store := f s.store }
  | .look name method b => do
    FilteredLogger.getattr name method
    interp b
  | .log name message b => do
    FilteredLogger.call name message
    interp b
  | .site n b => Comp.within (Scope.site n) (interp b)
  | .run stepId outputType handler k =>
    (Step.run env stepId outputType (Comp.within Scope.handler (interp handler))).andThen
      (fun x => Comp.within Scope.next (interp (k x)))
  | .call c k => (Step.call env c).andThen (fun x => Comp.within Scope.next (interp (k x)))
  | .parallel n callables mode k =>
    (Group.parallel
      (List.ofFn fun i => Comp.within (Scope.callable i) (interp (callables i))) mode).andThen
      (fun x => do
        Comp.mark (.groupEnded (completes n x))
        Comp.within Scope.next (interp (k x)))

/-- `step.send_event` is a `step.run` whose handler posts the events: it acts
on the store and gives the sent ids or an error. -/
def sendEvent (stepId : String) (post : σ → σ) (result : σ → Except PyError Json)
    (k : Except PyError Json → Body σ) : Body σ :=
  .run stepId none (.code post fun s => match result s with
    | .ok ids => .ret ids
    | .error e => .raise e) k

end Body

/-- What one request brings. The logging flag is the one of the context in
which the function is called. -/
structure Invocation (σ : Type) where
  ctx : Context
  memos : StepMemos
  loggingEnabled : Bool
  store : σ

def Invocation.initial {σ : Type} (inv : Invocation σ) : State σ :=
  ⟨inv.memos, fun _ => 0, false, inv.loggingEnabled, fun _ => none, inv.store⟩

/-- A request to the function `fn`, from `ExecutionV0.run` on. -/
def request {σ : Type} (env : Env σ) (fn : Context → Body σ) (outputType : Option OutputType)
    (inv : Invocation σ) : Run σ CallResult :=
  Execution.run env inv.ctx (fun ctx => (fn ctx).interp env) outputType Scope.top inv.initial

/-! ## Guarantees of whole bodies -/

namespace Group

section Equations
variable {σ : Type} {callables : List (Exec σ Json)} (mode : ParallelMode) {r : Scope}
  {s : State σ}

theorem parallel_ok {x : List Json × List StepResponse}
    (h : (discover callables r.inGroup s).outcome = .ok x) :
    parallel callables mode r s =
      ⟨if x.2 = [] then .ok x.1
        else .intr (.response (x.2.map fun r => r.setParallelMode mode)),
        (discover callables r.inGroup s).state, (discover callables r.inGroup s).log⟩ := by
  obtain ⟨outputs, responses⟩ := x
  rw [parallel, Comp.within_run, Comp.bind_ok h]
  cases responses <;> simp [Done.after]

theorem parallel_exc {e : PyError} (h : (discover callables r.inGroup s).outcome = .exc e) :
    parallel callables mode r s = ⟨.exc e, (discover callables r.inGroup s).state,
      (discover callables r.inGroup s).log⟩ := by
  rw [parallel, Comp.within_run, Comp.bind_exc h]

theorem parallel_intr {i : Interrupt} (h : (discover callables r.inGroup s).outcome = .intr i) :
    parallel callables mode r s = ⟨.intr i, (discover callables r.inGroup s).state,
      (discover callables r.inGroup s).log⟩ := by
  rw [parallel, Comp.within_run, Comp.bind_intr h]

end Equations

variable {σ : Type} {R : Scope → State σ → List Mark → State σ → Option Interrupt → Prop}

/-- A relation survives a group when the loop keeps it. `G` relates what the
callables did to the responses that were gathered from them. -/
theorem guar_parallel {G : Scope → State σ → List Mark → State σ → List StepResponse → Prop}
    (hL : ∀ r, Loop R G caught (fun responses => [.abandoned responses]) (Scope.inGroup r))
    (hscope : ∀ r s l s' o, (∀ i, o = some i → caught i = none) → R r.inGroup s l s' o →
      R r s l s' o)
    (hdone : ∀ r s l s' ds mode, G r.inGroup s l s' ds → R r s l s'
      (if ds = [] then none else some (.response (ds.map fun d => d.setParallelMode mode))))
    {callables : List (Exec σ Json)} (mode : ParallelMode)
    (hcs : ∀ c ∈ callables, Guar R c) : Guar R (parallel callables mode) := by
  intro r s
  have hd : LoopDone R G r.inGroup s [] (discover callables r.inGroup s) :=
    guar_collect (hL r) fun c hc s => hcs c hc _ s
  simp only [LoopDone, List.nil_append] at hd
  cases ho : (discover callables r.inGroup s).outcome with
  | ok x =>
    rw [ho] at hd
    have h := hdone _ _ _ _ _ mode hd
    rw [parallel_ok mode ho]
    split <;> simp_all
  | exc e =>
    rw [ho] at hd
    rw [parallel_exc mode ho]
    exact hscope _ _ _ _ _ (by simp) hd
  | intr i =>
    rw [ho] at hd
    rw [parallel_intr mode ho]
    exact hscope _ _ _ _ _ (by simpa using collect_intr ho) hd

end Group

namespace Body
variable {σ : Type} {env : Env σ}
  {R : Scope → State σ → List Mark → State σ → Option Interrupt → Prop}

theorem look_interp (name method : String) (b : Body σ) (r : Scope) (s : State σ) :
    (Body.look name method b).interp env r s =
      (b.interp env r (FilteredLogger.holding name method s)).after
        [.looked name method (FilteredLogger.forwards s.loggingEnabled method)] := rfl

theorem log_interp (name message : String) (b : Body σ) (r : Scope) (s : State σ) :
    (Body.log name message b).interp env r s =
      (b.interp env r s).after (FilteredLogger.callMarks s name message) := by
  rw [interp, FilteredLogger.call, Comp.bind_assoc, Comp.get_bind, FilteredLogger.callMarks]
  cases s.held name with
  | none => exact (Done.after_nil _).symm
  | some found => rfl

/-- The one induction over bodies: a relation that the step methods and the
groups keep is kept by every body. -/
theorem guar_interp (hR : Chain R)
    (hpath : ∀ r p s l s' o, R { r with path := p } s l s' o → R r s l s' o)
    (hstore : ∀ r s x, R r s [] { s with store := x } none)
    (hlook : ∀ r s name method, R r s
      [.looked name method (FilteredLogger.forwards s.loggingEnabled method)]
      (FilteredLogger.holding name method s) none)
    (hlog : ∀ r s name message found, s.held name = some found →
      R r s [.logged name found.method message found.forwards] s none)
    (hinvalid : ∀ stepId r s, R r s [.parsed r.path (Step.parsedAt env stepId s).hashed r.running]
      (Step.countedAt env stepId s) none)
    (hstep : ∀ stepId info decode outputType handler r s d,
      info.id = (Step.parsedAt env stepId s).hashed → Guar R handler →
      Step.StepDone env info decode outputType handler r (Step.countedAt env stepId s) d →
      R r s (.parsed r.path info.id r.running :: d.log) d.state d.outcome.escape)
    (hgroup : ∀ callables mode, (∀ c ∈ callables, Guar R c) →
      Guar R (Group.parallel callables mode))
    (hended : ∀ r s complete, R r s [.groupEnded complete] s none)
    (b : Body σ) : Guar R (b.interp env) := by
  have hnext : ∀ {α : Type} {m : Exec σ α}, Guar R m → Guar R (Comp.within Scope.next m) :=
    fun h r s => hpath _ _ _ _ _ _ (h r.next s)
  induction b with
  | ret v => exact guar_done hR v
  | raise e => exact guar_raise hR e
  | code f k ih =>
    intro r s
    exact hR.append (hstore r s (f s.store)) (ih _ r _)
  | look name method b ih =>
    intro r s
    exact hR.append (hlook r s name method) (ih r _)
  | log name message b ih =>
    intro r s
    rw [log_interp, FilteredLogger.callMarks]
    cases hheld : s.held name with
    | none => exact hR.append (hR.nil r s) (ih r s)
    | some found => exact hR.append (hlog r s name message found hheld) (ih r s)
  | site n b ih => exact fun r s => hpath _ _ _ _ _ _ (ih (r.site n) s)
  | run stepId outputType handler k ihh ihk =>
    refine guar_andThen hR (fun r s => ?_) (fun x => hnext (ihk x))
    obtain ⟨d, hd, he⟩ := Step.run_done env stepId outputType
      (Comp.within Scope.handler (handler.interp env)) r s
    rw [he]
    exact hstep stepId _ _ _ _ r s d rfl (fun r s => hpath _ _ _ _ _ _ (ihh r.handler s)) hd
  | call c k ih =>
    refine guar_andThen hR (fun r s => ?_) (fun x => hnext (ih x))
    rcases Step.call_done env c r s with ⟨e, -, he⟩ | ⟨opts, d, -, hd, he⟩
    · rw [he]
      exact hinvalid c.stepId r s
    · rw [he]
      exact hstep c.stepId _ _ _ _ r s d rfl (guar_raise hR _) hd
  | parallel n callables mode k ihc ihk =>
    refine guar_andThen hR (hgroup _ _ fun c hc => ?_)
      (fun x r s => hR.append (hended r s _) (hnext (ihk x) r s))
    obtain ⟨i, rfl⟩ := List.mem_ofFn.mp hc
    exact fun r s => hpath _ _ _ _ _ _ (ihc i (r.callable i) s)

end Body

end Inngest
