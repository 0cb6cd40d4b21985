import Inngest.RemoteState

/-!
# The remote state middleware in the engine

The code of a function does not touch the object store, so a request's client
is used where its hooks are called: first for the memos, and at most once at
the end.
-/

set_option autoImplicit false

namespace Inngest.RemoteState
open ServerLib Errors StepLib Effect Engine MiddlewareManager

variable {τ : Type} {json : JsonText} {driver : S3Driver}

def inSession : Body τ → Body (Session τ)
  | .ret v => .ret v
  | .raise e => .raise e
  | .code f k => .code (fun s => { s with user := f s.user }) fun s => inSession (k s.user)
  | .look name method b => .look name method (inSession b)
  | .log name message b => .log name message (inSession b)
  | .site n b => .site n (inSession b)
  | .run stepId outputType handler k =>
    .run stepId outputType (inSession handler) fun x => inSession (k x)
  | .call c k => .call c fun x => inSession (k x)
  | .parallel n callables mode k =>
    .parallel n (fun i => inSession (callables i)) mode fun x => inSession (k x)

def withRemote (json : JsonText) (driver : S3Driver) (env : Env (Session τ)) : Env (Session τ) :=
  { env with middleware := fromClient [RemoteStateMiddleware.hooks json driver] [] }

/-! ## What leaves the client alone -/

def Keeps {ρ ι : Type} (_ : ρ) (s : State (Session τ)) (_ : List Mark) (s' : State (Session τ))
    (_ : Option ι) : Prop :=
  s'.store.remote = s.store.remote

theorem keeps_chain : Chain (Keeps (τ := τ) (ρ := Scope) (ι := Interrupt)) where
  nil _ _ := rfl
  append h h' := h'.trans h

section Engine
variable {env : Env (Session τ)} {r : Scope} {s : State (Session τ)}

theorem beforeExecution_store :
    (beforeExecution (withRemote json driver env).flavor
      (withRemote json driver env).middleware r s).state.store =
      s.store := by
  cases h : s.beforeExecutionCalled with
  | true => rw [beforeExecution_again h]
  | false =>
    rw [beforeExecution_first h]
    cases (withRemote json driver env).flavor <;> rfl

theorem afterExecution_quiet :
    afterExecution (withRemote json driver env).flavor (withRemote json driver env).middleware r s =
      ⟨.ok (.ok ()), s, []⟩ := by
  cases (withRemote json driver env).flavor <;> rfl

theorem beforeResponse_quiet :
    beforeResponse (withRemote json driver env).flavor (withRemote json driver env).middleware r s =
      ⟨.ok (.ok ()), s, []⟩ := by
  cases (withRemote json driver env).flavor <;> rfl

theorem popMemo_store (info : StepInfo) :
    (Execution.popMemo (withRemote json driver env) info r s).state.store = s.store := by
  obtain ⟨-, -, err, ho, -⟩ := beforeExecution_done (withRemote json driver env).flavor
    (withRemote json driver env).middleware r { s with memos := s.memos.erase info.id }
  by_cases h0 : Dict.size (s.memos.erase info.id) = 0
  · simp only [Execution.popMemo, StepMemos.pop, Comp.get_bind, Comp.modify_bind, Comp.ask_bind,
      Comp.mark_bind, h0, if_true]
    rw [Comp.bind_ok ho]
    exact beforeExecution_store
  · simp [Execution.popMemo, StepMemos.pop, h0]

variable {handler : Exec (Session τ) Json}

theorem keeps_settle {info : StepInfo} {decode : Json → Except PyError Json}
    {otherwise : Exec (Session τ) Json} (h : Guar Keeps otherwise) (r : Scope)
    (s : State (Session τ)) (decision : Decision) :
    (Step.settle info decode otherwise r s decision).state.store.remote = s.store.remote := by
  cases decision with
  | answer memo =>
    rw [Step.settle]
    split
    · rfl
    · rw [Comp.ofExcept_run]
  | skip => rfl
  | respond op => rfl
  | go =>
    rw [Step.settle]
    split
    · rfl
    · exact h _ s

theorem keeps_reported {info : StepInfo} {decode : Json → Except PyError Json}
    {otherwise : Exec (Session τ) Json} (h : Guar Keeps otherwise) :
    Guar Keeps (Step.reported (withRemote json driver env) info decode otherwise) := by
  intro r s
  rw [Step.reported_eq]
  exact (keeps_settle h r _ _).trans (congrArg Session.remote (popMemo_store info))

theorem keeps_run {stepId : String} {outputType : Option OutputType} (h : Guar Keeps handler) :
    Guar Keeps (Step.run (withRemote json driver env) stepId outputType handler) := by
  have hexecute : ∀ info, Guar Keeps
      (Step.execute (withRemote json driver env) info outputType handler) := by
    intro info r s
    rw [Keeps, Step.execute_eq]
    exact h r s
  intro r s
  rw [Keeps, Step.run_eq, Done.after_state]
  exact keeps_reported (hexecute _) r (Step.countedAt (withRemote json driver env) stepId s)

theorem keeps_call (c : StepCall) : Guar Keeps (Step.call (withRemote json driver env) c) := by
  intro r s
  cases h : c.opts with
  | error e =>
    rw [Step.call_error _ h]
    rfl
  | ok opts =>
    rw [Keeps, Step.call_eq _ h, Done.after_state]
    exact keeps_reported (guar_raise keeps_chain _) r
      (Step.countedAt (withRemote json driver env) c.stepId s)

theorem keeps_group {callables : List (Exec (Session τ) Json)} {mode : ParallelMode}
    (hcs : ∀ c ∈ callables, Guar Keeps c) : Guar Keeps (Group.parallel callables mode) := by
  refine Group.guar_parallel (G := fun _ s _ s' _ => s'.store.remote = s.store.remote)
    ?_ (fun r s l s' o _ h => h) (fun r s l s' ds mode h => h) mode hcs
  exact fun r => ⟨fun s => rfl, fun h h' => h'.trans h, fun h h' _ => h'.trans h,
    fun h h' => h'.trans h, fun h h' _ => h'.trans h⟩

theorem keeps_inSession (b : Body τ) :
    Guar Keeps ((inSession b).interp (withRemote json driver env)) := by
  have hwithin : ∀ {α : Type} {m : Exec (Session τ) α} (f : Scope → Scope), Guar Keeps m →
      Guar Keeps (Comp.within f m) := fun f h r s => h (f r) s
  induction b with
  | ret v => exact guar_done keeps_chain v
  | raise e => exact guar_raise keeps_chain e
  | code f k ih =>
    exact fun r s => ih _ r { s with store := { s.store with user := f s.store.user } }
  | look name method b ih =>
    intro r s
    rw [inSession, Body.look_interp]
    exact ih r _
  | log name message b ih =>
    intro r s
    rw [inSession, Body.log_interp]
    exact ih r s
  | site n b ih => exact hwithin _ ih
  | run stepId outputType handler k ihh ihk =>
    exact guar_andThen keeps_chain (keeps_run (hwithin _ ihh)) fun x => hwithin _ (ihk x)
  | call c k ih => exact guar_andThen keeps_chain (keeps_call c) fun x => hwithin _ (ih x)
  | parallel n callables mode k ihc ihk =>
    refine guar_andThen keeps_chain (keeps_group fun c hc => ?_) fun x r s => hwithin _ (ihk x) r s
    obtain ⟨i, rfl⟩ := List.mem_ofFn.mp hc
    exact hwithin _ (ihc i)

end Engine

/-! ## The hooks for input and output -/

section Hooks
variable {env : Env (Session τ)} {r : Scope} {s : State (Session τ)}

theorem beforeExecution_quiet :
    (beforeExecution (withRemote json driver env).flavor
      (withRemote json driver env).middleware r s).outcome =
      .ok none := by
  cases h : s.beforeExecutionCalled with
  | true => rw [beforeExecution_again h]
  | false =>
    rw [beforeExecution_first h]
    cases (withRemote json driver env).flavor <;> rfl

theorem transformInput_remote {ctx : Context} {steps : StepMemos} {store : Session τ}
    {x : Context × StepMemos} {err : Option PyError}
    (h : (RemoteStateMiddleware.transformInput json).call s.store (ctx, steps) =
      ((store, x), err)) :
    transformInput (withRemote json driver env).flavor (withRemote json driver env).middleware ctx
      steps r s =
      ⟨.ok (err.elim (.ok x) .error), { s with store := store }, []⟩ := by
  change hookLoop (refuseCoroutine env.flavor Hooks.transformInput) Hooks.transformInput
    [.user (RemoteStateMiddleware.hooks json driver)] (ctx, steps) r s = _
  have hcall : (RemoteStateMiddleware.hooks json driver).transformInput.call s.store (ctx, steps) =
      ((store, x), err) := h
  rw [hookLoop_user (by simp [refuseCoroutine, RemoteStateMiddleware.hooks,
    RemoteStateMiddleware.transformInput]), hcall]
  cases err <;> rfl

theorem transformOutputHooks_remote {result result' : TransformOutputResult} {store : Session τ}
    {err : Option PyError}
    (h : (RemoteStateMiddleware.transformOutput json driver).call s.store result =
      ((store, result'), err)) :
    transformOutputHooks (withRemote json driver env).flavor (withRemote json driver env).middleware
      result r s =
      ⟨.ok (err.elim (.ok result') .error), { s with store := store }, []⟩ := by
  have hcall : ((RemoteStateMiddleware.hooks json driver).transformOutput.called env.flavor).call
      s.store result = ((store, result'), err) := by
    rw [Hook.called_plain rfl]
    exact h
  change hookLoop (fun m => env.flavor = .sync ∧ m.isMiddleware)
    (fun m => m.transformOutput.called env.flavor)
    [.user (RemoteStateMiddleware.hooks json driver), .logger] result r s = _
  rw [hookLoop_user (by simp [RemoteStateMiddleware.hooks]), hcall]
  cases err <;> rfl

theorem input_ok {store : Session τ} {ctx : Context} {steps steps' : StepMemos}
    (h : (S3Driver.loadSteps json store.remote.client steps).2 = .ok steps') :
    (RemoteStateMiddleware.transformInput json).call store (ctx, steps) =
      (({ store with remote := ⟨(S3Driver.loadSteps json store.remote.client steps).1,
        some ctx.runId, store.remote.created⟩ }, (ctx, steps')), none) := by
  simp only [RemoteStateMiddleware.transformInput]
  rw [← Prod.eta (S3Driver.loadSteps json store.remote.client steps), h]

theorem input_error {store : Session τ} {ctx : Context} {steps : StepMemos} {e : PyError}
    (h : (S3Driver.loadSteps json store.remote.client steps).2 = .error e) :
    (RemoteStateMiddleware.transformInput json).call store (ctx, steps) =
      (({ store with remote := { store.remote with
        client := (S3Driver.loadSteps json store.remote.client steps).1 } }, (ctx, steps)),
        some e) := by
  simp only [RemoteStateMiddleware.transformInput]
  rw [← Prod.eta (S3Driver.loadSteps json store.remote.client steps), h]

theorem output_other {store : Session τ} {result : TransformOutputResult}
    (h : ∀ info, result.step = some info → info.op = .stepRun → result.output = none) :
    (RemoteStateMiddleware.transformOutput json driver).call store result =
      ((store, result), none) := by
  simp only [RemoteStateMiddleware.transformOutput]
  cases hstep : result.step with
  | none => rfl
  | some info =>
    by_cases hop : info.op = .stepRun
    · simp [hop, h info hstep hop]
    · simp [hop]

inductive OutputDone (json : JsonText) (driver : S3Driver) (store : Session τ)
    (result : TransformOutputResult) : (Session τ × TransformOutputResult) × Option PyError → Prop
  | other : (∀ info, result.step = some info → info.op = .stepRun → result.output = none) →
      OutputDone json driver store result ((store, result), none)
  | failed {remote e} : remote.client = store.remote.client →
      OutputDone json driver store result (({ store with remote := remote }, result), some e)
  | saved {v runId body} : result.output = some v → json.dumps v = .ok body →
      OutputDone json driver store result
        (({ store with remote := ⟨store.remote.client.putObject driver.bucket
              (S3Driver.objectKey runId (driver.createKey store.remote.created)) body,
            some runId, store.remote.created + 1⟩ },
          { result with output := some (S3Driver.surrogate driver.bucket
            (S3Driver.objectKey runId (driver.createKey store.remote.created))) }), none)

theorem output_done (json : JsonText) (driver : S3Driver) (store : Session τ)
    (result : TransformOutputResult) :
    OutputDone json driver store result
      ((RemoteStateMiddleware.transformOutput json driver).call store result) := by
  by_cases hother : ∀ info, result.step = some info → info.op = .stepRun → result.output = none
  · rw [output_other hother]
    exact .other hother
  · push Not at hother
    obtain ⟨info, hstep, hop, houtput⟩ := hother
    obtain ⟨v, hv⟩ := Option.ne_none_iff_exists'.mp houtput
    cases hrun : store.remote.runId with
    | none =>
      have hcall : (RemoteStateMiddleware.transformOutput json driver).call store result =
          ((store, result), some RemoteStateMiddleware.missingRunId) := by
        simp [RemoteStateMiddleware.transformOutput, hstep, hop, hv, hrun]
      rw [hcall]
      exact .failed rfl
    | some runId =>
      cases hbody : json.dumps v with
      | error e =>
        have hcall : (RemoteStateMiddleware.transformOutput json driver).call store result =
            (({ store with remote := { store.remote with created := store.remote.created + 1 } },
              result), some e) := by
          simp [RemoteStateMiddleware.transformOutput, hstep, hop, hv, hrun, S3Driver.saveStep,
            hbody]
        rw [hcall]
        exact .failed rfl
      | ok body =>
        have hcall : (RemoteStateMiddleware.transformOutput json driver).call store result =
            (({ store with remote := ⟨store.remote.client.putObject driver.bucket
                  (S3Driver.objectKey runId (driver.createKey store.remote.created)) body,
                some runId, store.remote.created + 1⟩ },
              { result with output := some (S3Driver.surrogate driver.bucket
                (S3Driver.objectKey runId (driver.createKey store.remote.created))) }), none) := by
          simp [RemoteStateMiddleware.transformOutput, hstep, hop, hv, hrun, S3Driver.saveStep,
            hbody]
        rw [hcall]
        exact .saved hv hbody

theorem prefix_output {store store' : Session τ} {result result' : TransformOutputResult}
    {err : Option PyError} (h : (RemoteStateMiddleware.transformOutput json driver).call store
      result = ((store', result'), err)) :
    store.remote.client.puts <+: store'.remote.client.puts := by
  have hdone := output_done json driver store result
  rw [h] at hdone
  cases hdone with
  | other => exact List.prefix_rfl
  | failed hclient =>
    rw [hclient]
  | saved => exact S3Client.prefix_putObject _ _ _ _

theorem prepare_failed {ctx : Context} {t : State (Session τ)} {e : PyError}
    (h : transformInput (withRemote json driver env).flavor (withRemote json driver env).middleware
      ctx s.memos r s =
      ⟨.ok (.error e), t, []⟩) :
    Execution.prepare (withRemote json driver env) ctx r s = ⟨.ok (.error e), t, []⟩ := by
  rw [Execution.prepare, Comp.get_bind, Comp.bind_ok (by rw [h]), h]
  rfl

theorem prepare_loaded {ctx ctx' : Context} {steps : StepMemos} {t : State (Session τ)}
    (h : transformInput (withRemote json driver env).flavor (withRemote json driver env).middleware
      ctx s.memos r s =
      ⟨.ok (.ok (ctx', steps)), t, []⟩) :
    (Execution.prepare (withRemote json driver env) ctx r s).outcome = .ok (.ok ctx') ∧
      (Execution.prepare (withRemote json driver env) ctx r s).state.memos = steps ∧
      (Execution.prepare (withRemote json driver env) ctx r s).state.store = t.store := by
  rw [Execution.prepare, Comp.get_bind, Comp.bind_ok (by rw [h]), h]
  by_cases h0 : Dict.size steps = 0
  · simp only [Comp.modify_bind, h0, if_true, Done.after_nil]
    rw [Comp.bind_ok beforeExecution_quiet]
    refine ⟨rfl, ?_, beforeExecution_store⟩
    exact (beforeExecution_done _ _ _ _).frame.memos
  · simp [h0]

theorem finish_quiet (o : Outcome PyError Interrupt Json) :
    (Execution.finish (withRemote json driver env) o r s).state = s := by
  have hafter : ∀ result, (Execution.afterExecutionThen (withRemote json driver env) result r
      s).state = s := by
    intro result
    rw [Execution.afterExecutionThen, Comp.bind_ok (by rw [afterExecution_quiet]),
      afterExecution_quiet]
    rfl
  rcases o with output | e | responses | stepId | _
  · exact hafter _
  · rfl
  · exact hafter _
  · rfl
  · rfl

theorem transformItem_remote {item : CallItem} (hitem : item.isEmpty = false)
    {result' : TransformOutputResult} {store : Session τ} {err : Option PyError}
    (h : (RemoteStateMiddleware.transformOutput json driver).call s.store item.toTransform =
      ((store, result'), err)) :
    transformItem (withRemote json driver env).flavor (withRemote json driver env).middleware item
        r s =
      ⟨.ok (err.elim (.ok (item.update result')) .error), { s with store := store }, []⟩ := by
  have hhooks : transformOutputHooks (withRemote json driver env).flavor
      (withRemote json driver env).middleware item.toTransform r s = _ :=
    transformOutputHooks_remote h
  rw [transformItem, if_neg (by simp [hitem]), Comp.bind_ok (by rw [hhooks]), hhooks]
  cases err <;> rfl

theorem puts_transformItem (item : CallItem) :
    s.store.remote.client.puts <+:
      (transformItem (withRemote json driver env).flavor (withRemote json driver env).middleware
        item r s).state.store.remote.client.puts := by
  cases hitem : item.isEmpty with
  | true =>
    rw [transformItem, if_pos hitem]
    exact List.prefix_rfl
  | false =>
    obtain ⟨⟨⟨store, result⟩, err⟩, hcall⟩ : ∃ x, (RemoteStateMiddleware.transformOutput json
        driver).call s.store item.toTransform = x := ⟨_, rfl⟩
    rw [transformItem_remote hitem hcall]
    exact prefix_output hcall

theorem puts_transformOutput (between : CallResult) :
    s.store.remote.client.puts <+:
      (transformOutput (withRemote json driver env).flavor (withRemote json driver env).middleware
        between r s).state.store.remote.client.puts := by
  rcases hmulti : between.multi with - | - | ⟨item, - | ⟨second, rest⟩⟩
  · rw [transformOutput, hmulti]
    simp only
    rw [Comp.bind_state fun x s => by cases x <;> rfl]
    exact puts_transformItem _
  · rw [transformOutput, hmulti]
    exact List.prefix_rfl
  · rw [transformOutput, hmulti]
    simp only
    rw [Comp.bind_state fun x s => by cases x <;> rfl]
    exact puts_transformItem _
  · rw [transformOutput_several hmulti]

theorem afterRun_state (between : CallResult) :
    (Function.afterRun (withRemote json driver env) between r s).state =
      (transformOutput (withRemote json driver env).flavor (withRemote json driver env).middleware
        between r s).state := by
  rw [Function.afterRun]
  refine Comp.bind_state fun x s => ?_
  cases x with
  | error e => rfl
  | ok result =>
    simp only
    rw [Comp.bind_ok (by rw [beforeResponse_quiet]), beforeResponse_quiet]
    rfl

theorem afterRun_function {between : CallResult} (hmulti : between.multi = none)
    (hstep : between.step = none) :
    (Function.afterRun (withRemote json driver env) between r s).outcome = .ok between := by
  have hitem : transformItem (withRemote json driver env).flavor
      (withRemote json driver env).middleware between.toCallItem r s =
        ⟨.ok (.ok between.toCallItem), s, []⟩ := by
    cases hempty : between.toCallItem.isEmpty with
    | true =>
      rw [transformItem, if_pos hempty]
      rfl
    | false =>
      have hnone : ∀ info, between.toCallItem.toTransform.step = some info →
          info.op = .stepRun → between.toCallItem.toTransform.output = none := by
        simp [CallItem.toTransform, hstep]
      rw [transformItem_remote hempty (output_other hnone), Option.elim_none,
        CallItem.update_toTransform]
  have hrun := transformOutput_none hmulti hitem
  rw [Function.afterRun, Comp.bind_ok (by rw [hrun]), hrun]
  simp only [Except.map, Done.after_outcome]
  rw [Comp.bind_ok (by rw [beforeResponse_quiet]), beforeResponse_quiet]
  obtain ⟨item, multi⟩ := between
  obtain rfl : multi = none := hmulti
  rfl

end Hooks

end Inngest.RemoteState
