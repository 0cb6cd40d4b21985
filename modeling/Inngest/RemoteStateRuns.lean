import Inngest.RemoteStateHooks

/-!
# Requests over a shared store

Requests of any number of runs, with the remote state middleware, put objects
into one store and get them from it, in any order.
-/

set_option autoImplicit false

namespace Inngest.RemoteState
open ServerLib Errors StepLib Effect Engine MiddlewareManager

variable {τ : Type} {json : JsonText}

/-! ## Requests -/

/-- A request as it reaches the SDK. `parse` is the JSON reader of the memos'
parser, and `client` what the object store is then and does later. -/
structure Request (τ : Type) where
  env : Env (Session τ)
  driver : S3Driver
  fn : Function τ
  fnId : String
  ctx : Context
  parse : String → Option Json
  raw : Dict Json
  loggingEnabled : Bool
  user : τ
  client : S3Client

def sessionFunction (fn : Function τ) : Function (Session τ) where
  id := fn.id
  handler ctx := inSession (fn.handler ctx)
  outputType := fn.outputType
  onFailure := fn.onFailure.map fun handler ctx => inSession (handler ctx)

namespace Request
variable (json : JsonText) (R : Request τ)

abbrev remoteEnv : Env (Session τ) := withRemote json R.driver R.env

def inv : Invocation (Session τ) where
  ctx := R.ctx
  memos := StepMemos.fromRaw R.parse R.raw
  loggingEnabled := R.loggingEnabled
  store := ⟨⟨R.client, none, 0⟩, R.user⟩

def call : Run (Session τ) CallResult :=
  (sessionFunction R.fn).call (R.remoteEnv json) R.fnId R.ctx Scope.top R.inv.initial

def puts : List Put := (R.call json).state.store.remote.client.puts

def loaded : S3Client × Except PyError StepMemos :=
  S3Driver.loadSteps json R.client (StepMemos.fromRaw R.parse R.raw)

variable {json R}

theorem prepared_loaded {steps : StepMemos} (h : (R.loaded json).2 = .ok steps) :
    (prepared (R.remoteEnv json) R.inv).outcome = .ok (.ok R.ctx) ∧
      (prepared (R.remoteEnv json) R.inv).state.memos = steps ∧
      (prepared (R.remoteEnv json) R.inv).state.store.remote.client = (R.loaded json).1 := by
  have hload : (S3Driver.loadSteps json R.inv.initial.store.remote.client
      R.inv.initial.memos).2 = .ok steps := h
  have hrun : transformInput (R.remoteEnv json).flavor (R.remoteEnv json).middleware R.ctx
      R.inv.initial.memos Scope.top R.inv.initial = _ := transformInput_remote (input_ok hload)
  obtain ⟨ho, hm, hs⟩ := prepare_loaded hrun
  exact ⟨ho, hm, congrArg (fun store : Session τ => store.remote.client) hs⟩

theorem prepared_client :
    (prepared (R.remoteEnv json) R.inv).state.store.remote.client = (R.loaded json).1 := by
  cases h : (R.loaded json).2 with
  | error e =>
    have hload : (S3Driver.loadSteps json R.inv.initial.store.remote.client
        R.inv.initial.memos).2 = .error e := h
    have hrun : transformInput (R.remoteEnv json).flavor (R.remoteEnv json).middleware R.ctx
        R.inv.initial.memos Scope.top R.inv.initial = _ :=
      transformInput_remote (input_error hload)
    have hprepare : Execution.prepare (R.remoteEnv json) R.ctx Scope.top R.inv.initial = _ :=
      prepare_failed hrun
    exact congrArg (fun d => d.state.store.remote.client) hprepare
  | ok steps => exact (prepared_loaded h).2.2

theorem select_session (fn : Function τ) (fnId : String) :
    (sessionFunction fn).select fnId =
      (fn.select fnId).map fun x => (fun ctx => inSession (x.1 ctx), x.2) := by
  by_cases hid : fn.id = fnId
  · simp [Function.select, sessionFunction, hid, Except.map]
  · cases hfailure : fn.onFailure with
    | none =>
      simp [Function.select, Function.onFailureFnId, sessionFunction, hid, hfailure, Except.map]
    | some handler =>
      by_cases hfailureId : fn.id ++ "-failure" = fnId <;>
        simp [Function.select, Function.onFailureFnId, sessionFunction, hid, hfailure, hfailureId,
          Except.map]

theorem request_remote (body : Context → Body τ) (outputType : Option OutputType) :
    (request (R.remoteEnv json) (fun ctx => inSession (body ctx)) outputType
        R.inv).state.store.remote =
      (prepared (R.remoteEnv json) R.inv).state.store.remote := by
  obtain ⟨x, hx⟩ := prepared_outcome (R.remoteEnv json) R.inv
  cases x with
  | error e => rw [request_stopped _ outputType hx]
  | ok ctx =>
    rw [request_called _ outputType hx, Done.after_state, Execution.callHandler_eq,
      Done.after_state]
    rw [finish_quiet]
    exact keeps_inSession (body ctx) Scope.top _

theorem call_eq {body : Context → Body τ} {outputType : Option OutputType}
    (h : R.fn.select R.fnId = .ok (body, outputType)) {between : CallResult}
    (hresult : (request (R.remoteEnv json) (fun ctx => inSession (body ctx)) outputType
      R.inv).outcome = .ok between) :
    R.call json = (Function.afterRun (R.remoteEnv json) between Scope.top
        (request (R.remoteEnv json) (fun ctx => inSession (body ctx)) outputType R.inv).state).after
      (request (R.remoteEnv json) (fun ctx => inSession (body ctx)) outputType R.inv).log := by
  have hselect := select_session R.fn R.fnId
  rw [h] at hselect
  rw [call, Function.call, hselect]
  exact Comp.bind_ok hresult

theorem puts_loaded {body : Context → Body τ} {outputType : Option OutputType}
    (h : R.fn.select R.fnId = .ok (body, outputType)) :
    (R.loaded json).1.puts <+: R.puts json := by
  have hclient : (request (R.remoteEnv json) (fun ctx => inSession (body ctx)) outputType
      R.inv).state.store.remote.client = (R.loaded json).1 :=
    (congrArg Remote.client (request_remote body outputType)).trans prepared_client
  obtain ⟨between, hresult, -⟩ := StepResults.request_result (R.remoteEnv json)
    (fun ctx => inSession (body ctx)) outputType R.inv
  rw [puts, call_eq h hresult, ← hclient, Done.after_state, afterRun_state]
  exact puts_transformOutput between

/-- The responses with which the code of the function ends. -/
def Ends (json : JsonText) (R : Request τ) (rs : List StepResponse) : Prop :=
  ∃ body outputType ctx, R.fn.select R.fnId = .ok (body, outputType) ∧
    (prepared (R.remoteEnv json) R.inv).outcome = .ok (.ok ctx) ∧
    (codeRun (R.remoteEnv json) (fun ctx => inSession (body ctx)) R.inv ctx).outcome =
      .intr (.response rs)

/-- What a step returned is not reported beside other responses. -/
def Alone (json : JsonText) (R : Request τ) : Prop :=
  ∀ rs, R.Ends json rs → ∀ x ∈ rs, x.step.op = .stepRun → rs = [x]

/-- The request reports `w` for a `step.run`. -/
def Reports (json : JsonText) (R : Request τ) (id : String) (w : Json) : Prop :=
  ∃ result items item info, (R.call json).outcome = .ok result ∧ result.multi = some items ∧
    item ∈ items ∧ item.step = some info ∧ info.op = .stepRun ∧ info.id = id ∧
    item.output = some w

/-- `w` names the object that holds the value, and nothing else. -/
structure Stands (json : JsonText) (R : Request τ) (w v : Json) (p : Put) : Prop where
  surrogate : w = S3Driver.surrogate p.bucket p.key
  body : json.dumps v = .ok p.body
  put : p ∈ R.puts json
  bucket : p.bucket = R.driver.bucket

theorem call_items {result : CallResult} {items : List CallItem}
    (h : (R.call json).outcome = .ok result) (hitems : result.multi = some items) :
    ∃ body outputType between ctx rs, R.fn.select R.fnId = .ok (body, outputType) ∧
      (prepared (R.remoteEnv json) R.inv).outcome = .ok (.ok ctx) ∧
      (codeRun (R.remoteEnv json) (fun ctx => inSession (body ctx)) R.inv ctx).outcome =
        .intr (.response rs) ∧
      (request (R.remoteEnv json) (fun ctx => inSession (body ctx)) outputType R.inv).outcome =
        .ok between ∧ between.multi = some (rs.map CallResult.itemOf) ∧
      (transformOutput (R.remoteEnv json).flavor (R.remoteEnv json).middleware between Scope.top
        (request (R.remoteEnv json) (fun ctx => inSession (body ctx)) outputType
          R.inv).state).outcome = .ok (.ok result) := by
  cases hselect : R.fn.select R.fnId with
  | error e =>
    have hsession := select_session R.fn R.fnId
    rw [hselect] at hsession
    rw [call, Function.call, hsession] at h
    rw [← Outcome.ok.inj h] at hitems
    simp [CallResult.ofError] at hitems
  | ok x =>
    obtain ⟨body, outputType⟩ := x
    obtain ⟨between, hresult, -⟩ := StepResults.request_result (R.remoteEnv json)
      (fun ctx => inSession (body ctx)) outputType R.inv
    rw [call_eq hselect hresult, Done.after_outcome] at h
    have hpiped := DataPipeline.afterRun_items h hitems
    obtain ⟨items', hbetween⟩ : ∃ items', between.multi = some items' := by
      refine Option.ne_none_iff_exists'.mp fun hnone => ?_
      rw [DataPipeline.transformOutput_none_multi hnone hpiped] at hitems
      simp at hitems
    obtain ⟨ctx, rs, hx, hcode, rfl⟩ := DataPipeline.request_responses hresult hbetween
    exact ⟨body, outputType, between, ctx, rs, rfl, hx, hcode, hresult, hbetween, hpiped⟩

theorem output_single {between result : CallResult} {x : StepResponse} {s : State (Session τ)}
    (hmulti : between.multi = some [CallResult.itemOf x]) (hop : x.step.op = .stepRun)
    (h : (transformOutput (R.remoteEnv json).flavor (R.remoteEnv json).middleware between Scope.top
      s).outcome = .ok (.ok result)) :
    ∃ p : Put, json.dumps x.output = .ok p.body ∧ p.bucket = R.driver.bucket ∧
      p ∈ (transformOutput (R.remoteEnv json).flavor (R.remoteEnv json).middleware between Scope.top
        s).state.store.remote.client.puts ∧
      result.multi = some [{ CallResult.itemOf x with
        output := some (S3Driver.surrogate p.bucket p.key) }] := by
  obtain ⟨⟨⟨store, result'⟩, err⟩, hcall⟩ : ∃ y, (RemoteStateMiddleware.transformOutput json
      R.driver).call s.store (CallResult.itemOf x).toTransform = y := ⟨_, rfl⟩
  have hitem : transformItem (R.remoteEnv json).flavor (R.remoteEnv json).middleware
      (CallResult.itemOf x) Scope.top s = _ :=
    transformItem_remote (by simp [CallItem.isEmpty, CallResult.itemOf]) hcall
  have hrun := transformOutput_one hmulti hitem
  have hdone := output_done json R.driver s.store (CallResult.itemOf x).toTransform
  rw [hrun] at h ⊢
  rw [hcall] at hdone
  cases hdone with
  | other hnone =>
    exact absurd (hnone _ rfl hop) (by simp [CallResult.itemOf, CallItem.toTransform])
  | failed => simp [Except.map] at h
  | @saved v runId body hv hbody =>
    obtain rfl : x.output = v := Option.some.inj hv
    refine ⟨_, hbody, rfl, S3Client.mem_putObject _ _ _ _, ?_⟩
    rw [← Except.ok.inj (Outcome.ok.inj h)]
    rfl

theorem reports_surrogate (halone : R.Alone json) {id : String} {w : Json}
    (h : R.Reports json id w) :
    ∃ v p, .leave id (.returned v) ∈ (R.call json).log ∧ Stands json R w v p := by
  obtain ⟨result, items, item, info, hcall, hitems, hitem, hinfo, hop, rfl, hw⟩ := h
  obtain ⟨body, outputType, between, ctx, rs, hselect, hx, hcode, hresult, hmulti, hpiped⟩ :=
    call_items hcall hitems
  have hends : R.Ends json rs := ⟨body, outputType, ctx, hselect, hx, hcode⟩
  rcases DataPipeline.transformOutput_items hmulti hpiped hitems with
    ⟨x, result', rfl, rfl, -⟩ | ⟨hlen, rfl⟩
  · obtain rfl := List.mem_singleton.mp hitem
    simp only [CallItem.update, CallResult.itemOf, Option.map_some, Option.some.injEq] at hinfo
    subst hinfo
    obtain ⟨p, hbody, hbucket, hput, hresult'⟩ := output_single hmulti hop hpiped
    rw [hresult'] at hitems
    have hsame := List.singleton_injective (Option.some.inj hitems)
    refine ⟨x.output, p, ?_, ?_, hbody, ?_, hbucket⟩
    · rw [call_eq hselect hresult, Done.after_log]
      exact List.mem_append_left _
        (DataPipeline.responses_returned outputType hx hcode List.mem_cons_self hop).2
    · rw [← hsame] at hw
      exact (Option.some.inj hw).symm
    · rw [puts, call_eq hselect hresult, Done.after_state, afterRun_state]
      exact hput
  · obtain ⟨x, hxrs, rfl⟩ := List.mem_map.mp hitem
    obtain rfl := Option.some.inj hinfo
    have hrs := halone rs hends x hxrs hop
    rw [hrs] at hlen
    simp at hlen

/-- The function is called, and a step call for the memo gives `v`. -/
structure Recalls (json : JsonText) (R : Request τ) (id : String) (v : Json) : Prop where
  prepared : (prepared (R.remoteEnv json) R.inv).outcome = .ok (.ok R.ctx)
  memo : (Inngest.prepared (R.remoteEnv json) R.inv).state.memos.lookup id = some ⟨v, none⟩
  call : ∀ stepId outputType handler (r : Scope) (s : State (Session τ)),
    (Step.parsedAt (R.remoteEnv json) stepId s).hashed = id →
    s.memos.lookup id = (Inngest.prepared (R.remoteEnv json) R.inv).state.memos.lookup id →
    r.inStep = false →
    (Step.run (R.remoteEnv json) stepId outputType handler r s).outcome =
      Outcome.ofExcept ((R.remoteEnv json).deserialize v outputType)

theorem recalls_of_memo {id : String} {v : Json}
    (hprepared : (prepared (R.remoteEnv json) R.inv).outcome = .ok (.ok R.ctx))
    (hmemo : (prepared (R.remoteEnv json) R.inv).state.memos.lookup id = some ⟨v, none⟩) :
    R.Recalls json id v := by
  refine ⟨hprepared, hmemo, fun stepId outputType handler r s hid hs hr => ?_⟩
  rw [Step.run_memoized (R.remoteEnv json) outputType handler (by rw [hid, hs, hmemo]) hr]
  rfl

end Request

/-! ## Histories

The requests of any number of runs. Each saw a beginning of the list of all
puts when it started, and its own puts and those of others while it ran. -/

structure History (τ : Type) where
  puts : List Put
  requests : List (Request τ)

/-- The request ended before the other one started, in the same run. -/
def Request.Before (json : JsonText) (P R : Request τ) : Prop :=
  P.ctx.runId = R.ctx.runId ∧ P.puts json <+: R.client.puts

namespace History
variable (json : JsonText) (H : History τ)

/-- A memo with the driver's markers is what an earlier request of the run
reported for the step. -/
structure Valid : Prop where
  created : ∃ created : List CreatedKey, created.Nodup ∧
    List.Forall₂ (fun p k => ∃ runId, p.key = S3Driver.objectKey runId k) H.puts created
  puts : ∀ R ∈ H.requests, R.puts json <+: H.puts
  memos : ∀ R ∈ H.requests, ∀ id memo, (StepMemos.fromRaw R.parse R.raw).lookup id = some memo →
    S3Driver.isRemote memo.data = false ∨
      ∃ P ∈ H.requests, P.Before json R ∧ ∃ w, P.Reports json id w ∧ memo = ⟨w, none⟩

structure Transparent : Prop where
  /-- what is reported of a `step.run` is the surrogate of what its handler returned -/
  reported : ∀ P ∈ H.requests, ∀ id w, P.Reports json id w →
    ∃ v p, .leave id (.returned v) ∈ (P.call json).log ∧ P.Stands json w v p ∧
      stored H.puts p.bucket p.key = some p.body ∧ json.loads p.body = some v
  /-- and later requests of the run get the value back -/
  recalled : ∀ P ∈ H.requests, ∀ R ∈ H.requests, P.Before json R → ∀ id w v p,
    P.Stands json w v p → (StepMemos.fromRaw R.parse R.raw).lookup id = some ⟨w, none⟩ →
    (R.fn.select R.fnId).isOk = true → R.Recalls json id v
  called : ∀ R ∈ H.requests, (R.fn.select R.fnId).isOk = true →
    (prepared (R.remoteEnv json) R.inv).outcome = .ok (.ok R.ctx)
  foreign : ∀ R ∈ H.requests, ∀ id memo,
    (StepMemos.fromRaw R.parse R.raw).lookup id = some memo →
    S3Driver.isRemote memo.data = false → (R.fn.select R.fnId).isOk = true →
    (prepared (R.remoteEnv json) R.inv).state.memos.lookup id = some memo
  function : ∀ R ∈ H.requests, ∀ body outputType between,
    R.fn.select R.fnId = .ok (body, outputType) →
    (request (R.remoteEnv json) (fun ctx => inSession (body ctx)) outputType R.inv).outcome =
      .ok between → between.multi = none → (R.call json).outcome = .ok between
  /-- no put is ever overwritten -/
  kept : ∀ p ∈ H.puts, ∀ view, view <+: H.puts → p ∈ view →
    stored view p.bucket p.key = some p.body

variable {json H}

theorem Valid.nodup (hvalid : H.Valid json) : (H.puts.map Put.key).Nodup := by
  obtain ⟨created, hcreated, hkeys⟩ := hvalid.created
  exact S3Driver.keys_nodup hcreated hkeys

theorem Valid.kept (hvalid : H.Valid json) {p : Put} {view : List Put} (hview : view <+: H.puts)
    (hp : p ∈ view) : stored view p.bucket p.key = some p.body :=
  stored_of_mem (hvalid.nodup.sublist (hview.sublist.map _)) hp

theorem exists_select {R : Request τ} (h : (R.fn.select R.fnId).isOk = true) :
    ∃ body outputType, R.fn.select R.fnId = .ok (body, outputType) := by
  cases hx : R.fn.select R.fnId with
  | ok x => exact ⟨x.1, x.2, rfl⟩
  | error e => simp [hx, Except.isOk, Except.toBool] at h

theorem Valid.loaded (hvalid : H.Valid json) (halone : ∀ R ∈ H.requests, R.Alone json)
    {R : Request τ} (hR : R ∈ H.requests) (hselect : (R.fn.select R.fnId).isOk = true) :
    ∃ steps, (R.loaded json).2 = .ok steps ∧ ∀ id,
      (StepMemos.fromRaw R.parse R.raw).lookup id = none ∧ steps.lookup id = none ∨
      ∃ memo memo', (StepMemos.fromRaw R.parse R.raw).lookup id = some memo ∧
        steps.lookup id = some memo' ∧
        S3Driver.Loads json R.client.puts H.puts memo memo' := by
  obtain ⟨body, outputType, hbody⟩ := exists_select hselect
  have hputs : (R.loaded json).1.puts <+: H.puts :=
    (Request.puts_loaded hbody).trans (hvalid.puts R hR)
  refine S3Driver.loadSteps_loads List.prefix_rfl hputs fun id memo hmemo => ?_
  rcases hvalid.memos R hR id memo hmemo with hforeign | ⟨P, hP, hbefore, w, hreports, rfl⟩
  · exact ⟨memo, S3Driver.loads_foreign hforeign⟩
  · obtain ⟨v, p, -, hstands⟩ := P.reports_surrogate (halone P hP) hreports
    rw [hstands.surrogate]
    exact ⟨_, S3Driver.loads_surrogate hvalid.nodup (hbefore.2.subset hstands.put) hstands.body⟩

theorem Valid.seen (hvalid : H.Valid json) {R : Request τ} (hR : R ∈ H.requests)
    (hselect : (R.fn.select R.fnId).isOk = true) : R.client.puts <+: H.puts := by
  obtain ⟨body, outputType, hbody⟩ := exists_select hselect
  exact (S3Driver.prefix_loadFrom json _ _).trans
    ((Request.puts_loaded hbody).trans (hvalid.puts R hR))

theorem Valid.prepared (hvalid : H.Valid json) (halone : ∀ R ∈ H.requests, R.Alone json)
    {R : Request τ} (hR : R ∈ H.requests) (hselect : (R.fn.select R.fnId).isOk = true)
    {id : String} {memo memo' : Output}
    (hmemo : (StepMemos.fromRaw R.parse R.raw).lookup id = some memo)
    (hloads : S3Driver.Loads json R.client.puts H.puts memo memo') :
    (Inngest.prepared (R.remoteEnv json) R.inv).outcome = .ok (.ok R.ctx) ∧
      (Inngest.prepared (R.remoteEnv json) R.inv).state.memos.lookup id = some memo' := by
  obtain ⟨steps, hsteps, hlookup⟩ := hvalid.loaded halone hR hselect
  obtain ⟨hprepared, hmemos, -⟩ := Request.prepared_loaded hsteps
  refine ⟨hprepared, ?_⟩
  rw [hmemos]
  rcases hlookup id with ⟨hnone, -⟩ | ⟨x, y, hx, hy, hxy⟩
  · rw [hmemo] at hnone
    cases hnone
  · obtain rfl : memo = x := Option.some.inj (hmemo.symm.trans hx)
    rw [hy, S3Driver.Loads.unique (hvalid.seen hR hselect) hxy hloads]

/-- Remote state is transparent in every history in which no step's result is
reported beside others. -/
theorem transparent (hvalid : H.Valid json) (halone : ∀ R ∈ H.requests, R.Alone json) :
    H.Transparent json := by
  constructor
  · intro P hP id w hreports
    obtain ⟨v, p, hleave, hstands⟩ := P.reports_surrogate (halone P hP) hreports
    have hput : p ∈ H.puts := (hvalid.puts P hP).subset hstands.put
    exact ⟨v, p, hleave, hstands, hvalid.kept List.prefix_rfl hput,
      json.loads_dumps hstands.body⟩
  · intro P hP R hR hbefore id w v p hstands hmemo hselect
    have hloads : S3Driver.Loads json R.client.puts H.puts ⟨w, none⟩ ⟨v, none⟩ := by
      rw [hstands.surrogate]
      exact S3Driver.loads_surrogate hvalid.nodup (hbefore.2.subset hstands.put) hstands.body
    obtain ⟨hprepared, hlookup⟩ := hvalid.prepared halone hR hselect hmemo hloads
    exact Request.recalls_of_memo hprepared hlookup
  · intro R hR hselect
    obtain ⟨steps, hsteps, -⟩ := hvalid.loaded halone hR hselect
    exact (Request.prepared_loaded hsteps).1
  · intro R hR id memo hmemo hforeign hselect
    exact (hvalid.prepared halone hR hselect hmemo (S3Driver.loads_foreign hforeign)).2
  · intro R hR body outputType between hselect hresult hmulti
    obtain ⟨result, hsame, hstep⟩ := StepResults.request_result (R.remoteEnv json)
      (fun ctx => inSession (body ctx)) outputType R.inv
    obtain rfl := Outcome.ok.inj (hresult.symm.trans hsame)
    rw [Request.call_eq hselect hresult]
    exact afterRun_function hmulti hstep
  · exact fun p hp view hview hmem => hvalid.kept hview hmem

end History

/-! ## Two requests of a run -/

def literals : JsonText where
  dumps
    | .null => .ok "null"
    | .bool true => .ok "true"
    | v => .error (exception "TypeError" (toString (repr v)))
  loads
    | "null" => some .null
    | "true" => some (.bool true)
    | _ => none
  loads_dumps {v text} h := by
    split at h
    · rw [← Except.ok.inj h]
      rfl
    · rw [← Except.ok.inj h]
      rfl
    · cases h

def firstKey : CreatedKey := ⟨"0123456789abcdefghijklmnopqrstuv", by decide, by decide⟩

def secondKey : CreatedKey := ⟨"ABCDEFGHIJKLMNOPQRSTUVWXYZ012345", by decide, by decide⟩

def sample (targetHashedId : Option String) (fn : Context → Body Unit) (raw : Dict Json)
    (client : S3Client) : Request Unit where
  env := ⟨.sync, Sample.hashStepId, none, [], ⟨0, false, none, "run"⟩, targetHashedId⟩
  driver := ⟨"bucket", fun _ => firstKey⟩
  fn := ⟨"app-fn", fn, none, none⟩
  fnId := "app-fn"
  ctx := (Sample.invocation []).ctx
  parse _ := none
  raw := raw
  loggingEnabled := false
  user := ()
  client := client

def nothing (_ : Context) : Body Unit := GroupResults.runThenReturn "a" .null

def otherPut : Put := ⟨"bucket", S3Driver.objectKey "other" secondKey, "true"⟩

def ownPut : Put := ⟨"bucket", S3Driver.objectKey "run" firstKey, "null"⟩

def saving : Request Unit := sample none nothing ∅ ⟨[], [[otherPut]]⟩

def reading : Request Unit := sample none nothing
  (AList.insert (Sample.hashStepId "a") (.obj [("data", S3Driver.surrogate "bucket" ownPut.key)]) ∅)
  ⟨[otherPut, ownPut], []⟩

def savedResult : CallItem :=
  ⟨none, some (S3Driver.surrogate "bucket" ownPut.key),
    some ⟨"a", Sample.hashStepId "a", some "a", .stepRun, none, some ⟨"a", none⟩⟩⟩

theorem saving_call : (saving.call literals).outcome =
    .ok ⟨⟨none, none, none⟩, some [savedResult]⟩ := by
  decide

theorem saving_puts : saving.puts literals = [otherPut, ownPut] := by
  decide

theorem saving_reports : saving.Reports literals (Sample.hashStepId "a")
    (S3Driver.surrogate "bucket" ownPut.key) :=
  ⟨_, _, savedResult, _, saving_call, rfl, List.mem_singleton_self _, rfl, rfl, rfl, rfl⟩

theorem reading_puts : reading.puts literals = [otherPut, ownPut] := by
  decide

theorem Request.alone_of {json : JsonText} {R : Request Unit} {body : Context → Body Unit}
    {outputType : Option OutputType} (ctx : Context) {o : Outcome PyError Interrupt Json}
    (hselect : R.fn.select R.fnId = .ok (body, outputType))
    (hx : (prepared (R.remoteEnv json) R.inv).outcome = .ok (.ok ctx))
    (ho : (codeRun (R.remoteEnv json) (fun ctx => inSession (body ctx)) R.inv ctx).outcome = o)
    (h : ∀ rs, o = .intr (.response rs) → ∀ x ∈ rs, rs = [x]) : R.Alone json := by
  rintro rs ⟨body', outputType', ctx', hselect', hx', hcode⟩ x hmem -
  obtain ⟨rfl, rfl⟩ := Prod.mk.inj (Except.ok.inj (hselect.symm.trans hselect'))
  obtain rfl := Except.ok.inj (Outcome.ok.inj (hx.symm.trans hx'))
  exact h rs (ho.symm.trans hcode) x hmem

theorem saving_alone : saving.Alone literals := by
  refine Request.alone_of saving.ctx rfl (by decide)
    (o := .intr (.response [⟨.null, none, ⟨"a", Sample.hashStepId "a", some "a", .stepRun, none,
      some ⟨"a", none⟩⟩⟩])) (by decide) ?_
  rintro rs hrs x hmem
  obtain rfl := Interrupt.response.inj (Outcome.intr.inj hrs)
  rw [List.mem_singleton.mp hmem]

theorem reading_alone : reading.Alone literals := by
  refine Request.alone_of reading.ctx rfl (by decide) (o := .ok .null) (by decide) ?_
  rintro rs hrs
  cases hrs

def twoRequests : History Unit := ⟨[otherPut, ownPut], [saving, reading]⟩

theorem twoRequests_valid : twoRequests.Valid literals where
  created := ⟨[secondKey, firstKey], by simp [CreatedKey.ext_iff, secondKey, firstKey],
    .cons ⟨"other", rfl⟩ (.cons ⟨"run", rfl⟩ .nil)⟩
  puts := by
    intro R hR
    rcases List.mem_pair.mp hR with rfl | rfl
    · rw [saving_puts]
      exact List.prefix_rfl
    · rw [reading_puts]
      exact List.prefix_rfl
  memos := by
    intro R hR id memo hmemo
    rcases List.mem_pair.mp hR with rfl | rfl
    · simp [saving, sample, StepMemos.lookup_fromRaw] at hmemo
    · refine .inr ⟨saving, List.mem_cons_self, ⟨rfl, ?_⟩,
        S3Driver.surrogate "bucket" ownPut.key, ?_⟩
      · rw [saving_puts]
        exact List.prefix_rfl
      · by_cases hid : id = Sample.hashStepId "a"
        · subst hid
          refine ⟨saving_reports, ?_⟩
          rw [StepMemos.lookup_fromRaw, reading, sample, AList.lookup_insert] at hmemo
          rw [← Option.some.inj hmemo, StepMemos.memo_data]
        · rw [StepMemos.lookup_fromRaw, reading, sample, AList.lookup_insert_ne hid] at hmemo
          simp at hmemo

/-- The second request gets the null that the first one's step returned, though
another run put an object meanwhile. -/
theorem transparent_twoRequests :
    twoRequests.Valid literals ∧ (∀ R ∈ twoRequests.requests, R.Alone literals) ∧
      twoRequests.Transparent literals := by
  have halone : ∀ R ∈ twoRequests.requests, R.Alone literals := by
    intro R hR
    rcases List.mem_pair.mp hR with rfl | rfl
    · exact saving_alone
    · exact reading_alone
  exact ⟨twoRequests_valid, halone, History.transparent twoRequests_valid halone⟩

/-! ## Two steps under one ID -/

def clashing (_ : Context) : Body Unit :=
  .parallel 3
    (fun i => match i with
      | 0 => GroupResults.runThenReturn "a" .null
      | 1 => GroupResults.runThenReturn "a" .null
      | 2 => GroupResults.runThenReturn "a:1" (.bool true))
    .wait fun _ => .ret .null

def targeted : Request Unit := sample (some (Sample.hashStepId "a:1")) clashing ∅ ⟨[], []⟩

def oneRequest : History Unit := ⟨[], [targeted]⟩

def targetedItem (stepId : String) (index : Option ℕ) (v : Json) : CallItem :=
  ⟨none, some v, some ⟨stepId, Sample.hashStepId "a:1", some stepId, .stepRun, none,
    some ⟨stepId, index⟩⟩⟩

/-- What the step `a:1` returned is reported as it is. -/
theorem clash_not_transparent : oneRequest.Valid literals ∧ ¬ oneRequest.Transparent literals := by
  have hputs : targeted.puts literals = [] := by decide
  constructor
  · refine ⟨⟨[], List.nodup_nil, .nil⟩, fun R hR => ?_, fun R hR id memo hmemo => ?_⟩
    · rw [List.mem_singleton.mp hR, hputs]
      exact List.prefix_rfl
    · rw [List.mem_singleton.mp hR, StepMemos.lookup_fromRaw] at hmemo
      simp [targeted, sample] at hmemo
  · intro h
    have hcall : (targeted.call literals).outcome = .ok ⟨⟨none, none, none⟩,
        some [targetedItem "a" (some 1) .null, targetedItem "a:1" none (.bool true)]⟩ := by
      decide
    have hreports : targeted.Reports literals (Sample.hashStepId "a:1") (.bool true) :=
      ⟨_, _, targetedItem "a:1" none (.bool true), _, hcall, rfl, by simp, rfl, rfl, rfl, rfl⟩
    obtain ⟨v, p, -, hstands, -⟩ := h.reported targeted List.mem_cons_self _ _ hreports
    cases hstands.surrogate

end Inngest.RemoteState
