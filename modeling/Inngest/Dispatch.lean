import Inngest.CommHandler

/-!
# Synced IDs and what they run

The IDs of the configurations that an app syncs are the ones that requests come
back with. A function's handler for failures goes by the function's ID with a
suffix, and nothing keeps another function from having that ID.
-/

set_option autoImplicit false

namespace Inngest
open ServerLib Errors StepLib Effect Engine

namespace Dispatch
variable {σ : Type}

/-! ## Configurations -/

def configs (functions : List (AppFunction σ)) (appUrl : String) : List FunctionConfig :=
  functions.flatMap fun f => (f.getConfig appUrl).1 :: (f.getConfig appUrl).2.toList

def ids (f : AppFunction σ) : List String := f.id :: f.onFailureFnId.toList

theorem ids_configs (functions : List (AppFunction σ)) (appUrl : String) :
    (configs functions appUrl).map FunctionConfig.id = functions.flatMap ids := by
  rw [configs, List.map_flatMap]
  congr 1
  funext f
  cases h : f.onFailureFnId <;> simp [AppFunction.getConfig, ids, h, AppFunction.mainConfig,
    AppFunction.onFailureConfig]

theorem mem_ids {f : AppFunction σ} {id : String} :
    id ∈ ids f ↔ f.id = id ∨ f.onFailureFnId = some id := by
  simp [ids, eq_comm]

theorem onFailureFnId_eq_some {f : AppFunction σ} {id : String} :
    f.onFailureFnId = some id ↔ f.opts.onFailure.isSome = true ∧ f.id ++ "-failure" = id := by
  cases h : f.opts.onFailure <;>
    simp [AppFunction.onFailureFnId, Function.onFailureFnId, AppFunction.fn, h]

theorem append_failure_ne (id : String) : id ++ "-failure" ≠ id := fun h => by
  have hlength := congrArg String.length h
  rw [String.length_append] at hlength
  have hsuffix : "-failure".length = 8 := by decide
  omega

/-- No function has the ID that another one's handler for failures goes by. -/
def NoClash (functions : List (AppFunction σ)) : Prop :=
  ∀ f ∈ functions, ∀ g ∈ functions, f.onFailureFnId ≠ some g.id

theorem eq_of_mem_ids {functions : List (AppFunction σ)}
    (hids : (functions.map AppFunction.id).Nodup) (hclash : NoClash functions)
    {f g : AppFunction σ} (hf : f ∈ functions) (hg : g ∈ functions) {id : String}
    (hfid : id ∈ ids f) (hgid : id ∈ ids g) : f = g := by
  refine List.inj_on_of_nodup_map hids hf hg ?_
  rcases mem_ids.mp hfid with rfl | hfid <;> rcases mem_ids.mp hgid with hgid | hgid
  · exact hgid.symm
  · exact absurd hgid (hclash g hg f hf)
  · exact absurd hfid (hgid ▸ hclash f hf g hg)
  · have h := (onFailureFnId_eq_some.mp hfid).2.trans (onFailureFnId_eq_some.mp hgid).2.symm
    simpa using h

theorem ids_nodup (f : AppFunction σ) : (ids f).Nodup := by
  cases h : f.onFailureFnId with
  | none => simp [ids, h]
  | some id =>
    have hne := (onFailureFnId_eq_some.mp h).2 ▸ append_failure_ne f.id
    simpa [ids, h] using hne.symm

theorem nodup_iff {functions : List (AppFunction σ)}
    (hids : (functions.map AppFunction.id).Nodup) :
    (functions.flatMap ids).Nodup ↔ NoClash functions := by
  constructor
  · intro hnodup f hf g hg hclash
    have hne : f ≠ g := fun h => by
      rw [h] at hclash
      exact append_failure_ne g.id (onFailureFnId_eq_some.mp hclash).2
    have : Std.Symm (Function.onFun List.Disjoint (ids (σ := σ))) :=
      ⟨fun _ _ h _ hb ha => h ha hb⟩
    exact (List.nodup_flatMap.mp hnodup).2.forall hf hg hne (mem_ids.mpr (.inr hclash))
      (mem_ids.mpr (.inl rfl))
  · intro hclash
    refine List.nodup_flatMap.mpr ⟨fun f _ => ids_nodup f, ?_⟩
    refine (List.Nodup.of_map _ hids).pairwise_of_forall_ne fun f hf g hg hne id hfid hgid => ?_
    exact hne (eq_of_mem_ids hids hclash hf hg hfid hgid)

/-! ## Requests -/

section Requests
variable (runtime : Runtime σ) (handler : AppHandler σ)

structure Asks (req : CommRequest) (fnId : String) : Prop where
  params : ∃ params, parseQueryParams req.queryParams = .ok (.ok params) ∧
    params.probe = false ∧ params.fnId = some fnId
  fetched : ∃ request events steps, runtime.serverRequest req.body = .ok request ∧
    AppHandler.fetch runtime request = .ok (.ok (some events, steps))

/-- A call that runs `code`, between the hooks that the call is made with. -/
def execute (call : Call σ) (code : Context → Body σ) (outputType : Option OutputType)
    (flavor : Flavor) : Run σ CallResult :=
  (do
    let result ← Execution.run (call.env runtime handler flavor) call.context
      (fun ctx => (code ctx).interp (call.env runtime handler flavor)) outputType
    Function.afterRun (call.env runtime handler flavor) result)
    Scope.top (call.initial runtime)

/-- Whatever the answer makes of the call, a request for `fnId` is answered by
a call of the function, which runs `code`. -/
def Runs (fnId : String) (f : AppFunction σ) (code : Context → Body σ)
    (outputType : Option OutputType) : Prop :=
  ∀ req, Asks runtime req fnId → ∃ call : Call σ, call.fn = f ∧
    (∀ answer key,
      AppHandler.postWith (handler.plan runtime) answer req key =
        (answer (req.exchange key) call).map .ok ∧
      AppHandler.postWith (handler.planSync runtime) answer req key =
        (answer (req.exchange key) call).map .ok) ∧
    (∀ flavor, (call.env runtime handler flavor).middleware =
      MiddlewareManager.fromClient handler.middleware f.opts.middleware) ∧
    ∀ flavor, call.run runtime handler flavor = execute runtime handler call code outputType flavor

/-- What is synced has distinct IDs, and each runs what it was synced for. -/
structure Dispatched (functions : List (AppFunction σ)) (appUrl : String) : Prop where
  distinct : ∀ configs, handler.functions.getFunctionConfigs appUrl = .ok configs →
    (configs.map FunctionConfig.id).Nodup
  main : ∀ f ∈ functions,
    Runs runtime handler (f.getConfig appUrl).1.id f f.opts.handler f.opts.outputType
  onFailure : ∀ f ∈ functions, ∀ config code, (f.getConfig appUrl).2 = some config →
    f.opts.onFailure = some code → Runs runtime handler config.id f code (some "object")

variable {runtime handler} {functions : List (AppFunction σ)}

theorem find_of_unique {fns : Functions σ} {f : AppFunction σ} {fnId : String}
    (hf : f ∈ fns.values) (hid : fnId ∈ ids f) (hunique : ∀ g ∈ fns.values, fnId ∈ ids g → g = f) :
    fns.find fnId = some f := by
  cases hfind : fns.find fnId with
  | none =>
    have hnone := List.find?_eq_none.mp hfind f hf
    simp only [decide_eq_true_eq] at hnone
    exact absurd (mem_ids.mp hid) hnone
  | some g =>
    have hg := List.find?_some hfind
    simp only [decide_eq_true_eq] at hg
    rw [hunique g (List.mem_of_find?_eq_some hfind) (mem_ids.mpr hg)]

theorem plan_call {f : AppFunction σ} {fnId : String} (hfind : handler.functions.find fnId = some f)
    {req : CommRequest} (h : Asks runtime req fnId) :
    ∃ call : Call σ, handler.plan runtime req = .ok (.call call) ∧
      handler.planSync runtime req = .ok (.call call) ∧ call.fn = f ∧ call.fnId = fnId := by
  obtain ⟨params, hparams, hprobe, hfnId⟩ := h.params
  obtain ⟨request, events, steps, hrequest, hfetch⟩ := h.fetched
  have hplan : ∀ fetch, fetch request = .ok (.ok (some events, steps)) →
      handler.planWith runtime fetch req =
        .ok (.call ⟨f, fnId, { request with steps := steps }, events, params.stepId⟩) := by
    intro fetch hfetch
    simp [AppHandler.planWith, hparams, hprobe, hrequest, hfnId, Functions.getFunction, hfind,
      hfetch, bind, Except.bind]
  exact ⟨_, hplan _ hfetch, hplan _ (AppHandler.fetchSync_of_fetch runtime hfetch), rfl, rfl⟩

theorem runs_of_select {f : AppFunction σ} {fnId : String} {code : Context → Body σ}
    {outputType : Option OutputType} (hfind : handler.functions.find fnId = some f)
    (hselect : f.fn.select fnId = .ok (code, outputType)) :
    Runs runtime handler fnId f code outputType := by
  intro req hreq
  obtain ⟨call, hplan, hplanSync, rfl, rfl⟩ := plan_call hfind hreq
  refine ⟨call, rfl, fun answer key => ?_, fun _ => rfl, fun flavor => ?_⟩
  · simp [AppHandler.postWith, hplan, hplanSync, bind, Except.bind]
  · rw [Call.run, Function.call, hselect]
    rfl

theorem getFunctionConfigs_eq (fns : Functions σ) (appUrl : String) :
    fns.getFunctionConfigs appUrl =
      if configs fns.values appUrl = [] then
        .error (functionConfigInvalidError "no functions found")
      else .ok (configs fns.values appUrl) := rfl

structure Registered (handler : AppHandler σ) (functions : List (AppFunction σ)) : Prop where
  values : handler.functions.values = functions
  ids : (functions.map AppFunction.id).Nodup

theorem Registered.ofList {handler : AppHandler σ} {functions : List (FunctionOpts σ)}
    (hfunctions : handler.functions =
      Functions.ofList (functions.map (AppFunction.mk handler.appId)))
    (hids : (functions.map FunctionOpts.localId).Nodup) :
    Registered handler (functions.map (AppFunction.mk handler.appId)) := by
  have hid : ((functions.map (AppFunction.mk handler.appId)).map AppFunction.id).Nodup := by
    rw [List.map_map]
    refine List.Nodup.map_on (fun f hf g hg h => ?_) (List.Nodup.of_map _ hids)
    refine List.inj_on_of_nodup_map hids hf hg ?_
    simpa [AppFunction.id] using h
  exact ⟨by rw [hfunctions, Functions.values_ofList hid], hid⟩

variable {appUrl : String} (hregistered : Registered handler functions)
include hregistered

theorem distinct_iff : (∀ configs, handler.functions.getFunctionConfigs appUrl = .ok configs →
      (configs.map FunctionConfig.id).Nodup) ↔ NoClash functions := by
  rw [getFunctionConfigs_eq, hregistered.values, ← nodup_iff hregistered.ids,
    ← ids_configs functions appUrl]
  split
  · rename_i hnone
    simp [hnone]
  · simp

theorem runs_main (hclash : NoClash functions) {f : AppFunction σ} (hf : f ∈ functions) :
    Runs runtime handler f.id f f.opts.handler f.opts.outputType := by
  refine runs_of_select (find_of_unique (hregistered.values ▸ hf) (mem_ids.mpr (.inl rfl))
    fun g hg hid => ?_) (if_pos rfl)
  exact eq_of_mem_ids hregistered.ids hclash (hregistered.values ▸ hg) hf hid
    (mem_ids.mpr (.inl rfl))

theorem runs_onFailure (hclash : NoClash functions) {f : AppFunction σ} (hf : f ∈ functions)
    {code : Context → Body σ} (hcode : f.opts.onFailure = some code) :
    Runs runtime handler (f.id ++ "-failure") f code (some "object") := by
  have hid : f.onFailureFnId = some (f.id ++ "-failure") :=
    onFailureFnId_eq_some.mpr ⟨by rw [hcode]; rfl, rfl⟩
  refine runs_of_select (find_of_unique (hregistered.values ▸ hf) (mem_ids.mpr (.inr hid))
    fun g hg hgid => ?_) ?_
  · exact eq_of_mem_ids hregistered.ids hclash (hregistered.values ▸ hg) hf hgid
      (mem_ids.mpr (.inr hid))
  · have hmain : f.fn.id ≠ f.id ++ "-failure" := (append_failure_ne f.id).symm
    have hfailure : f.fn.onFailureFnId = some (f.id ++ "-failure") := hid
    rw [Function.select, if_neg hmain, if_pos hfailure]
    simp only [AppFunction.fn, hcode]

theorem dispatched_of_noClash (hclash : NoClash functions) :
    Dispatched runtime handler functions appUrl where
  distinct := (distinct_iff hregistered).mpr hclash
  main f hf := runs_main hregistered hclash hf
  onFailure f hf config code hconfig hcode := by
    obtain ⟨fnId, hfnId, rfl⟩ := Option.map_eq_some_iff.mp hconfig
    rw [AppFunction.onFailureConfig, ← (onFailureFnId_eq_some.mp hfnId).2]
    exact runs_onFailure hregistered hclash hf hcode

omit hregistered

/-- Synced IDs run what they were synced for exactly when no function has the
ID of another one's handler for failures. -/
theorem dispatched_iff {functions : List (FunctionOpts σ)} {appUrl : String}
    (hfunctions : handler.functions =
      Functions.ofList (functions.map (AppFunction.mk handler.appId)))
    (hids : (functions.map FunctionOpts.localId).Nodup) :
    Dispatched runtime handler (functions.map (AppFunction.mk handler.appId)) appUrl ↔
      ∀ f ∈ functions, ∀ g ∈ functions, f.onFailure.isSome = true →
        g.localId ≠ f.localId ++ "-failure" := by
  have hregistered := Registered.ofList hfunctions hids
  have hclash : NoClash (functions.map (AppFunction.mk handler.appId)) ↔
      ∀ f ∈ functions, ∀ g ∈ functions, f.onFailure.isSome = true →
        g.localId ≠ f.localId ++ "-failure" := by
    simp only [NoClash, List.forall_mem_map, ne_eq, onFailureFnId_eq_some, not_and]
    refine forall₂_congr fun f _ => forall₂_congr fun g _ => imp_congr_right fun _ => not_congr ?_
    rw [eq_comm]
    simp [AppFunction.id, String.append_assoc]
  rw [← hclash]
  exact ⟨fun h => (distinct_iff hregistered).mp h.distinct, dispatched_of_noClash hregistered⟩

end Requests

/-! Two functions of which one has the ID of the other's handler for failures,
and two that have nothing in common. -/

def failing : FunctionOpts Unit :=
  Sample.fn "a" (fun _ => .ret .null) (some fun _ => .ret (.str "failed"))

def namedForFailure : FunctionOpts Unit := Sample.fn "a-failure" (fun _ => .ret (.int 1)) none

def unrelated : FunctionOpts Unit := Sample.fn "b" (fun _ => .ret (.int 1)) none

def clashing : AppHandler Unit := Sample.handler .disable [failing, namedForFailure]

def apart : AppHandler Unit := Sample.handler .disable [failing, unrelated]

/-- Two configurations are synced under one ID, and it runs the first
function's handler for failures. -/
theorem dispatched_to_other :
    ([failing, namedForFailure].map FunctionOpts.localId).Nodup ∧
      ¬ Dispatched Sample.runtime clashing ([failing, namedForFailure].map (AppFunction.mk "app"))
        "https://example.com/api/inngest" ∧
      (clashing.functions.getFunction "app" "app-a-failure").toOption =
        some ⟨"app", failing⟩ := by
  have hregistered : Registered clashing
      ([failing, namedForFailure].map (AppFunction.mk "app")) :=
    Registered.ofList rfl (by decide)
  refine ⟨by decide, fun h => ?_, by rfl⟩
  exact (distinct_iff hregistered).mp h.distinct ⟨"app", failing⟩ (by simp)
    ⟨"app", namedForFailure⟩ (by simp) (by decide)

theorem dispatched_iff_apart :
    Dispatched Sample.runtime apart ([failing, unrelated].map (AppFunction.mk "app"))
      "https://example.com/api/inngest" :=
  (@dispatched_iff _ _ apart [failing, unrelated] _ rfl (by decide)).mpr (by decide)

end Dispatch

end Inngest
