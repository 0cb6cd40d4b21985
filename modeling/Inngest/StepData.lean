import Inngest.DataPipeline

/-!
# Absent and null data

A call result tells an output that is not set from one that is `None`. A step
response does not: its output is `None` by default, and the call result takes
that for an output which is set. So what is reported of a step carries data
whether or not a handler returned a value.
-/

set_option autoImplicit false

namespace Inngest.StepData
open ServerLib Errors StepLib Effect Engine CommResponse

def hasOutput (result : TransformOutputResult) : Bool := result.output.isSome

/-! ## What a step response should carry -/

def ReportsReturn (l : List Mark) (item : CallItem) (v : Json) : Prop :=
  ∃ info, item.step = some info ∧ info.op = .stepRun ∧ .leave info.id (.returned v) ∈ l

structure ItemExact (l : List Mark) (item : CallItem) : Prop where
  output : hasOutput item.toTransform = true ↔ ∃ v, ReportsReturn l item v
  value : ∀ v, item.output = some v → ReportsReturn l item v
  encoded : ∀ fields, prepCallResult item = .ok (.obj fields) →
    ((Json.field fields "data").isSome = true ↔ ∃ v, ReportsReturn l item v) ∧
    Json.field fields "data" = item.output
  single : ∀ fields, prepCallResult item = .ok (.obj fields) →
    ¬ ((Json.field fields "data").isSome = true ∧ (Json.field fields "error").isSome = true)

/-- The values that handlers returned, with their steps. -/
def returned : HandlerExit → Option Json
  | .returned v => some v
  | _ => none

def returnedIn (l : List Mark) : Multiset (String × Json) :=
  (StepResults.settledIn l).filterMap fun x => (returned x.2).map (x.1, ·)

def valuesOf (items : List CallItem) : Multiset (String × Json) :=
  items.filterMap fun item => item.step.bind fun info => item.output.map (info.id, ·)

/-- Data is where a handler returned a value, and it is that value: none is
reported more often than it was returned. -/
structure Exact (l : List Mark) (items : List CallItem) : Prop where
  each : ∀ item ∈ items, ItemExact l item
  values : valuesOf items ≤ returnedIn l

/-! ## The encoded item -/

theorem field_toDict (info : StepInfo) {name : String} (h : name = "data" ∨ name = "error") :
    Json.field (StepInfo.toDict info) name = none := by
  rcases h with rfl | rfl <;> simp [StepInfo.toDict, Json.field]

theorem fields_of_prepCallResult {item : CallItem} {info : StepInfo}
    {fields : List (String × Json)} (hinfo : item.step = some info)
    (h : prepCallResult item = .ok (.obj fields)) :
    Json.field fields "data" = item.output ∧
      Json.field fields "error" = item.error.map ErrorData.fromError := by
  have hprepared : CommResponse.prepared item = .obj fields := by
    cases hd : dumps item with
    | true => exact Except.ok.inj ((prepCallResult_ok hd).symm.trans h)
    | false =>
      obtain ⟨e, he⟩ := prepCallResult_error hd
      rw [he] at h
      cases h
  rw [CommResponse.prepared, hinfo] at hprepared
  rw [← Json.obj.inj hprepared]
  constructor
  · rw [Json.field_append, Json.field_append, field_toDict info (.inl rfl)]
    cases item.error <;> cases item.output <;> simp [Json.field]
  · rw [Json.field_append, Json.field_append, field_toDict info (.inr rfl)]
    cases item.error <;> cases item.output <;> simp [Json.field]

theorem itemExact_of_returned {l : List Mark} {x : StepResponse} (hop : x.step.op = .stepRun)
    (herror : x.originalError = none) (hleave : .leave x.step.id (.returned x.output) ∈ l) :
    ItemExact l (CallResult.itemOf x) := by
  have hreports : ReportsReturn l (CallResult.itemOf x) x.output := ⟨x.step, rfl, hop, hleave⟩
  refine ⟨iff_of_true rfl ⟨_, hreports⟩, fun v hv => ?_, fun fields h => ?_, fun fields h => ?_⟩
  · rwa [← Option.some.inj hv]
  · have hdata := (fields_of_prepCallResult rfl h).1
    exact ⟨iff_of_true (by rw [hdata]; rfl) ⟨_, hreports⟩, hdata⟩
  · have hnone := (fields_of_prepCallResult rfl h).2
    simp [hnone, CallResult.itemOf, herror]

/-! ## Requests -/

section Requests
variable {σ : Type} {env : Env σ} {fn : Context → Body σ} {outputType : Option OutputType}
  {inv : Invocation σ}

/-- The responses with which the code of the function ends, where
`after_execution` lets them through. -/
def Ends (env : Env σ) (fn : Context → Body σ) (inv : Invocation σ)
    (rs : List StepResponse) : Prop :=
  ∃ ctx, (Inngest.prepared env inv).outcome = .ok (.ok ctx) ∧
    Execution.afterError env Scope.top (codeRun env fn inv ctx).state = none ∧
    (codeRun env fn inv ctx).outcome = .intr (.response rs)

/-- No step is planned, sleeps, is invoked or waited for, or fails. -/
def OnlyRuns (env : Env σ) (fn : Context → Body σ) (inv : Invocation σ) : Prop :=
  ∀ rs, Ends env fn inv rs → ∀ x ∈ rs, x.step.op = .stepRun

/-- The items of a request are those of its responses. -/
theorem items_iff (outputType : Option OutputType) {items : List CallItem} :
    (∃ result, (request env fn outputType inv).outcome = .ok result ∧
      result.multi = some items) ↔
    ∃ rs, Ends env fn inv rs ∧ items = rs.map CallResult.itemOf := by
  constructor
  · rintro ⟨result, h, hitems⟩
    obtain ⟨ctx, rs, hx, hcode, rfl⟩ := DataPipeline.request_responses h hitems
    refine ⟨rs, ⟨ctx, hx, ?_, hcode⟩, rfl⟩
    rw [StepResults.request_outcome_iff hx, hcode] at h
    cases herr : Execution.afterError env Scope.top (codeRun env fn inv ctx).state with
    | none => rfl
    | some e =>
      rw [herr] at h
      rw [← Option.some.inj h] at hitems
      cases hitems
  · rintro ⟨rs, ⟨ctx, hx, herr, hcode⟩, rfl⟩
    refine ⟨CallResult.fromResponses rs, (StepResults.request_outcome_iff hx).mpr ?_, rfl⟩
    rw [hcode, herr]
    rfl

theorem returned_resultOf {x : StepResponse} (hop : x.step.op = .stepRun)
    (herror : x.originalError = none) :
    StepResults.resultOf x = some (x.step.id, .returned x.output) :=
  StepResults.resultOf_returned.mpr ⟨hop, herror, rfl, rfl⟩

theorem valuesOf_itemOf {rs : List StepResponse} (hop : ∀ x ∈ rs, x.step.op = .stepRun)
    (herror : ∀ x ∈ rs, x.originalError = none) :
    valuesOf (rs.map CallResult.itemOf) =
      (StepResults.gathered rs).filterMap fun x => (returned x.2).map (x.1, ·) := by
  simp only [valuesOf, StepResults.gathered, Multiset.filterMap_coe, List.filterMap_map,
    List.filterMap_filterMap]
  congr 1
  refine List.filterMap_congr fun x hx => ?_
  rw [returned_resultOf (hop x hx) (herror x hx)]
  rfl

/-- What a request reports carries data exactly where a handler returned a value,
exactly when it reports nothing else. -/
theorem data_exact_iff :
    (∀ result items, (request env fn outputType inv).outcome = .ok result →
      result.multi = some items → Exact (request env fn outputType inv).log items) ↔
    OnlyRuns env fn inv := by
  constructor
  · intro h rs hends x hx
    obtain ⟨result, hresult, hitems⟩ := (items_iff outputType).mpr ⟨rs, hends, rfl⟩
    have hexact := (h result _ hresult hitems).each _ (List.mem_map.mpr ⟨x, hx, rfl⟩)
    obtain ⟨v, info, hinfo, hop, -⟩ := hexact.output.mp rfl
    rwa [Option.some.inj hinfo]
  · intro h result items hresult hitems
    obtain ⟨rs, hends, rfl⟩ := (items_iff outputType).mp ⟨result, hresult, hitems⟩
    have hop := h rs hends
    obtain ⟨ctx, hprepared, -, hcode⟩ := hends
    have hreturned := fun x hx =>
      DataPipeline.responses_returned outputType hprepared hcode (x := x) hx (hop x hx)
    constructor
    · rw [List.forall_mem_map]
      exact fun x hx => itemExact_of_returned (hop x hx) (hreturned x hx).1 (hreturned x hx).2
    · rw [valuesOf_itemOf hop fun x hx => (hreturned x hx).1]
      exact Multiset.filterMap_le_filterMap _
        (DataPipeline.gathered_le outputType hprepared hcode)

end Requests

/-! A function that sleeps. -/

def sleeper (_ : Context) : Body Unit :=
  .call (Step.sleepUntil "a" "2024-01-01T00:00:00.000Z") fun _ => .ret .null

def sleeping : StepResponse :=
  .ofStep ⟨"a", Sample.hashStepId "a", some "2024-01-01T00:00:00.000Z", .sleep, none,
    some ⟨"a", none⟩⟩

/-- The sleep is reported with an output, and with a `"data"` that is null. -/
theorem sleep_not_exact :
    ¬ ∀ result items, (request (Sample.env none) sleeper none (Sample.invocation [])).outcome =
        .ok result → result.multi = some items →
      Exact (request (Sample.env none) sleeper none (Sample.invocation [])).log items := by
  have hrun : (request (Sample.env none) sleeper none (Sample.invocation [])).outcome =
      .ok (CallResult.fromResponses [sleeping]) := by decide
  intro h
  have hexact := (h _ _ hrun rfl).each _ (List.mem_singleton_self _)
  obtain ⟨v, info, hinfo, hop, -⟩ := hexact.output.mp rfl
  rw [← Option.some.inj hinfo] at hop
  exact absurd hop (by decide)

end Inngest.StepData
