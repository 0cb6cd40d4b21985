import Inngest.Streaming

/-!
# The retry directive of a response

A response tells the executor not to retry with a header, and when to retry with
another one. The headers follow the errors of the results, but a result that
cannot be dumped is answered by `from_error`, which sets neither.
-/

set_option autoImplicit false

namespace Inngest
open ServerLib Errors StepLib

namespace CommResponse

/-! ## What is reported -/

/-- What `_prep_call_result` is applied to, one after the other. -/
def preparedItems (result : CallResult) : List CallItem :=
  match result.multi with
  | some (item :: items) => item :: items
  | _ => [result.toCallItem]

/-- The errors in the body: the one that came up while it was prepared, or else
those of the results. -/
def reportedErrors (result : CallResult) : List PyError :=
  match (preparedItems result).mapM prepCallResult with
  | .error e => [e]
  | .ok _ => (preparedItems result).filterMap CallItem.error

def functionError (result : CallResult) : Option PyError :=
  match (preparedItems result).mapM prepCallResult, result.multi with
  | .error e, _ => some e
  | .ok _, some (_ :: _) => none
  | .ok _, _ => result.error

/-- A `RetryAfterError`, whose constructor sets the time. -/
def IsRetryAfterError (e : PyError) : Prop :=
  e.cls = .retryAfterError ∧ e.retryAfter.isSome = true

/-- The headers of the response direct what its body reports. -/
structure Directed (response : CommResponse) (result : CallResult) : Prop where
  noRetry : response.headers.lookup HeaderKey.noRetry.value = some "true" ↔
    ∃ e ∈ reportedErrors result, isRetriable e = false
  retryAfter : (response.headers.lookup HeaderKey.retryAfter.value).isSome = true ↔
    ∃ e, functionError result = some e ∧ IsRetryAfterError e

/-- Every output is serializable, as far as the results are prepared: an item
whose options cannot be dumped ends the preparation. -/
def outputsDump : List CallItem → Bool
  | [] => true
  | item :: items => ! dumpsOpts item || item.output.all Json.serializable && outputsDump items

/-! ## The preparation -/

theorem outputsDump_of_dumps {items : List CallItem} (h : items.all dumps = true) :
    outputsDump items = true := by
  induction items with
  | nil => rfl
  | cons item items ih =>
    simp only [List.all_cons, Bool.and_eq_true, dumps] at h
    simp [outputsDump, h.1.1, h.1.2, ih h.2]

theorem dumps_of_mapM_ok {items : List CallItem} {bodies : List Json}
    (h : items.mapM prepCallResult = .ok bodies) : items.all dumps = true := by
  by_contra hd
  obtain ⟨e, he⟩ := mapM_prepCallResult_error items (by simpa using hd)
  cases h.symm.trans he

theorem mapM_error_cases {items : List CallItem} {e : PyError}
    (h : items.mapM prepCallResult = .error e) :
    outputsDump items = true ∧ e = unknownType ∨
      outputsDump items = false ∧ ∃ step, e = unserializable step := by
  induction items with
  | nil => cases h
  | cons item items ih =>
    rw [List.mapM_cons] at h
    by_cases hopts : dumpsOpts item = true
    · by_cases hout : item.output.all Json.serializable = true
      · have hitem : prepCallResult item = .ok (prepared item) := by
          rw [prepCallResult, if_pos hopts, if_pos hout]
        rw [hitem] at h
        have hrest : items.mapM prepCallResult = .error e := by
          cases hm : items.mapM prepCallResult with
          | ok bodies => simp [hm, bind, Except.bind, pure, Except.pure] at h
          | error e' => simpa [hm, bind, Except.bind] using h
        simpa [outputsDump, hopts, hout] using ih hrest
      · have hitem : prepCallResult item = .error (unserializable item.step) := by
          rw [prepCallResult, if_pos hopts, if_neg hout]
        rw [hitem] at h
        refine .inr ⟨by simp [outputsDump, hopts, hout], item.step, ?_⟩
        exact (Except.error.inj h).symm
    · have hitem : prepCallResult item = .error unknownType := by
        rw [prepCallResult, if_neg hopts]
      rw [hitem] at h
      exact .inl ⟨by simp [outputsDump, hopts], (Except.error.inj h).symm⟩

theorem fromCallResult_error (headers : Dict String) {result : CallResult} {e : PyError}
    (h : (preparedItems result).mapM prepCallResult = .error e) :
    fromCallResult headers result = fromError e := by
  have hsingle : [result.toCallItem].mapM prepCallResult = .error e →
      prepCallResult result.toCallItem = .error e := by
    intro hitem
    cases hp : prepCallResult result.toCallItem with
    | ok body => simp [List.mapM_cons, hp, bind, Except.bind, pure, Except.pure] at hitem
    | error e' => simpa [List.mapM_cons, hp, bind, Except.bind] using hitem
  rcases hm : result.multi with - | - | ⟨item, items⟩
  · rw [preparedItems, hm] at h
    simp only [fromCallResult, hm, hsingle h]
  · rw [preparedItems, hm] at h
    simp only [fromCallResult, hm, hsingle h]
  · rw [preparedItems, hm] at h
    simp only [fromCallResult, hm]
    rw [h]

def retryTime (e : Option PyError) : Option String :=
  e.bind fun e =>
    if e.cls = .retryAfterError then e.retryAfter.map Transforms.toIsoUtc else none

theorem retryTime_isSome (e : Option PyError) :
    (retryTime e).isSome = true ↔ ∃ e', e = some e' ∧ IsRetryAfterError e' := by
  cases e with
  | none => simp [retryTime]
  | some e => by_cases hcls : e.cls = .retryAfterError <;> simp [retryTime, IsRetryAfterError, hcls]

theorem fromCallResult_headers (headers : Dict String) {result : CallResult}
    (h : (preparedItems result).all dumps = true) :
    (fromCallResult headers result).headers = (retryTime (functionError result)).elim
      (withNoRetry ((preparedItems result).any noRetry) headers)
      ((withNoRetry ((preparedItems result).any noRetry) headers).insert
        HeaderKey.retryAfter.value ·) := by
  have hmap := mapM_prepCallResult _ h
  rcases hm : result.multi with - | - | ⟨item, items⟩
  · have hd : dumps result.toCallItem = true := by simpa [preparedItems, hm] using h
    simp only [fromCallResult, functionError, hmap, hm, prepCallResult_ok hd]
    simp [preparedItems, hm, retryAfter, retryTime, HeaderKey.value]
  · have hd : dumps result.toCallItem = true := by simpa [preparedItems, hm] using h
    simp only [fromCallResult, functionError, hmap, hm, prepCallResult_ok hd]
    simp [preparedItems, hm, retryAfter, retryTime, HeaderKey.value]
  · have hd : (item :: items).all dumps = true := by simpa only [preparedItems, hm] using h
    simp only [fromCallResult, functionError, hmap, hm, mapM_prepCallResult _ hd]
    simp [preparedItems, hm, retryTime]

/-! ## The directive -/

section Directive
variable {version : String} {env : Option String} {framework : Option Framework}
  {serverKind : Option ServerKind}

theorem lookup_withNoRetry (set : Bool) {headers : Dict String}
    (h : headers.lookup HeaderKey.noRetry.value = none) :
    (withNoRetry set headers).lookup HeaderKey.noRetry.value =
      if set then some "true" else none := by
  cases set with
  | true => exact AList.lookup_insert _
  | false => exact h

theorem lookup_withNoRetry_ne (set : Bool) {headers : Dict String} {key : String}
    (h : key ≠ HeaderKey.noRetry.value) :
    (withNoRetry set headers).lookup key = headers.lookup key := by
  cases set with
  | true => exact AList.lookup_insert_ne h
  | false => rfl

theorem directed_of_prepared {result : CallResult}
    (h : (preparedItems result).all dumps = true) :
    Directed (fromCallResult (Net.createHeaders version env framework serverKind) result)
      result := by
  have hbase := fun key => Net.lookup_createHeaders version env framework serverKind key
  have hreported : reportedErrors result = (preparedItems result).filterMap CallItem.error := by
    rw [reportedErrors, mapM_prepCallResult _ h]
  have hany : (∃ e ∈ reportedErrors result, isRetriable e = false) ↔
      (preparedItems result).any noRetry = true := by
    rw [hreported]
    simp only [List.mem_filterMap, List.any_eq_true, noRetry, Option.any_eq_true]
    constructor
    · rintro ⟨e, ⟨item, hitem, he⟩, hretriable⟩
      exact ⟨item, hitem, e, he, by simp [hretriable]⟩
    · rintro ⟨item, hitem, e, he, hretriable⟩
      exact ⟨e, ⟨item, hitem, he⟩, by simpa using hretriable⟩
  have hne : HeaderKey.noRetry.value ≠ HeaderKey.retryAfter.value := by decide
  refine ⟨?_, ?_⟩
  · rw [hany, fromCallResult_headers _ h]
    have hset := lookup_withNoRetry ((preparedItems result).any noRetry)
      (hbase HeaderKey.noRetry)
    cases retryTime (functionError result) with
    | none => simp [hset]
    | some time => simp [AList.lookup_insert_ne hne, hset]
  · rw [← retryTime_isSome, fromCallResult_headers _ h]
    have hunset : (withNoRetry ((preparedItems result).any noRetry)
        (Net.createHeaders version env framework serverKind)).lookup
          HeaderKey.retryAfter.value = none :=
      (lookup_withNoRetry_ne _ hne.symm).trans (hbase .retryAfter)
    cases retryTime (functionError result) with
    | none => simp [hunset]
    | some time => simp

/-- The directive of a response matches what it reports exactly when no output
fails to serialize. -/
theorem directed_iff {result : CallResult} :
    Directed (fromCallResult (Net.createHeaders version env framework serverKind) result)
        result ↔
      outputsDump (preparedItems result) = true := by
  cases hmap : (preparedItems result).mapM prepCallResult with
  | ok bodies =>
    have hdumps := dumps_of_mapM_ok hmap
    exact iff_of_true (directed_of_prepared hdumps) (outputsDump_of_dumps hdumps)
  | error e =>
    have hno : ∀ key, key ≠ "content-type" → (fromError e).headers.lookup key = none :=
      fun key hkey => (AList.lookup_insert_ne hkey).trans rfl
    have hreported : reportedErrors result = [e] := by rw [reportedErrors, hmap]
    have hfunction : functionError result = some e := by rw [functionError, hmap]
    rw [fromCallResult_error _ hmap]
    have hretry : ¬ IsRetryAfterError e := by
      rintro ⟨hcls, -⟩
      rcases mapM_error_cases hmap with ⟨-, rfl⟩ | ⟨-, step, rfl⟩ <;> cases hcls
    rcases mapM_error_cases hmap with ⟨hout, rfl⟩ | ⟨hout, step, rfl⟩
    · refine iff_of_true ⟨?_, ?_⟩ hout
      · rw [hno _ (by decide), hreported]
        simp [isRetriable, unknownType, exception]
      · rw [hno _ (by decide), hfunction]
        simpa using hretry
    · refine iff_of_false (fun h => ?_) (by simp [hout])
      have hset := h.noRetry.mpr ⟨unserializable step, by simp [hreported], rfl⟩
      rw [hno _ (by decide)] at hset
      cases hset

end Directive

/-- A function returns something that cannot be dumped: the error is not
retriable, and nothing says so. -/
theorem unserializable_not_directed :
    reportedErrors (CallResult.ofOutput (.other "object")) = [unserializable none] ∧
      isRetriable (unserializable none) = false ∧
      (fromCallResult (Net.createHeaders "0.5.18" none (some .flask) none)
        (CallResult.ofOutput (.other "object"))).headers.lookup HeaderKey.noRetry.value = none ∧
      ¬ Directed (fromCallResult (Net.createHeaders "0.5.18" none (some .flask) none)
        (CallResult.ofOutput (.other "object"))) (CallResult.ofOutput (.other "object")) := by
  refine ⟨rfl, rfl, rfl, fun h => ?_⟩
  have hset := h.noRetry.mpr ⟨unserializable none, List.mem_singleton_self _, rfl⟩
  cases hset

end CommResponse

end Inngest
