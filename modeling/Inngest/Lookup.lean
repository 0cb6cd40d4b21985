import Inngest.Dispatch

/-!
# Lookup and dispatch

A request's function ID is looked up as it is and then with the app's ID in
front of it, for requests in the format of older versions. The function that is
found compares its own IDs with what was requested, and knows no prefix.
-/

set_option autoImplicit false

namespace Inngest
open ServerLib Errors StepLib Effect Engine

namespace Dispatch
variable {σ : Type}

/-! ## What a call of a function does -/

section Calls
variable (f : AppFunction σ) (fnId : String) (r : Scope) (s : State σ)

/-- `call` and `call_sync` run `code` for the requested ID. -/
def RunsCode (code : Context → Body σ) (outputType : Option OutputType) : Prop :=
  ∀ (env : Env σ) (ctx : Context), f.fn.call env fnId ctx r s = (do
    let result ← Execution.run env ctx (fun ctx => (code ctx).interp env) outputType
    Function.afterRun env result) r s

/-- They answer that there is no such function. -/
def NotFound : Prop :=
  ∃ message, ∀ (env : Env σ) (ctx : Context),
    f.fn.call env fnId ctx r s = ⟨.ok (CallResult.ofError (functionNotFoundError message)), s, []⟩

variable {f fnId r s}

theorem runsCode_of_select {code : Context → Body σ} {outputType : Option OutputType}
    (h : f.fn.select fnId = .ok (code, outputType)) : RunsCode f fnId r s code outputType := by
  intro env ctx
  rw [Function.call, h]

theorem runsCode_main (h : f.id = fnId) :
    RunsCode f fnId r s f.opts.handler f.opts.outputType :=
  runsCode_of_select (if_pos h)

theorem runsCode_onFailure (hne : f.id ≠ fnId) (hid : f.onFailureFnId = some fnId)
    {code : Context → Body σ} (hcode : f.opts.onFailure = some code) :
    RunsCode f fnId r s code (some "object") := by
  have hmain : f.fn.id ≠ fnId := hne
  have hfailure : f.fn.onFailureFnId = some fnId := hid
  have hhandler : f.fn.onFailure = some code := hcode
  refine runsCode_of_select ?_
  rw [Function.select, if_neg hmain, if_pos hfailure]
  simp only [hhandler]

theorem notFound_of_ids (h : fnId ∉ ids f) : NotFound f fnId r s := by
  rw [mem_ids, not_or] at h
  have hmain : ¬ f.fn.id = fnId := h.1
  have hfailure : ¬ f.fn.onFailureFnId = some fnId := h.2
  refine ⟨"function ID mismatch", fun env ctx => ?_⟩
  rw [Function.call, Function.select, if_neg hmain, if_neg hfailure]
  rfl

def stopping (e : PyError) : Env σ where
  flavor := .async
  hash := id
  serializer := none
  middleware := [.user { transformInput := ⟨false, fun s a => ((s, a), some e)⟩ }]
  request := ⟨0, false, none, "run"⟩
  targetHashedId := none

theorem RunsCode.not_notFound {code : Context → Body σ} {outputType : Option OutputType}
    (hruns : RunsCode f fnId r s code outputType) : ¬ NotFound f fnId r s := by
  rintro ⟨message, hnone⟩
  let ctx : Context := ⟨0, ⟨[], "", "", 0⟩, [], ""⟩
  let e := exception "Exception" "stopped"
  have hstopped : (f.fn.call (stopping e) fnId ctx r s).outcome =
      .ok (CallResult.ofError e) := by
    rw [hruns (stopping e) ctx]
    rfl
  rw [hnone] at hstopped
  simp [CallResult.ofError, functionNotFoundError, e, exception, error] at hstopped

end Calls

/-! ## The two agree -/

section Agree
variable (fns : Functions σ) (appId fnId : String) (r : Scope) (s : State σ)

/-- The function that is found for a request has the requested ID, or that ID
with the app's in front, for its main handler or for its handler for failures,
and a call of it with the requested ID runs that handler. -/
def Agrees : Prop :=
  ∀ f, fns.getFunction appId fnId = .ok f → ¬ NotFound f fnId r s ∧
    ∃ id, (id = fnId ∨ id = appId ++ "-" ++ fnId) ∧
      (f.id = id ∧ RunsCode f fnId r s f.opts.handler f.opts.outputType ∨
        ∃ code, f.onFailureFnId = some id ∧ f.opts.onFailure = some code ∧
          RunsCode f fnId r s code (some "object"))

variable {fns appId fnId}

theorem find_isSome_iff : (fns.find fnId).isSome = true ↔ ∃ f ∈ fns.values, fnId ∈ ids f := by
  simp [Functions.find, List.find?_isSome, mem_ids]

theorem runs_of_mem {f : AppFunction σ} (h : fnId ∈ ids f) :
    f.id = fnId ∧ RunsCode f fnId r s f.opts.handler f.opts.outputType ∨
      ∃ code, f.onFailureFnId = some fnId ∧ f.opts.onFailure = some code ∧
        RunsCode f fnId r s code (some "object") := by
  by_cases hmain : f.id = fnId
  · exact .inl ⟨hmain, runsCode_main hmain⟩
  · have hid := (mem_ids.mp h).resolve_left hmain
    obtain ⟨code, hcode⟩ := Option.isSome_iff_exists.mp (onFailureFnId_eq_some.mp hid).1
    exact .inr ⟨code, hid, hcode, runsCode_onFailure hmain hid hcode⟩

/-- Lookup agrees with dispatch exactly when no request needs the prefix. -/
theorem agrees_iff :
    Agrees fns appId fnId r s ↔
      ((∃ f ∈ fns.values, appId ++ "-" ++ fnId ∈ ids f) → ∃ f ∈ fns.values, fnId ∈ ids f) := by
  rw [← find_isSome_iff, ← find_isSome_iff]
  constructor
  · intro h hprefixed
    obtain ⟨f, hf⟩ := Option.isSome_iff_exists.mp hprefixed
    by_contra hnone
    have hnone : fns.find fnId = none := by simpa using hnone
    have hget : fns.getFunction appId fnId = .ok f := by
      simp only [Functions.getFunction, hnone, hf]
    have hmem : f ∈ fns.values := List.mem_of_find?_eq_some hf
    refine (h f hget).1 (notFound_of_ids fun hid => ?_)
    have hsome := find_isSome_iff.mpr ⟨f, hmem, hid⟩
    rw [hnone] at hsome
    cases hsome
  · intro h f hget
    have hfind : fns.find fnId = some f := by
      rw [Functions.getFunction] at hget
      cases hfind : fns.find fnId with
      | some g =>
        simp only [hfind, Except.ok.injEq] at hget
        rw [hget]
      | none =>
        cases hprefixed : fns.find (appId ++ "-" ++ fnId) with
        | none => simp [hfind, hprefixed] at hget
        | some g =>
          have hsome := h (by rw [hprefixed]; rfl)
          rw [hfind] at hsome
          cases hsome
    have hid : fnId ∈ ids f := by
      have hspec := List.find?_some hfind
      rw [mem_ids]
      simpa using hspec
    have hruns := runs_of_mem r s hid
    refine ⟨?_, fnId, .inl rfl, hruns⟩
    obtain ⟨-, hcode⟩ | ⟨code, -, -, hcode⟩ := hruns
    · exact hcode.not_notFound
    · exact hcode.not_notFound

end Agree

/-! A request of an older version for the function `b` of the app. -/

theorem unprefixed_not_found :
    (apart.functions.getFunction "app" "b").toOption = some ⟨"app", unrelated⟩ ∧
      (∀ r s, NotFound ⟨"app", unrelated⟩ "b" r s) ∧
      ¬ Agrees apart.functions "app" "b" .top ⟨∅, fun _ => 0, false, false, fun _ => none, ()⟩ := by
  have hnone : ∀ r s, NotFound ⟨"app", unrelated⟩ "b" r s :=
    fun r s => notFound_of_ids (by decide)
  exact ⟨by rfl, hnone, fun h => (h ⟨"app", unrelated⟩ (by rfl)).1 (hnone _ _)⟩

end Dispatch
end Inngest
