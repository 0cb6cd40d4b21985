import Inngest.StepResults

/-!
# A target that the replay does not reach

Outside every group a step without a memo raises the skip that tells the
executor its target is gone. Inside a group the same skip is passed over. So
a missing target is noticed exactly when the replay meets a new step outside
every group, unless the function, its serializer or a hook fails by itself.
-/

set_option autoImplicit false

namespace Inngest.MissingTarget
open ServerLib Errors StepLib Effect Engine History

structure Missed (r : Scope) (l : List Mark) (o : Option Interrupt) : Prop where
  skip : ∀ i, o = some i → ∃ id, i = .skip id
  outside : r.inParallel = false → (o ≠ none ↔ ∃ id, .reported id false false ∈ l)
  inside : r.inParallel = true → ∀ id m, .reported id m false ∉ l

def Missing {σ : Type} (t : String) (r : Scope) (_s : State σ) (l : List Mark) (_s' : State σ)
    (o : Option Interrupt) : Prop :=
  r.inStep = false → (∀ p, .reported t false p ∉ l) → Missed r l o

section Rules
variable {σ : Type} {env : Env σ} {r : Scope} {s s' : State σ} {l : List Mark}
  {o : Option Interrupt} {t : String}

theorem missed_append {l₁ l₂ : List Mark} (h₁ : Missed r l₁ none)
    (h₂ : Missed r l₂ o) : Missed r (l₁ ++ l₂) o := by
  refine ⟨h₂.skip, fun hr => ?_, fun hr id m hm => ?_⟩
  · have hnone : ∀ id, .reported id false false ∉ l₁ := by
      simpa using h₁.outside hr
    rw [h₂.outside hr]
    simp [hnone]
  · exact (List.mem_append.mp hm).elim (h₁.inside hr id m) (h₂.inside hr id m)

theorem missed_silent (h : ∀ id m p, .reported id m p ∉ l) : Missed r l none :=
  ⟨by simp, fun _ => by simp [h], fun _ id m => h id m false⟩

theorem missing_chain : Chain (Missing (σ := σ) t) where
  nil := fun _ _ _ _ => missed_silent (by simp)
  append := fun h₁ h₂ hr ht => missed_append
    (h₁ hr fun p hp => ht p (List.mem_append_left _ hp))
    (h₂ hr fun p hp => ht p (List.mem_append_right _ hp))

theorem missing_step (ht : env.targetHashedId = some t) {info : StepInfo}
    {decode : Json → Except PyError Json} {outputType : Option OutputType}
    {handler : Exec σ Json} {d : Run σ Json} (path : List ℕ) (b : Option String)
    (hd : Step.StepDone env info decode outputType handler r s d) :
    Missing t r s (.parsed path info.id b :: d.log) d.state d.outcome.escape := by
  intro hr hno
  cases hd with
  | answered hp hm =>
    refine ⟨by simp, fun hpar => ?_, fun hpar id m hmem => ?_⟩
    · simp [reported_pop hp, hm]
    · simp only [List.mem_cons, reduceCtorEq, reported_pop hp, false_or] at hmem
      simp [hpar] at hmem
  | nested hp hs => simp [hr] at hs
  | skipped hp hm =>
    refine ⟨by simp, fun hpar => ?_, fun hpar id m hmem => ?_⟩
    · simp [reported_pop hp, hm, hpar]
    · simp only [List.mem_cons, reduceCtorEq, reported_pop hp, false_or] at hmem
      simp [hpar] at hmem
  | responded hp hm htarget =>
    have := htarget t ht
    exact absurd (by simp [reported_pop hp, hm, this]) (hno r.inParallel)
  | executed hp hm hs hop hmay =>
    have : t = info.id := by
      rcases hmay with h | ⟨h, -⟩ <;> simp_all
    exact absurd (by simp [reported_pop hp, hm, this]) (hno r.inParallel)

theorem missing_group {callables : List (Exec σ Json)} {mode : ParallelMode}
    (hcs : ∀ c ∈ callables, Guar (Missing t) c) :
    Guar (Missing t) (Group.parallel callables mode) := by
  refine Group.guar_parallel (G := fun r _ l _ ds => r.inStep = false →
    (∀ p, .reported t false p ∉ l) → ds = [] ∧ ∀ id m, .reported id m false ∉ l) ?_ ?_ ?_
    mode hcs
  · intro r
    have happ : ∀ {ds l₁ l₂ s s' o}, (r.inGroup.inStep = false →
        (∀ p, .reported t false p ∉ l₁) → ds = [] ∧ ∀ id m, .reported id m false ∉ l₁) →
        Missing (σ := σ) t r.inGroup s l₂ s' o → r.inGroup.inStep = false →
        (∀ p, .reported t false p ∉ l₁ ++ l₂) →
        ds = ([] : List StepResponse) ∧ (∀ i, o = some i → ∃ id, i = .skip id) ∧
          ∀ id m, .reported id m false ∉ l₁ ++ l₂ := by
      intro ds l₁ l₂ s s' o h₁ h₂ hr hno
      obtain ⟨hds, hl₁⟩ := h₁ hr fun p hp => hno p (List.mem_append_left _ hp)
      have hm := h₂ hr fun p hp => hno p (List.mem_append_right _ hp)
      exact ⟨hds, hm.skip, fun id m hmem =>
        (List.mem_append.mp hmem).elim (hl₁ id m) (hm.inside rfl id m)⟩
    refine ⟨fun s _ _ => ⟨rfl, by simp⟩, ?_, ?_, ?_, ?_⟩
    · intro s l₁ s₁ ds l₂ s₂ h₁ h₂ hr hno
      obtain ⟨hds, -, hl⟩ := happ h₁ h₂ hr hno
      exact ⟨hds, hl⟩
    · intro s l₁ s₁ ds l₂ s₂ i new h₁ h₂ ha hr hno
      obtain ⟨hds, hi, hl⟩ := happ h₁ h₂ hr hno
      obtain ⟨id, rfl⟩ := hi i rfl
      have hnew : [] = new := Option.some.inj ha
      exact ⟨by simp [hds, ← hnew], hl⟩
    · intro s l₁ s₁ ds l₂ s₂ h₁ h₂ hr hno
      obtain ⟨-, hi, hl⟩ := happ h₁ h₂ hr (by simpa using hno)
      exact ⟨by simp, by simp, by simpa using hl⟩
    · intro s l₁ s₁ ds l₂ s₂ i h₁ h₂ ha hr hno
      obtain ⟨-, hi, -⟩ := happ h₁ h₂ hr (by simpa using hno)
      obtain ⟨id, rfl⟩ := hi i rfl
      simp [Group.caught] at ha
  · intro r s l s' o ho h hr hno
    have hm := h hr hno
    have hnone : o = none := by
      cases o with
      | none => rfl
      | some i =>
        obtain ⟨id, rfl⟩ := hm.skip i rfl
        simp [Group.caught] at ho
    have hl := hm.inside rfl
    exact ⟨hm.skip, fun _ => by simp [hnone, hl], fun _ => hl⟩
  · intro r s l s' ds mode h hr hno
    obtain ⟨rfl, hl⟩ := h hr hno
    exact ⟨by simp, fun _ => by simp [hl], fun _ => hl⟩

theorem missing_interp (ht : env.targetHashedId = some t) (b : Body σ) :
    Guar (Missing t) (b.interp env) := by
  refine Body.guar_interp missing_chain ?_ ?_ ?_ ?_ ?_ ?_ ?_ ?_ b
  · intro r p s l s' o h hr hno
    have hm := h hr hno
    exact ⟨hm.skip, hm.outside, hm.inside⟩
  · exact fun r s x _ _ => missed_silent (by simp)
  · exact fun r s name method _ _ => missed_silent (by simp)
  · exact fun r s name message found _ _ _ => missed_silent (by simp)
  · exact fun stepId r s _ _ => missed_silent (by simp)
  · intro stepId info decode outputType handler r s d _ _ hd hr hno
    have hm := missing_step ht r.path r.running hd hr hno
    exact ⟨hm.skip, hm.outside, hm.inside⟩
  · exact fun callables mode hcs => missing_group hcs
  · exact fun r s complete _ _ => missed_silent (by simp)

end Rules

variable {σ : Type} {env : Env σ} {fn : Context → Body σ} {outputType : Option OutputType}
  {inv : Invocation σ} {t : String}

theorem forall_called {ctx : Context} (h : (prepared env inv).outcome = .ok (.ok ctx))
    {P : Context → Prop} :
    (∀ ctx', (prepared env inv).outcome = .ok (.ok ctx') → P ctx') ↔ P ctx := by
  simp only [h, Outcome.ok.injEq, Except.ok.injEq, forall_eq']

/-- When the replay does not reach its target, the call result is an error
exactly when the function is not called at all, a new step is reached outside
every group, or the function, its serializer or `after_execution` fails. -/
theorem missing_target_iff (ht : env.targetHashedId = some t)
    (hno : ∀ p, .reported t false p ∉ (request env fn outputType inv).log) :
    (∃ e, (request env fn outputType inv).outcome = .ok (CallResult.ofError e)) ↔
    ∀ ctx, (prepared env inv).outcome = .ok (.ok ctx) →
      (∃ id, .reported id false false ∈ (request env fn outputType inv).log) ∨
      (∃ e, Step.serialized env outputType (codeRun env fn inv ctx).outcome = .exc e) ∨
      Execution.afterError env Scope.top (codeRun env fn inv ctx).state ≠ none := by
  obtain ⟨x, hx⟩ := prepared_outcome env inv
  cases x with
  | error e =>
    rw [request_stopped fn outputType hx]
    exact iff_of_true ⟨e, rfl⟩ fun ctx h => by simp [hx] at h
  | ok ctx =>
    have hmiss := missing_interp ht (fn ctx) Scope.top (prepared env inv).state rfl
    rw [← codeRun] at hmiss
    have hrep : ∀ id m p, .reported id m p ∈ (request env fn outputType inv).log ↔
        .reported id m p ∈ (codeRun env fn inv ctx).log :=
      fun _ _ _ => StepResults.mem_request_log hx (by simp)
    simp only [hrep] at hno ⊢
    obtain ⟨hskip, hout, -⟩ := hmiss hno
    have hres := @request_outcome σ env fn outputType inv ctx hx
    rw [forall_called hx]
    cases ho : (codeRun env fn inv ctx).outcome with
    | ok v =>
      rw [ho] at hres hout
      have hnone : ¬ ∃ id, .reported id false false ∈ (codeRun env fn inv ctx).log :=
        fun h => (hout rfl).mpr h rfl
      cases hs : env.serialize v outputType with
      | error e =>
        have he : Step.serialized env outputType (.ok v) = .exc e := by
          simp only [Step.serialized, hs]
        exact iff_of_true ⟨e, hres (by rw [he]; rfl)⟩ (.inr (.inl ⟨e, he⟩))
      | ok output =>
        have he : Step.serialized env outputType (.ok v) = .ok output := by
          simp only [Step.serialized, hs]
        rw [he] at hres ⊢
        rw [hres rfl]
        cases hafter : Execution.afterError env Scope.top (codeRun env fn inv ctx).state with
        | none => simp [hnone, Execution.unlessError, CallResult.ofOutput, CallResult.ofError]
        | some e => simp [Execution.unlessError]
    | exc e =>
      rw [ho] at hres
      exact iff_of_true ⟨e, hres rfl⟩ (.inr (.inl ⟨e, rfl⟩))
    | intr i =>
      rw [ho] at hres hout hskip
      obtain ⟨id, rfl⟩ := hskip i rfl
      exact iff_of_true ⟨_, hres rfl⟩ (.inl ((hout rfl).mp (by simp)))

/-! A group whose step `b` was taken out of the function, while `a` still has to
run. -/

def shrunkGroup (_ : Context) : Body Unit :=
  .parallel 1 GroupResults.innerCallables .wait fun
    | .ok outputs => .ret (.arr outputs)
    | .error e => .raise e

/-- The function is reported as finished. -/
theorem missing_target_completes :
    (∀ p, .reported (Sample.hashStepId "b") false p ∉
      (request (Sample.env (Sample.hashStepId "b")) shrunkGroup none
        (Sample.invocation [])).log) ∧
    (request (Sample.env (Sample.hashStepId "b")) shrunkGroup none
      (Sample.invocation [])).outcome = .ok (CallResult.ofOutput (.arr [])) := by
  decide

theorem missing_target_iff_shrunkGroup :
    (∀ p, .reported (Sample.hashStepId "b") false p ∉
      (request (Sample.env (Sample.hashStepId "b")) shrunkGroup none
        (Sample.invocation [])).log) ∧
    ((∃ e, (request (Sample.env (Sample.hashStepId "b")) shrunkGroup none
        (Sample.invocation [])).outcome = .ok (CallResult.ofError e)) ↔
      ∀ ctx, (prepared (Sample.env (Sample.hashStepId "b")) (Sample.invocation [])).outcome =
          .ok (.ok ctx) →
        (∃ id, .reported id false false ∈
          (request (Sample.env (Sample.hashStepId "b")) shrunkGroup none
            (Sample.invocation [])).log) ∨
        (∃ e, Step.serialized (Sample.env (Sample.hashStepId "b")) none
          (codeRun (Sample.env (Sample.hashStepId "b")) shrunkGroup
            (Sample.invocation []) ctx).outcome = .exc e) ∨
        Execution.afterError (Sample.env (Sample.hashStepId "b")) Scope.top
          (codeRun (Sample.env (Sample.hashStepId "b")) shrunkGroup
            (Sample.invocation []) ctx).state ≠ none) :=
  ⟨by decide, missing_target_iff rfl (by decide)⟩

end Inngest.MissingTarget
