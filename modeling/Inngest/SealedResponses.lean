import Inngest.Encryption

/-!
# Plaintext in responses

The encryption middleware seals a response that carries one result. A request
that reports several steps is sent without it, so what those steps hold leaves
as it is: an `invoke` among them with its event data, and a `step.run` with
its output.
-/

set_option autoImplicit false

namespace Inngest.SealedResponses
open ServerLib Errors StepLib Effect Engine EncryptionMiddleware

variable {σ : Type}

/-! ## The hook in its list -/

/-- The middleware inherits `transform_output`, and the manager does not refuse
to call it. -/
def Inert (flavor : Flavor) : Middleware σ → Prop
  | .logger => True
  | .user h => h.transformOutput = .noop ∧ (flavor = .sync → h.isMiddleware = false)

/-- The middleware is in the list, and no other one there has a
`transform_output` of its own. -/
def Installed (flavor : Flavor) (m : EncryptionMiddleware σ) (ms : List (Middleware σ)) : Prop :=
  ∃ before after, ms = before ++ .user m.hooks :: after ∧ ∀ x ∈ before ++ after, Inert flavor x

section Hooks
variable {flavor : Flavor} {m : EncryptionMiddleware σ}

theorem hookLoop_inert {xs : List (Middleware σ)} (h : ∀ x ∈ xs, Inert flavor x) {l}
    (result : TransformOutputResult) (r : Scope) (s : State σ) :
    MiddlewareManager.hookLoop (fun h => flavor = .sync ∧ h.isMiddleware)
        (fun m => m.transformOutput.called flavor) (xs ++ l) result r s =
      MiddlewareManager.hookLoop (fun h => flavor = .sync ∧ h.isMiddleware)
        (fun m => m.transformOutput.called flavor) l result r s := by
  induction xs with
  | nil => rfl
  | cons x xs ih =>
    have hxs := ih fun y hy => h y (by simp [hy])
    cases x with
    | logger => exact hxs
    | user u =>
      obtain ⟨hn, hf⟩ := h (.user u) (by simp)
      rw [List.cons_append, MiddlewareManager.hookLoop_user (by simpa using hf), hn,
        Hook.called_plain rfl]
      exact hxs

theorem transformOutputHooks_eq {ms : List (Middleware σ)} (h : Installed flavor m ms)
    (result : TransformOutputResult) (r : Scope) (s : State σ) :
    MiddlewareManager.transformOutputHooks flavor ms result r s =
      ⟨.ok (match (m.transformOutput.call s.store result).2 with
          | some e => .error e
          | none => .ok (m.transformOutput.call s.store result).1.2),
        { s with store := (m.transformOutput.call s.store result).1.1 }, []⟩ := by
  obtain ⟨before, after, rfl, hothers⟩ := h
  have hafter : ∀ x ∈ after.reverse, Inert flavor x :=
    fun x hx => hothers x (by simp [List.mem_reverse.mp hx])
  have hbefore : ∀ x ∈ before.reverse, Inert flavor x :=
    fun x hx => hothers x (by simp [List.mem_reverse.mp hx])
  rw [MiddlewareManager.transformOutputHooks, List.reverse_append, List.reverse_cons,
    List.append_assoc, hookLoop_inert hafter, List.singleton_append,
    MiddlewareManager.hookLoop_user (by simp [EncryptionMiddleware.hooks]),
    Hook.called_plain (show m.hooks.transformOutput.isCoroutine = false from rfl)]
  have hend : ∀ result s, MiddlewareManager.hookLoop
      (fun h => flavor = .sync ∧ h.isMiddleware) (fun m => m.transformOutput.called flavor)
        before.reverse result r s = ⟨.ok (.ok result), s, []⟩ := by
    intro result s
    have := hookLoop_inert (l := []) hbefore result r s
    rwa [List.append_nil] at this
  cases he : (m.transformOutput.call s.store result).2 with
  | some e => simp [EncryptionMiddleware.hooks, he]
  | none =>
    simp only [EncryptionMiddleware.hooks, he]
    exact hend _ _

end Hooks

/-! ## What the hook makes of a result -/

section Hook
variable (m : EncryptionMiddleware σ)

def SealedFrom (v v' : Json) : Prop := m.Envelope v' ∨ marked v = true ∧ v' = v

structure Encrypted (result result' : TransformOutputResult) : Prop where
  error : result'.error = result.error
  output : ∀ v', result'.output = some v' → ∃ v, result.output = some v ∧ SealedFrom m v v'
  hasOutput : result'.output.isSome = result.output.isSome
  op : result'.step.map (·.op) = result.step.map (·.op)
  kept : (∀ info, result.step = some info → info.op ≠ .invoke) → result'.step = result.step
  invoke : ∀ info opts v', result'.step = some info → info.op = .invoke →
    info.opts = some opts → m.invokeField opts = some v' → m.Envelope v' ∨ marked v' = true

theorem sealedFrom_encrypt {s s' : σ} {v v' : Json} (h : m.encrypt s v = (s', .ok v')) :
    SealedFrom m v v' := by
  rcases m.encrypt_ok h with ⟨hm, rfl⟩ | ⟨-, he⟩
  · exact .inr ⟨hm, rfl⟩
  · exact .inl he

theorem encryptOutput_ok {s s' : σ} {result result' : TransformOutputResult}
    (h : m.encryptOutput s result = (s', .ok result')) :
    result'.error = result.error ∧ result'.step = result.step ∧
      result'.output.isSome = result.output.isSome ∧
      ∀ v', result'.output = some v' → ∃ v, result.output = some v ∧ SealedFrom m v v' := by
  cases ho : result.output with
  | none =>
    simp only [encryptOutput, ho, Prod.mk.injEq, Except.ok.injEq] at h
    obtain ⟨-, rfl⟩ := h
    simp [ho]
  | some v =>
    obtain ⟨t, x, hx⟩ : ∃ t x, m.encrypt s v = (t, x) := ⟨_, _, rfl⟩
    simp only [encryptOutput, ho, hx, Prod.mk.injEq] at h
    obtain ⟨-, h⟩ := h
    cases x with
    | error e => simp [Except.map] at h
    | ok v' =>
      simp only [Except.map, Except.ok.injEq] at h
      subst h
      refine ⟨rfl, rfl, rfl, fun w hw => ⟨v, rfl, ?_⟩⟩
      obtain rfl := Option.some.inj hw
      exact sealedFrom_encrypt m hx

theorem invokeTarget_some {step : Option TransformOutputStepInfo} {info : TransformOutputStepInfo}
    {opts : List (String × Json)} {v : Json} :
    m.invokeTarget step = some (info, opts, v) ↔
      step = some info ∧ info.op = .invoke ∧ info.opts = some opts ∧
        m.invokeField opts = some v := by
  cases step with
  | none => simp [invokeTarget]
  | some info' =>
    by_cases hop : info'.op = .invoke
    · cases ho : info'.opts with
      | none =>
        simp only [invokeTarget, hop, ho, Option.bind_eq_bind, Option.bind_some, if_true,
          Option.bind_none]
        constructor
        · simp
        · rintro ⟨h, -, h', -⟩
          obtain rfl := Option.some.inj h
          simp [ho] at h'
      | some opts' =>
        simp only [invokeTarget, hop, ho, Option.bind_eq_bind, Option.bind_some, if_true]
        constructor
        · intro h
          obtain ⟨w, hw, he⟩ := Option.bind_eq_some_iff.mp h
          simp only [Option.some.injEq, Prod.mk.injEq] at he
          obtain ⟨rfl, rfl, rfl⟩ := he
          exact ⟨rfl, hop, ho, hw⟩
        · rintro ⟨h, -, h', hv⟩
          obtain rfl := Option.some.inj h
          obtain rfl := Option.some.inj (ho.symm.trans h')
          simp [hv]
    · constructor
      · intro h
        simp [invokeTarget, hop] at h
      · rintro ⟨h, h', -⟩
        obtain rfl := Option.some.inj h
        exact absurd h' hop

theorem encryptInvoke_ok {s s' : σ} {result result' : TransformOutputResult}
    (h : m.encryptInvoke s result = (s', .ok result')) :
    result'.error = result.error ∧ result'.output = result.output ∧
      result'.step.map (·.op) = result.step.map (·.op) ∧
      ((∀ info, result.step = some info → info.op ≠ .invoke) → result'.step = result.step) ∧
      ∀ info opts v', result'.step = some info → info.op = .invoke → info.opts = some opts →
        m.invokeField opts = some v' → m.Envelope v' ∨ marked v' = true := by
  cases ht : m.invokeTarget result.step with
  | none =>
    simp only [encryptInvoke, ht, Prod.mk.injEq, Except.ok.injEq] at h
    obtain ⟨-, rfl⟩ := h
    refine ⟨rfl, rfl, rfl, fun _ => rfl, fun info opts v' hs hop ho hv => ?_⟩
    rw [(invokeTarget_some m).mpr ⟨hs, hop, ho, hv⟩] at ht
    simp at ht
  | some x =>
    obtain ⟨info, opts, v⟩ := x
    obtain ⟨hs, hop, ho, hv⟩ := (invokeTarget_some m).mp ht
    obtain ⟨t, y, hy⟩ : ∃ t y, m.encrypt s v = (t, y) := ⟨_, _, rfl⟩
    simp only [encryptInvoke, ht, hy, Prod.mk.injEq] at h
    obtain ⟨-, h⟩ := h
    cases y with
    | error e => simp [Except.map] at h
    | ok w =>
      simp only [Except.map, Except.ok.injEq] at h
      subst h
      refine ⟨rfl, rfl, by simp [hs], fun hne => absurd hop (hne info hs),
        fun info' opts' v' hs' _ ho' hv' => ?_⟩
      obtain rfl := Option.some.inj hs'
      obtain rfl := Option.some.inj ho'
      rw [m.invokeField_set (by simp [hv])] at hv'
      obtain rfl := Option.some.inj hv'
      rcases sealedFrom_encrypt m hy with he | ⟨hm, rfl⟩
      · exact .inl he
      · exact .inr hm

theorem transformOutput_done (hm : m.decryptOnly = false) (s : σ)
    (result : TransformOutputResult) :
    (m.transformOutput.call s result).2.isSome = true ∨
      (m.transformOutput.call s result).2 = none ∧
        Encrypted m result (m.transformOutput.call s result).1.2 := by
  obtain ⟨t, x, hx⟩ : ∃ t x, m.encryptOutput s result = (t, x) := ⟨_, _, rfl⟩
  cases x with
  | error e => exact .inl (by simp [EncryptionMiddleware.transformOutput, hm, hx])
  | ok result₁ =>
    obtain ⟨u, y, hy⟩ : ∃ u y, m.encryptInvoke t result₁ = (u, y) := ⟨_, _, rfl⟩
    cases y with
    | error e => exact .inl (by simp [EncryptionMiddleware.transformOutput, hm, hx, hy])
    | ok result₂ =>
      obtain ⟨he₁, hs₁, hh₁, ho₁⟩ := encryptOutput_ok m hx
      obtain ⟨he₂, ho₂, hs₂, hk₂, hi₂⟩ := encryptInvoke_ok m hy
      refine .inr ⟨by simp [EncryptionMiddleware.transformOutput, hm, hx, hy], ?_⟩
      have hcall : (m.transformOutput.call s result).1.2 = result₂ := by
        simp [EncryptionMiddleware.transformOutput, hm, hx, hy]
      rw [hcall]
      exact ⟨he₂.trans he₁, by rwa [ho₂], by rwa [ho₂], hs₂.trans (by rw [hs₁]),
        fun hne => (hk₂ (by rwa [hs₁])).trans hs₁, hi₂⟩

theorem transformOutput_marked (hm : m.decryptOnly = false) (s : σ)
    (result : TransformOutputResult) {v : Json} (ho : result.output = some v)
    (hv : marked v = true) (hop : ∀ info, result.step = some info → info.op ≠ .invoke) :
    m.transformOutput.call s result = ((s, result), none) := by
  have hx : m.encryptOutput s result = (s, .ok result) := by
    simp only [encryptOutput, ho, m.encrypt_marked hv, Except.map]
    congr
    exact ho.symm
  have ht : m.invokeTarget result.step = none := by
    cases h : m.invokeTarget result.step with
    | none => rfl
    | some x => exact absurd ((invokeTarget_some m).mp h).2.1 (hop _ ((invokeTarget_some m).mp h).1)
  simp [EncryptionMiddleware.transformOutput, hm, hx, encryptInvoke, ht]

end Hook

/-! ## Responses -/

def get : Json → String → Option Json
  | .obj fields, name => Json.field fields name
  | _, _ => none

section Claim
variable (m : EncryptionMiddleware σ)

/-- What may leave in one item of a response body: the output of a `step.run`
sealed, and so is the event data of an `invoke`, unless the user's value
carries the marker itself. -/
structure Sealed (item : Json) : Prop where
  output : get item "op" = some (.str Opcode.stepRun.value) → ∀ v, get item "data" = some v →
    m.Envelope v
  invoke : get item "op" = some (.str Opcode.invoke.value) → ∀ opts v,
    get item "opts" = some (.obj opts) → m.invokeField opts = some v →
      m.Envelope v ∨ marked v = true

/-- Every step response of the body is sealed, and so is a function's output. -/
structure NoPlaintext (resp : CommResponse) : Prop where
  steps : resp.statusCode = 206 → ∀ items, resp.body = .arr items → ∀ item ∈ items, Sealed m item
  output : resp.statusCode = 200 → m.Envelope resp.body

inductive Plain (item : CallItem) : Prop where
  | output {info v} : item.step = some info → info.op = .stepRun → item.output = some v →
      ¬ m.Envelope v → Plain item
  | invoke {info opts v} : item.step = some info → info.op = .invoke → info.opts = some opts →
      m.invokeField opts = some v → ¬ m.Envelope v → marked v = false → Plain item

/-- An output that is not sealed but carries the marker. -/
def Forged (item : CallItem) : Prop :=
  ∃ v, item.output = some v ∧ marked v = true ∧ ¬ m.Envelope v

/-- What the execution hands over leaves in plaintext: several results that
can be dumped, one of them plain, or a forged output. -/
def Exposed (result : CallResult) : Prop :=
  match result.multi with
  | none => CommResponse.dumps result.toCallItem = true ∧ Forged m result.toCallItem
  | some [item] => CommResponse.dumps item = true ∧ Forged m item ∧
      ∃ info, item.step = some info ∧ info.op = .stepRun
  | some items => items.all CommResponse.dumps = true ∧ ∃ item ∈ items, Plain m item

theorem get_prepared {item : CallItem} {info : StepInfo} (h : item.step = some info) :
    get (CommResponse.prepared item) "op" = some (.str info.op.value) ∧
      get (CommResponse.prepared item) "opts" = some (info.opts.elim .null .obj) ∧
      get (CommResponse.prepared item) "data" = item.output := by
  obtain ⟨error, output, step⟩ := item
  obtain rfl : step = some info := h
  refine ⟨by simp [get, CommResponse.prepared, StepInfo.toDict, Json.field],
    by simp [get, CommResponse.prepared, StepInfo.toDict, Json.field], ?_⟩
  cases error <;> cases output <;>
    simp [get, CommResponse.prepared, StepInfo.toDict, Json.field]

theorem sealed_iff {item : CallItem} {info : StepInfo} (h : item.step = some info) :
    Sealed m (CommResponse.prepared item) ↔ ¬ Plain m item := by
  obtain ⟨hop, hopts, hdata⟩ := get_prepared h
  constructor
  · rintro ⟨ho, hi⟩ hp
    rcases hp with ⟨hs, hrun, hv, hne⟩ | ⟨hs, hinv, ho', hf, hne, hm⟩
    · obtain rfl := Option.some.inj (h.symm.trans hs)
      exact hne (ho (by rw [hop, hrun]) _ (by rw [hdata, hv]))
    · obtain rfl := Option.some.inj (h.symm.trans hs)
      rcases hi (by rw [hop, hinv]) _ _ (by rw [hopts, ho']; rfl) hf with he | he
      · exact hne he
      · simp [hm] at he
  · intro hn
    refine ⟨fun ho v hv => ?_, fun hi opts v ho hf => ?_⟩
    · have hrun : info.op = .stepRun :=
        Opcode.value_injective (by simpa [hop] using ho)
      by_contra hne
      exact hn (.output h hrun (hdata ▸ hv) hne)
    · have hinv : info.op = .invoke := Opcode.value_injective (by simpa [hop] using hi)
      have ho' : info.opts = some opts := by
        rw [hopts] at ho
        cases hio : info.opts <;> simp_all
      by_contra hne
      rw [not_or] at hne
      exact hn (.invoke h hinv ho' hf hne.1 (by simpa using hne.2))

end Claim

section Item
variable {m : EncryptionMiddleware σ} {flavor : Flavor} {ms : List (Middleware σ)}

structure ItemEncrypted (m : EncryptionMiddleware σ) (item item' : CallItem) : Prop where
  error : item'.error = item.error
  output : ∀ v', item'.output = some v' → ∃ v, item.output = some v ∧ SealedFrom m v v'
  hasOutput : item'.output.isSome = item.output.isSome
  op : item'.step.map (·.op) = item.step.map (·.op)
  kept : (∀ info, item.step = some info → info.op ≠ .invoke) → item'.step = item.step
  invoke : ∀ info opts v', item'.step = some info → info.op = .invoke → info.opts = some opts →
    m.invokeField opts = some v' → m.Envelope v' ∨ marked v' = true

theorem itemEncrypted_update {item : CallItem} {result : TransformOutputResult}
    (h : Encrypted m item.toTransform result) : ItemEncrypted m item (item.update result) := by
  obtain ⟨he, ho, hh, hop, hk, hi⟩ := h
  refine ⟨he, ho, hh, by cases hs : item.step <;> simp [CallItem.update, hs], ?_, ?_⟩
  · intro hne
    have hstep : result.step = item.toTransform.step := by
      refine hk fun rinfo hr => ?_
      obtain ⟨info, hinfo, rfl⟩ := Option.map_eq_some_iff.mp hr
      exact hne info hinfo
    cases hs : item.step <;> simp [CallItem.update, CallItem.toTransform, hs, hstep]
  intro info opts v' hinfo hinv hopts hv
  cases hs : item.step with
  | none => simp [CallItem.update, hs] at hinfo
  | some info₀ =>
    cases hr : result.step with
    | none => simp [CallItem.toTransform, hs, hr] at hop
    | some rinfo =>
      simp only [CallItem.update, hs, hr, Option.map_some, Option.elim, Option.some.injEq] at hinfo
      subst hinfo
      have hrop : rinfo.op = info₀.op := by simpa [CallItem.toTransform, hs, hr] using hop
      exact hi rinfo opts v' hr (hrop.trans hinv) hopts hv

theorem transformItem_done (hms : Installed flavor m ms) (hm : m.decryptOnly = false)
    (item : CallItem) (hne : item.isEmpty = false) (r : Scope) (s : State σ) :
    (∃ e t, MiddlewareManager.transformItem flavor ms item r s = ⟨.ok (.error e), t, []⟩) ∨
    ∃ item' t, MiddlewareManager.transformItem flavor ms item r s = ⟨.ok (.ok item'), t, []⟩ ∧
      ItemEncrypted m item item' := by
  have hhooks := transformOutputHooks_eq hms item.toTransform r s
  rcases transformOutput_done m hm s.store item.toTransform with he | ⟨he, henc⟩
  · obtain ⟨e, he⟩ := Option.isSome_iff_exists.mp he
    rw [he] at hhooks
    refine .inl ⟨e, { s with store := (m.transformOutput.call s.store item.toTransform).1.1 }, ?_⟩
    rw [MiddlewareManager.transformItem, hne, if_neg Bool.false_ne_true,
      Comp.bind_ok (by rw [hhooks]), hhooks]
    rfl
  · rw [he] at hhooks
    refine .inr ⟨_, { s with store := (m.transformOutput.call s.store item.toTransform).1.1 }, ?_,
      itemEncrypted_update henc⟩
    rw [MiddlewareManager.transformItem, hne, if_neg Bool.false_ne_true,
      Comp.bind_ok (by rw [hhooks]), hhooks]
    rfl

theorem transformItem_forged (hms : Installed flavor m ms) (hm : m.decryptOnly = false)
    {item : CallItem} (hf : Forged m item)
    (hop : ∀ info, item.step = some info → info.op = .stepRun) (r : Scope) (s : State σ) :
    MiddlewareManager.transformItem flavor ms item r s = ⟨.ok (.ok item), s, []⟩ := by
  obtain ⟨v, ho, hv, -⟩ := hf
  have hne : item.isEmpty = false := by simp [CallItem.isEmpty, ho]
  have hcall : m.transformOutput.call s.store item.toTransform =
      ((s.store, item.toTransform), none) := by
    refine transformOutput_marked m hm s.store item.toTransform ho hv ?_
    intro info hinfo
    cases hs : item.step with
    | none => simp [CallItem.toTransform, hs] at hinfo
    | some info₀ =>
      simp only [CallItem.toTransform, hs, Option.map_some, Option.some.injEq] at hinfo
      simp [← hinfo, hop info₀ hs]
  have hhooks := transformOutputHooks_eq hms item.toTransform r s
  rw [hcall] at hhooks
  rw [MiddlewareManager.transformItem, hne, if_neg Bool.false_ne_true,
    Comp.bind_ok (by rw [hhooks]), hhooks]
  change (⟨.ok (.ok (item.update item.toTransform)), s, []⟩ : Run σ (Except PyError CallItem)) = _
  rw [CallItem.update_toTransform]

theorem not_plain {item item' : CallItem} (h : ItemEncrypted m item item')
    (hf : item'.output = item.output → Forged m item →
      ∀ info, item.step = some info → info.op ≠ .stepRun) : ¬ Plain m item' := by
  rintro (⟨hs, hrun, hv, hne⟩ | ⟨hs, hinv, ho, hv, hne, hm⟩)
  · obtain ⟨v, hov, he | ⟨hmk, rfl⟩⟩ := h.output _ hv
    · exact hne he
    · have hop := h.op
      rw [hs] at hop
      obtain ⟨info, hinfo, hinfo'⟩ := Option.map_eq_some_iff.mp hop.symm
      exact hf (hv.trans hov.symm) ⟨_, hov, hmk, hne⟩ info hinfo (hinfo'.trans hrun)
  · rcases h.invoke _ _ _ hs hinv ho hv with he | he
    · exact hne he
    · simp [hm] at he

end Item

section Request
variable {m : EncryptionMiddleware σ} {env : Env σ} {headers : Dict String}

inductive Produced : CallResult → Prop where
  | output (v : Json) : Produced (CallResult.ofOutput v)
  | error (e : PyError) : Produced (CallResult.ofError e)
  | responses (rs : List StepResponse) : Produced (CallResult.fromResponses rs)

theorem produced_unlessError {result : CallResult} (h : Produced result) (err : Option PyError) :
    Produced (Execution.unlessError err result) := by
  cases err with
  | none => exact h
  | some e => exact .error e

theorem produced_request {fn : Context → Body σ} {outputType : Option OutputType}
    {inv : Invocation σ} {result : CallResult}
    (h : (request env fn outputType inv).outcome = .ok result) : Produced result := by
  obtain ⟨x, hx⟩ := prepared_outcome env inv
  cases x with
  | error e =>
    rw [request_stopped fn outputType hx] at h
    rw [← Outcome.ok.inj h]
    exact .error e
  | ok ctx =>
    rw [StepResults.request_outcome_iff hx] at h
    cases ho : Step.serialized env outputType (codeRun env fn inv ctx).outcome with
    | ok output =>
      rw [ho] at h
      rw [← Option.some.inj h]
      exact produced_unlessError (.output output) _
    | exc e =>
      rw [ho] at h
      rw [← Option.some.inj h]
      exact .error e
    | intr i =>
      rw [ho] at h
      cases i with
      | response rs =>
        rw [← Option.some.inj h]
        exact produced_unlessError (.responses rs) _
      | skip stepId =>
        rw [← Option.some.inj h]
        exact .error _
      | nested => simp [Execution.resultOf] at h

theorem noPlaintext_error {resp : CommResponse} (h : resp.statusCode = 500) :
    NoPlaintext m resp :=
  ⟨fun h' => by simp [h] at h', fun h' => by simp [h] at h'⟩

theorem noPlaintext_ofError (e : PyError) :
    NoPlaintext m (CommResponse.fromCallResult headers (CallResult.ofError e)) := by
  rcases CommResponse.fromCallResult_single headers (CallResult.ofError e)
    rfl with ⟨-, hs, h⟩ | ⟨-, h⟩
  · exact noPlaintext_error (by rw [h]; rfl)
  · exact noPlaintext_error h

theorem noPlaintext_multi {result : CallResult} {items : List CallItem}
    (h : result.multi = some items) (hne : items ≠ [])
    (hsteps : ∀ item ∈ items, ∃ info, item.step = some info) :
    NoPlaintext m (CommResponse.fromCallResult headers result) ↔
      (items.all CommResponse.dumps = true → ∀ item ∈ items, ¬ Plain m item) := by
  rcases CommResponse.fromCallResult_multi headers h hne with ⟨hd, hs, hr⟩ | ⟨hd, hr⟩
  · rw [hr]
    constructor
    · intro hp _ item hi
      obtain ⟨info, hinfo⟩ := hsteps item hi
      exact (sealed_iff m hinfo).mp
        (hp.steps rfl _ rfl _ (List.mem_map.mpr ⟨item, hi, rfl⟩))
    · intro hn
      refine ⟨fun _ bodies hb body hbody => ?_, fun h' => by simp at h'⟩
      obtain rfl := Json.arr.inj hb
      obtain ⟨item, hi, rfl⟩ := List.mem_map.mp hbody
      obtain ⟨info, hinfo⟩ := hsteps item hi
      exact (sealed_iff m hinfo).mpr (hn hd item hi)
  · exact iff_of_true (noPlaintext_error hr) fun h' => by simp [hd] at h'

theorem noPlaintext_output (result : CallResult) {v : Json} (h : result.multi = none)
    (he : result.error = none) (hs : result.step = none) (ho : result.output = some v) :
    NoPlaintext m (CommResponse.fromCallResult headers result) ↔
      (CommResponse.dumps result.toCallItem = true → m.Envelope v) := by
  rcases CommResponse.fromCallResult_single headers result h with ⟨hd, hh, hr⟩ | ⟨hd, hr⟩
  · have hbody : CommResponse.prepared result.toCallItem = v := by
      simp [CommResponse.prepared, hs, he, ho]
    rw [hr, hbody, he]
    exact ⟨fun hp _ => hp.output rfl, fun hv => ⟨fun h' => by simp at h', fun _ => hv hd⟩⟩
  · exact iff_of_true (noPlaintext_error hr) fun h' => by simp [hd] at h'

def Cleared (headers : Dict String) (m : EncryptionMiddleware σ)
    (d : Run σ (Except PyError CallResult)) : Prop :=
  (∃ e, d.outcome = .exc e) ∨ (∃ e t, d = ⟨.ok (.error e), t, []⟩) ∨
    ∃ result t, d = ⟨.ok (.ok result), t, []⟩ ∧
      NoPlaintext m (CommResponse.fromCallResult headers result)

section Outcomes
variable (hms : Installed env.flavor m env.middleware) (hm : m.decryptOnly = false)
include hms hm

theorem cleared_error (e : PyError) (r : Scope) (s : State σ) :
    Cleared headers m (MiddlewareManager.transformOutput env.flavor env.middleware
      (CallResult.ofError e) r s) := by
  rcases transformItem_done hms hm (CallResult.ofError e).toCallItem rfl r s with
    ⟨e', t, ht⟩ | ⟨item, t, ht, henc⟩
  · exact .inr (.inl ⟨e', t, MiddlewareManager.transformOutput_none rfl ht⟩)
  · refine .inr (.inr ⟨_, t, MiddlewareManager.transformOutput_none rfl ht, ?_⟩)
    rcases CommResponse.fromCallResult_single headers ⟨item, none⟩ rfl
      with ⟨-, hs, h⟩ | ⟨-, h⟩
    · refine noPlaintext_error ?_
      rw [h]
      simp [henc.error, CallResult.ofError]
    · exact noPlaintext_error h

theorem cleared_output {v : Json} (hne : ¬ Exposed m (CallResult.ofOutput v)) (r : Scope)
    (s : State σ) :
    Cleared headers m (MiddlewareManager.transformOutput env.flavor env.middleware
      (CallResult.ofOutput v) r s) := by
  rcases transformItem_done hms hm (CallResult.ofOutput v).toCallItem rfl r s with
    ⟨e', t, ht⟩ | ⟨item, t, ht, henc⟩
  · exact .inr (.inl ⟨e', t, MiddlewareManager.transformOutput_none rfl ht⟩)
  · refine .inr (.inr ⟨_, t, MiddlewareManager.transformOutput_none rfl ht, ?_⟩)
    obtain ⟨v', hv'⟩ := Option.isSome_iff_exists.mp (henc.hasOutput.trans rfl)
    have hstep : item.step = none := by simpa [CallResult.ofOutput] using henc.op
    refine (noPlaintext_output ⟨item, none⟩ rfl henc.error hstep hv').mpr fun hd => ?_
    obtain ⟨v₀, hv₀, he | ⟨hmk, rfl⟩⟩ := henc.output v' hv'
    · exact he
    · by_contra hnv
      refine hne ⟨?_, _, hv₀, hmk, hnv⟩
      obtain rfl : v = v' := Option.some.inj hv₀
      simpa [CommResponse.dumps, CommResponse.dumpsOpts, hstep, CallResult.ofOutput, hv'] using hd

theorem cleared_response {response : StepResponse}
    (hne : ¬ Exposed m (CallResult.fromResponses [response])) (r : Scope) (s : State σ) :
    Cleared headers m (MiddlewareManager.transformOutput env.flavor env.middleware
      (CallResult.fromResponses [response]) r s) := by
  rcases transformItem_done hms hm (CallResult.itemOf response)
    (by simp [CallItem.isEmpty, CallResult.itemOf]) r s with
    ⟨e', t, ht⟩ | ⟨item, t, ht, henc⟩
  · exact .inr (.inl ⟨e', t, MiddlewareManager.transformOutput_one rfl ht⟩)
  · refine .inr (.inr ⟨_, t, MiddlewareManager.transformOutput_one rfl ht, ?_⟩)
    have hstep : ∃ info, item.step = some info := by
      have hop := henc.op
      cases hs : item.step with
      | none => simp [hs, CallResult.itemOf] at hop
      | some info => exact ⟨info, rfl⟩
    refine (noPlaintext_multi rfl (by simp) fun item' hi => ?_).mpr fun hd item' hi => ?_
    · obtain rfl := List.mem_singleton.mp hi
      exact hstep
    · obtain rfl := List.mem_singleton.mp hi
      refine not_plain henc fun ho hf info hinfo hop => hne ⟨?_, hf, info, hinfo, hop⟩
      have hk : item'.step = (CallResult.itemOf response).step := by
        refine henc.kept fun info' hinfo' => ?_
        rw [Option.some.inj (hinfo'.symm.trans hinfo), hop]
        decide
      simpa [CommResponse.dumps, CommResponse.dumpsOpts, ho, hk] using hd

theorem cleared_produced (headers : Dict String) {result : CallResult} (hp : Produced result)
    (hne : ¬ Exposed m result) (r : Scope) (s : State σ) :
    Cleared headers m (MiddlewareManager.transformOutput env.flavor env.middleware result r s) := by
  cases hp with
  | error e => exact cleared_error hms hm e r s
  | output v => exact cleared_output hms hm hne r s
  | responses rs =>
    match rs, hne with
    | [], _ => exact .inl ⟨_, rfl⟩
    | [response], hne => exact cleared_response hms hm hne r s
    | first :: second :: rest, hne =>
      refine .inr (.inr ⟨_, s, MiddlewareManager.transformOutput_several rfl, ?_⟩)
      refine (noPlaintext_multi rfl (by simp) fun item hi => ?_).mpr fun hd item hi hp => ?_
      · obtain ⟨response, -, rfl⟩ := List.mem_map.mp hi
        exact ⟨_, rfl⟩
      · exact hne ⟨hd, item, hi, hp⟩

theorem exposed_sent (headers : Dict String) {result : CallResult} (hp : Produced result)
    (he : Exposed m result) (r : Scope) (s : State σ) :
    MiddlewareManager.transformOutput env.flavor env.middleware result r s =
      ⟨.ok (.ok result), s, []⟩ ∧
    ¬ NoPlaintext m (CommResponse.fromCallResult headers result) := by
  cases hp with
  | error e =>
    obtain ⟨-, v, hv, -⟩ := he
    simp [CallResult.ofError] at hv
  | output v =>
    obtain ⟨hd, hf⟩ := he
    refine ⟨MiddlewareManager.transformOutput_none rfl
      (transformItem_forged hms hm hf (by simp [CallResult.ofOutput]) r s), fun hclean => ?_⟩
    obtain ⟨v', hv', -, hne⟩ := hf
    obtain rfl := Option.some.inj hv'
    exact hne ((noPlaintext_output _ rfl rfl rfl rfl).mp hclean hd)
  | responses rs =>
    match rs, he with
    | [], he => exact absurd he.2 (by simp)
    | [response], ⟨hd, hf, info, hinfo, hop⟩ =>
      have hstep : ∀ info', some response.step = some info' → info'.op = .stepRun := by
        intro info' h
        rw [← Option.some.inj h, Option.some.inj (show some response.step = some info from hinfo)]
        exact hop
      refine ⟨MiddlewareManager.transformOutput_one rfl
        (transformItem_forged hms hm hf hstep r s), fun hclean => ?_⟩
      obtain ⟨v, hv, -, hne⟩ := hf
      refine (noPlaintext_multi rfl (by simp) fun item hi => ?_).mp hclean
        (by simpa [CallResult.fromResponses] using hd) (CallResult.itemOf response) (by simp)
        (.output hinfo hop hv hne)
      obtain rfl := List.mem_singleton.mp hi
      exact ⟨info, hinfo⟩
    | first :: second :: rest, ⟨hd, item, hi, hplain⟩ =>
      refine ⟨MiddlewareManager.transformOutput_several rfl, fun hclean => ?_⟩
      refine (noPlaintext_multi rfl (by simp) fun item hi => ?_).mp hclean hd item hi hplain
      have hmap : item ∈ (first :: second :: rest).map CallResult.itemOf := hi
      obtain ⟨response, -, rfl⟩ := List.mem_map.mp hmap
      exact ⟨_, rfl⟩

/-- The end of a call, for a result that the execution produced. -/
theorem afterRun_noPlaintext_iff {result : CallResult} (hp : Produced result) (s : State σ) :
    (∀ sent, (Function.afterRun env result Scope.top s).outcome = .ok sent →
      NoPlaintext m (CommResponse.fromCallResult headers sent)) ↔
    (Exposed m result → beforeResponseError env s ≠ none) := by
  constructor
  · intro h he hnone
    obtain ⟨ht, hplain⟩ := exposed_sent hms hm headers hp he Scope.top s
    have hsent := afterRun_outcome ht
    rw [hnone] at hsent
    exact hplain (h result hsent)
  · intro h sent hsent
    by_cases he : Exposed m result
    · have ht := (exposed_sent hms hm headers hp he Scope.top s).1
      obtain ⟨e, herr⟩ := Option.ne_none_iff_exists'.mp (h he)
      rw [afterRun_outcome ht, herr] at hsent
      rw [← Outcome.ok.inj hsent]
      exact noPlaintext_ofError e
    · rcases cleared_produced hms hm headers hp he Scope.top s with
        ⟨e, hexc⟩ | ⟨e, t, ht⟩ | ⟨result', t, ht, hclean⟩
      · rw [Function.afterRun, Comp.bind_exc hexc] at hsent
        simp at hsent
      · rw [afterRun_error ht] at hsent
        rw [← Outcome.ok.inj hsent]
        exact noPlaintext_ofError e
      · rw [afterRun_outcome ht] at hsent
        rw [← Outcome.ok.inj hsent]
        cases beforeResponseError env t with
        | none => exact hclean
        | some e => exact noPlaintext_ofError e

/-- No plaintext leaves in the response to a request, exactly when the execution
does not expose any, or `before_response` fails after it has. -/
theorem no_plaintext_iff (fn : Function σ) (fnId : String) (inv : Invocation σ) :
    (∀ resp, respond env fn fnId headers inv = some resp → NoPlaintext m resp) ↔
    ∀ handler outputType result, fn.select fnId = .ok (handler, outputType) →
      (request env handler outputType inv).outcome = .ok result → Exposed m result →
      beforeResponseError env (request env handler outputType inv).state ≠ none := by
  have hrespond : (∀ resp, respond env fn fnId headers inv = some resp → NoPlaintext m resp) ↔
      ∀ sent, (fn.call env fnId inv.ctx Scope.top inv.initial).outcome = .ok sent →
        NoPlaintext m (CommResponse.fromCallResult headers sent) := by
    rw [respond]
    cases (fn.call env fnId inv.ctx Scope.top inv.initial).outcome <;> simp [Outcome.value?]
  rw [hrespond]
  cases hsel : fn.select fnId with
  | error e =>
    have hcall : (fn.call env fnId inv.ctx Scope.top inv.initial).outcome =
        .ok (CallResult.ofError e) := by
      rw [Function.call, hsel]
      rfl
    rw [hcall]
    refine iff_of_true (fun sent h => ?_) (by simp)
    rw [← Outcome.ok.inj h]
    exact noPlaintext_ofError e
  | ok x =>
    obtain ⟨handler, outputType⟩ := x
    have hcall : fn.call env fnId inv.ctx Scope.top inv.initial =
        (Execution.run env inv.ctx (fun ctx => (handler ctx).interp env) outputType >>=
          Function.afterRun env) Scope.top inv.initial := by
      rw [Function.call, hsel]
    have hrun : Execution.run env inv.ctx (fun ctx => (handler ctx).interp env) outputType Scope.top
        inv.initial = request env handler outputType inv := rfl
    cases ho : (request env handler outputType inv).outcome with
    | ok result =>
      rw [hcall, Comp.bind_ok (by rw [hrun, ho]), Done.after_outcome, hrun,
        afterRun_noPlaintext_iff hms hm (produced_request ho)]
      constructor
      · rintro h handler' outputType' result' hs hr
        obtain ⟨rfl, rfl⟩ := Prod.mk.inj (Except.ok.inj hs)
        rw [ho] at hr
        obtain rfl := Outcome.ok.inj hr
        exact h
      · intro h
        exact h handler outputType result rfl ho
    | exc e =>
      rw [hcall, Comp.bind_exc (by rw [hrun, ho])]
      refine iff_of_true (by simp) ?_
      rintro handler' outputType' result hs hr
      obtain ⟨rfl, rfl⟩ := Prod.mk.inj (Except.ok.inj hs)
      simp [ho] at hr
    | intr i =>
      rw [hcall, Comp.bind_intr (by rw [hrun, ho])]
      refine iff_of_true (by simp) ?_
      rintro handler' outputType' result hs hr
      obtain ⟨rfl, rfl⟩ := Prod.mk.inj (Except.ok.inj hs)
      simp [ho] at hr

end Outcomes

end Request

/-! A group of two steps, one of which invokes a function with event data that
is to be encrypted. -/

def glassBox : SecretBox Unit where
  encrypt _ byt := ((), "sealed " ++ byt)
  decrypt text := text.dropPrefix? "sealed " |>.map toString

def middleware : EncryptionMiddleware Unit where
  box := glassBox
  fallbackDecryptionBoxes := []
  decryptOnly := false
  eventEncryptionField := "encrypted"
  dumps
    | .str s => .ok ("\"" ++ s ++ "\"")
    | _ => .ok "1"
  loads _ := none

def sealedEnv : Env Unit :=
  { Sample.env none with middleware := MiddlewareManager.fromClient [middleware.hooks] [] }

def invokeAndRun : Function Unit where
  id := "app-fn"
  handler _ := .parallel 2
    (fun i => match i with
      | 0 => .call (Step.invokeById "a" "app" "other" (.obj [("encrypted", .str "secret")]) none
          none) fun _ => .ret .null
      | 1 => GroupResults.runThenReturn "b" (.int 1))
    .wait fun _ => .ret .null
  outputType := none
  onFailure := none

def sentBody : Json :=
  .arr [
    .obj [("displayName", .str "a"), ("id", .str (Sample.hashStepId "a")), ("name", .str "a"),
      ("op", .str "InvokeFunction"),
      ("opts", .obj [("function_id", .str "app-other"),
        ("payload", .obj [("data", .obj [("encrypted", .str "secret")]), ("v", .null)]),
        ("timeout", .null)]),
      ("userland", .obj [("id", .str "a"), ("index", .null)]), ("data", .null)],
    .obj [("displayName", .str "b"), ("id", .str (Sample.hashStepId "b")), ("name", .str "b"),
      ("op", .str "StepPlanned"), ("opts", .null),
      ("userland", .obj [("id", .str "b"), ("index", .null)]), ("data", .null)]]

/-- The event data of the `invoke` leaves as it is. -/
theorem invoke_sent_in_plaintext :
    (respond sealedEnv invokeAndRun "app-fn" ∅ (Sample.invocation [])).map
        (fun resp => (resp.body, resp.statusCode)) = some (sentBody, 206) ∧
    ¬ ∀ resp, respond sealedEnv invokeAndRun "app-fn" ∅ (Sample.invocation []) = some resp →
      NoPlaintext middleware resp := by
  have hsent : (respond sealedEnv invokeAndRun "app-fn" ∅ (Sample.invocation [])).map
      (fun resp => (resp.body, resp.statusCode)) = some (sentBody, 206) := by
    decide
  refine ⟨hsent, fun h => ?_⟩
  obtain ⟨resp, hresp, hb⟩ := Option.map_eq_some_iff.mp hsent
  obtain ⟨hbody, hstatus⟩ := Prod.mk.inj hb
  have hitem := (h resp hresp).steps hstatus _ hbody _ (List.mem_cons_self ..)
  rcases hitem.invoke rfl _ (.str "secret") rfl rfl with ⟨s, byt, hv⟩ | hm
  · simp [envelope] at hv
  · simp [marked] at hm

theorem no_plaintext_iff_invokeAndRun :
    Installed .async middleware sealedEnv.middleware ∧
    ((∀ resp, respond sealedEnv invokeAndRun "app-fn" ∅ (Sample.invocation []) = some resp →
        NoPlaintext middleware resp) ↔
      ∀ handler outputType result, invokeAndRun.select "app-fn" = .ok (handler, outputType) →
        (request sealedEnv handler outputType (Sample.invocation [])).outcome = .ok result →
        Exposed middleware result → beforeResponseError sealedEnv
          (request sealedEnv handler outputType (Sample.invocation [])).state ≠ none) := by
  have h : Installed .async middleware sealedEnv.middleware :=
    ⟨[.logger], [], rfl, by simp [Inert]⟩
  exact ⟨h, no_plaintext_iff h rfl invokeAndRun "app-fn" (Sample.invocation [])⟩

end Inngest.SealedResponses
