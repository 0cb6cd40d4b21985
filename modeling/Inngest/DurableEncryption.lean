import Inngest.DurableMiddleware
import Inngest.KeyRotation
import Inngest.SealedResponses

/-!
# Durable code behind the encryption middleware

Outputs are sealed with one of several keys, or by some clients not at all, and
every client has those keys among its own. The executor stores what it cannot
read, and the run is that of the app without the middleware.
-/

set_option autoImplicit false

namespace Inngest.Durable
open ServerLib Errors StepLib Effect Engine Replay History MiddlewareManager EncryptionMiddleware
open ReplayIdentity (Sent)
open Transition (Machine)

variable {σ κ : Type}

/-! ## Keys -/

/-- The keys that the clients of an app seal with, whether some of them only
decrypt, and `json.dumps`. -/
structure Keyring (κ σ : Type) where
  boxes : SecretBoxes κ σ
  keys : List κ
  decryptOnly : Bool
  dumps : Json → Except PyError String

namespace Keyring
variable (ring : Keyring κ σ) (app : App σ)

structure Equips (m : EncryptionMiddleware σ) (key : κ) (fallbackKeys : List κ) : Prop where
  keyed : m.Keyed ring.boxes key fallbackKeys
  opens : ∀ k ∈ ring.keys, k ∈ key :: fallbackKeys
  seals : m.decryptOnly = false → key ∈ ring.keys
  decrypts : m.decryptOnly = true → ring.decryptOnly = true
  dumps : m.dumps = ring.dumps
  loads : m.loads = app.loads

def Equipped (m : EncryptionMiddleware σ) : Prop :=
  ∃ key fallbackKeys, ring.Equips app m key fallbackKeys

/-- A value that `json` keeps and that does not look like an envelope. -/
def Plain (v : Json) : Prop :=
  marked v = false ∧ ∃ text, ring.dumps v = .ok text ∧ app.loads text = some v

/-- The ciphertext of the value under one of the keys. -/
def Sealed (w v : Json) : Prop :=
  ∃ k ∈ ring.keys, ∃ s text, ring.dumps v = .ok text ∧ app.loads text = some v ∧
    w = envelope ((ring.boxes.box k).encrypt s text).2

/-- Every client reads one memo as the other. -/
def Opens (w v : Json) : Prop :=
  ∀ m, ring.Equipped app m →
    m.decryptMemo (StepMemos.memo app.loads w) = .ok (StepMemos.memo app.loads v)

def Reported (w v : Json) : Prop :=
  ring.Sealed app w v ∨ ring.decryptOnly = true ∧ marked v = false ∧ w = v

variable {ring app}

theorem decrypt_unmarked {m : EncryptionMiddleware σ} {v : Json} (h : marked v = false) :
    m.decrypt v = .ok v := by
  have hnot : isEncrypted v = false := by simp [isEncrypted, h]
  cases v with
  | obj fields => simp [decrypt, hnot]
  | _ => rfl

theorem opens_unmarked {w : Json} (h : marked (StepMemos.memo app.loads w).data = false) :
    ring.Opens app w w := by
  intro m _
  rw [decryptMemo, decrypt_unmarked h]
  rfl

theorem opens_reported {w v : Json} (h : ring.Reported app w v) :
    ring.Opens app (dataOf w) (dataOf v) := by
  rcases h with ⟨k, hk, s, text, -, hloads, rfl⟩ | ⟨-, hv, rfl⟩
  · rintro m ⟨key, fallbackKeys, hm⟩
    rw [dataOf, dataOf, StepMemos.memo_data app.loads v]
    exact KeyRotation.decryptMemo_sealed hm.keyed (hm.opens k hk) (hm.loads ▸ hloads) s app.loads
  · apply opens_unmarked
    rwa [dataOf, StepMemos.memo_data]

variable (ring app) in
def coding : Coding := ⟨ring.Reported app, ring.Opens app, opens_reported⟩

end Keyring

/-! ## The hooks in a request -/

section Hooks
variable {ring : Keyring κ σ} {app : App σ} {m : EncryptionMiddleware σ} {env : Env σ}
  {inv : Invocation σ}

def encrypted (m : EncryptionMiddleware σ) : List (Middleware σ) := fromClient [m.hooks] []

theorem installed_encrypted (m : EncryptionMiddleware σ) (flavor : Flavor) :
    SealedResponses.Installed flavor m (encrypted m) := by
  refine ⟨[.logger], [], rfl, fun x hx => ?_⟩
  obtain rfl : x = .logger := by simpa using hx
  trivial

theorem transformInput_encrypted {flavor : Flavor} {ctx ctx' : Context} {memos memos' : StepMemos}
    {t : σ} {r : Scope} {s : State σ}
    (h : m.transformInput.call s.store (ctx, memos) = ((t, ctx', memos'), none)) :
    MiddlewareManager.transformInput flavor (encrypted m) ctx memos r s =
      ⟨.ok (.ok (ctx', memos')), { s with store := t }, []⟩ := by
  have hbefore : ∀ x ∈ [(Middleware.logger : Middleware σ)], KeyRotation.InputInert x := by
    simp [KeyRotation.InputInert]
  have huser : MiddlewareManager.transformInput flavor ([.logger] ++ .user m.hooks :: []) ctx memos
      r s = _ := KeyRotation.transformInput_user hbefore ctx memos r s
  rw [h] at huser
  exact huser

theorem prepared_encrypted (hm : env.middleware = encrypted m) {ctx' : Context}
    {memos' : StepMemos} {t : σ}
    (h : m.transformInput.call inv.initial.store (inv.ctx, inv.initial.memos) =
      ((t, ctx', memos'), none)) :
    (prepared env inv).outcome = .ok (.ok ctx') ∧ (prepared env inv).state.memos = memos' := by
  have hinput : MiddlewareManager.transformInput env.flavor (encrypted m) inv.ctx
      inv.initial.memos Scope.top inv.initial = _ := transformInput_encrypted h
  rw [prepared, Execution.prepare, Comp.get_bind, hm, Comp.bind_ok (by rw [hinput]), hinput]
  simp only [Comp.modify_bind, Done.after_nil]
  by_cases hsize : Dict.size memos' = 0
  · obtain ⟨u, l, hbefore, hu⟩ : ∃ u l, MiddlewareManager.beforeExecution env.flavor (encrypted m)
        Scope.top { inv.initial with store := t, memos := memos' } = ⟨.ok none, u, l⟩ ∧
        u.memos = memos' := by
      cases env.flavor <;> exact ⟨_, _, rfl, rfl⟩
    rw [if_pos hsize, Comp.bind_ok (by rw [hbefore]), hbefore]
    exact ⟨rfl, hu⟩
  · rw [if_neg hsize]
    exact ⟨rfl, rfl⟩

theorem afterError_encrypted (hm : env.middleware = encrypted m) (r : Scope) (s : State σ) :
    Execution.afterError env r s = none := by
  rw [Execution.afterError, hm]
  cases env.flavor <;> rfl

theorem beforeResponseError_encrypted (hm : env.middleware = encrypted m) (s : State σ) :
    beforeResponseError env s = none := by
  rw [beforeResponseError, hm]
  cases env.flavor <;> rfl

theorem transformItem_encrypted (flavor : Flavor) {x : CallItem} (hx : x.isEmpty = false)
    {result' : TransformOutputResult} {s : State σ} {t : σ}
    (h : m.transformOutput.call s.store x.toTransform = ((t, result'), none)) :
    transformItem flavor (encrypted m) x Scope.top s =
      ⟨.ok (.ok (x.update result')), { s with store := t }, []⟩ := by
  have hhooks := SealedResponses.transformOutputHooks_eq (installed_encrypted m flavor)
    x.toTransform Scope.top s
  rw [h] at hhooks
  rw [transformItem, if_neg (by simp [hx]), Comp.bind_ok (by rw [hhooks]), hhooks]
  rfl

theorem step_update (x : CallItem) (result : TransformOutputResult) :
    (x.update result).step.map (fun info => (info.id, info.op)) =
      x.step.map fun info => (info.id, info.op) := by
  cases hstep : x.step <;> simp [CallItem.update, hstep]

theorem encrypt_succeeds {v : Json} (h : marked v = true ∨ ∃ text, m.dumps v = .ok text) (s : σ) :
    ∃ t w, m.encrypt s v = (t, .ok w) := by
  by_cases hv : marked v = true
  · exact ⟨s, v, m.encrypt_marked hv⟩
  · obtain ⟨text, htext⟩ := h.resolve_left hv
    exact ⟨(m.box.encrypt s text).1, envelope (m.box.encrypt s text).2,
      by simp [encrypt, hv, htext]⟩

theorem transformOutput_succeeds {result : TransformOutputResult}
    (houtput : ∀ v, result.output = some v → marked v = true ∨ ∃ text, m.dumps v = .ok text)
    (hinvoke : ∀ info opts v, m.invokeTarget result.step = some (info, opts, v) →
      marked v = true ∨ ∃ text, m.dumps v = .ok text) (s : σ) :
    ∃ t result', m.transformOutput.call s result = ((t, result'), none) := by
  have hfirst : ∃ t result₁, m.encryptOutput s result = (t, .ok result₁) ∧
      result₁.step = result.step := by
    cases ho : result.output with
    | none => exact ⟨s, result, by simp [encryptOutput, ho], rfl⟩
    | some v =>
      obtain ⟨t, w, hw⟩ := encrypt_succeeds (houtput v ho) s
      exact ⟨t, { result with output := some w },
        by simp [encryptOutput, ho, hw, Except.map], rfl⟩
  obtain ⟨t, result₁, hfirst, hstep⟩ := hfirst
  have hsecond : ∃ u result₂, m.encryptInvoke t result₁ = (u, .ok result₂) := by
    cases htarget : m.invokeTarget result.step with
    | none => exact ⟨t, result₁, by simp [encryptInvoke, hstep, htarget]⟩
    | some x =>
      obtain ⟨info, opts, v⟩ := x
      obtain ⟨u, w, hw⟩ := encrypt_succeeds (hinvoke info opts v htarget) t
      exact ⟨u, { result₁ with step := some { info with opts := some (m.setInvokeField opts w) } },
        by simp [encryptInvoke, hstep, htarget, hw, Except.map]⟩
  obtain ⟨u, result₂, hsecond⟩ := hsecond
  by_cases honly : m.decryptOnly = true
  · exact ⟨s, result, by simp [EncryptionMiddleware.transformOutput, honly]⟩
  · exact ⟨u, result₂, by
      simp [EncryptionMiddleware.transformOutput, honly, hfirst, hsecond]⟩

theorem transformOutput_error {result result' : TransformOutputResult} {s t : σ}
    (h : m.transformOutput.call s result = ((t, result'), none)) :
    result'.error = result.error := by
  by_cases honly : m.decryptOnly = true
  · simp only [EncryptionMiddleware.transformOutput, honly, if_true, Prod.mk.injEq, and_true] at h
    rw [h.2]
  · have hdone := SealedResponses.transformOutput_done m (by simpa using honly) s result
    rw [h] at hdone
    exact (hdone.resolve_left (by simp)).2.error

theorem transformOutput_reported (hm : ring.Equipped app m) {result : TransformOutputResult}
    {v : Json} (hv : ring.Plain app v) (houtput : result.output = some v)
    (hstep : ∀ info ∈ result.step, info.op = .stepRun) (s : σ) :
    ∃ t w, m.transformOutput.call s result = ((t, { result with output := some w }), none) ∧
      ring.Reported app w v := by
  obtain ⟨key, fallbackKeys, hm⟩ := hm
  obtain ⟨hmarked, text, hdumps, hloads⟩ := hv
  by_cases honly : m.decryptOnly = true
  · refine ⟨s, v, ?_, .inr ⟨hm.decrypts honly, hmarked, rfl⟩⟩
    rw [← houtput]
    simp [EncryptionMiddleware.transformOutput, honly]
  · have hseals : m.decryptOnly = false := by simpa using honly
    have hne : ∀ info ∈ result.step, info.op ≠ .invoke := by
      intro info hinfo
      rw [hstep info hinfo]
      simp
    refine ⟨_, _, KeyRotation.transformOutput_sealed hm.keyed.box hseals hmarked
      (hm.dumps ▸ hdumps) houtput hne s, .inl ⟨key, hm.seals hseals, s, text, hdumps, hloads, rfl⟩⟩

end Hooks

/-! ## Requests with the middleware -/

/-- The values that go through the hooks are such as `json` keeps. -/
structure Sealable (ring : Keyring κ σ) (app : App σ) : Prop where
  values : ∀ stepId value, .run stepId value ∈ app.asked → ring.Plain app value
  result : ∀ v, app.code.direct app.value = .ok v → ring.Plain app v
  null : ∃ text, ring.dumps .null = .ok text
  invoked : ∀ q ∈ app.asked, ∀ opts, q.opts = some opts → ∀ (m : EncryptionMiddleware σ) v,
    m.invokeField opts = some v → marked v = true ∨ ∃ text, ring.dumps v = .ok text

/-- A request to a client of the app with what is stored; the events can be
read as well. -/
structure Encrypts (ring : Keyring κ σ) (app : App σ) (s : Sent σ) (stored : Dict Json)
    (m : EncryptionMiddleware σ) : Prop where
  hash : s.env.hash = app.hash
  serializer : s.env.serializer = none
  memos : s.inv.memos = StepMemos.fromRaw app.loads stored
  middleware : s.env.middleware = encrypted m
  equipped : ring.Equipped app m
  events : ∀ e ∈ s.inv.ctx.event :: s.inv.ctx.events, ∃ e', m.decryptEvent e = .ok e'

section Requests
variable {ring : Keyring κ σ} {app : App σ} {m : EncryptionMiddleware σ} {s : Sent σ}
  {stored known : Dict Json}

theorem invokeField_setParallelMode {info : StepInfo} {mode : ParallelMode}
    {opts : List (String × Json)} {v : Json} (hopts : (info.setParallelMode mode).opts = some opts)
    (h : m.invokeField opts = some v) :
    ∃ opts', info.opts = some opts' ∧ m.invokeField opts' = some v := by
  cases mode with
  | wait => exact ⟨opts, hopts, h⟩
  | race =>
    have hopts : Json.withField (info.opts.getD []) optKeyParallelMode
        (.str ParallelMode.race.value) = opts := Option.some.inj hopts
    have hpayload : payloadData opts = payloadData (info.opts.getD []) := by
      rw [payloadData, ← hopts, Json.field_withField, if_neg (by decide)]
      rfl
    have hfield : m.invokeField opts = m.invokeField (info.opts.getD []) := by
      rw [invokeField, hpayload, invokeField]
    cases ho : info.opts with
    | none =>
      rw [hfield, ho] at h
      cases h
    | some opts' =>
      rw [hfield, ho] at h
      exact ⟨opts', rfl, h⟩

theorem response_opts {env : Env σ} {b : Bool} {q : Question} :
    (response env b q).step.opts = q.opts := by
  cases q with
  | run stepId value =>
    rw [response]
    split <;> rfl
  | call c => rfl

theorem response_output {env : Env σ} {b : Bool} {q : Question} (h : ¬ Enters env b q) :
    (response env b q).output = .null := by
  cases q with
  | run stepId value =>
    rw [response, if_neg h]
    rfl
  | call c => rfl

theorem conveys_result (hs : Sealable ring app) (hm : ring.Equipped app m) (flavor : Flavor)
    (t : State σ) : ∃ t' x', transformItem flavor (encrypted m) app.result.toCallItem Scope.top t =
      ⟨.ok (.ok x'), t', []⟩ ∧ Conveys (ring.coding app) x' app.result.toCallItem := by
  cases hdirect : app.code.direct app.value with
  | ok v =>
    have hresult : app.result = CallResult.ofOutput v := by rw [App.result, hdirect]
    have hx : app.result.toCallItem.isEmpty = false := by rw [hresult]; rfl
    obtain ⟨u, w, hcall, hreported⟩ := transformOutput_reported hm (hs.result v hdirect)
      (show app.result.toCallItem.toTransform.output = some v by rw [hresult]; rfl)
      (by rw [hresult]; exact fun info hinfo => by cases hinfo) t.store
    refine ⟨_, _, transformItem_encrypted flavor hx hcall, rfl, step_update _ _, fun _ => ?_⟩
    rw [hresult]
    exact .some hreported
  | error e =>
    have hresult : app.result = CallResult.ofError e := by rw [App.result, hdirect]
    have hx : app.result.toCallItem.isEmpty = false := by rw [hresult]; rfl
    have hcall : m.transformOutput.call t.store app.result.toCallItem.toTransform =
        ((t.store, app.result.toCallItem.toTransform), none) := by
      have htarget : m.invokeTarget none = none := rfl
      rw [hresult]
      simp [EncryptionMiddleware.transformOutput, encryptOutput, encryptInvoke, CallResult.ofError,
        CallItem.toTransform, htarget]
    refine ⟨_, _, transformItem_encrypted flavor hx hcall, rfl, step_update _ _, fun _ => ?_⟩
    rw [hresult]
    exact .none

theorem conveys_response (hs : Sealable ring app) (hm : ring.Equipped app m) (flavor : Flavor)
    {env : Env σ} {q : Question} (hq : q ∈ app.asked) (b : Bool) (mode : ParallelMode)
    (t : State σ) :
    ∃ t' x', transformItem flavor (encrypted m)
        (CallResult.itemOf ((response env b q).setParallelMode mode)) Scope.top t =
      ⟨.ok (.ok x'), t', []⟩ ∧ Conveys (ring.coding app) x'
        (CallResult.itemOf ((response env b q).setParallelMode mode)) := by
  have hx : ∀ x : StepResponse, (CallResult.itemOf x).isEmpty = false := fun x => by
    simp [CallItem.isEmpty, CallResult.itemOf]
  by_cases he : Enters env b q
  · obtain ⟨hop, stepId, value, rfl, hvalue⟩ := response_op.1 he
    have hout : (CallResult.itemOf
        ((response env b (.run stepId value)).setParallelMode mode)).toTransform.output =
      some value := congrArg some hvalue
    obtain ⟨u, w, hcall, hreported⟩ := transformOutput_reported hm (hs.values stepId value hq) hout
      (fun info hinfo => by
        obtain rfl := Option.some.inj hinfo
        exact (setParallelMode_op _ _).trans hop) t.store
    refine ⟨_, _, transformItem_encrypted flavor (hx _) hcall, rfl, step_update _ _, fun _ => ?_⟩
    rw [show (CallResult.itemOf
      ((response env b (.run stepId value)).setParallelMode mode)).output = some value from hout]
    exact .some hreported
  · obtain ⟨key, fallbackKeys, hequips⟩ := hm
    have houtput : ∀ v, (CallResult.itemOf
        ((response env b q).setParallelMode mode)).toTransform.output = some v →
        marked v = true ∨ ∃ text, m.dumps v = .ok text := by
      intro v hv
      obtain rfl : Json.null = v := (response_output he).symm.trans (Option.some.inj hv)
      exact .inr (hequips.dumps ▸ hs.null)
    have hinvoke : ∀ info opts v, m.invokeTarget (CallResult.itemOf
        ((response env b q).setParallelMode mode)).toTransform.step = some (info, opts, v) →
        marked v = true ∨ ∃ text, m.dumps v = .ok text := by
      intro info opts v htarget
      obtain ⟨hinfo, -, hopts, hv⟩ := (SealedResponses.invokeTarget_some m).mp htarget
      obtain rfl := Option.some.inj hinfo
      obtain ⟨opts', hopts', hv'⟩ := invokeField_setParallelMode hopts hv
      exact hequips.dumps ▸ hs.invoked q hq opts' (response_opts.symm.trans hopts') m v hv'
    obtain ⟨u, result', hcall⟩ := transformOutput_succeeds houtput hinvoke t.store
    refine ⟨_, _, transformItem_encrypted flavor (hx _) hcall, transformOutput_error hcall,
      step_update _ _, fun h => ?_⟩
    have hop := h _ rfl
    exact absurd ((setParallelMode_op _ _).symm.trans hop) (response_op.2 he).1

theorem read_memos (h : Encrypts ring app s stored m)
    (hstored : Shadows (ring.coding app) stored known) :
    ∃ t ctx' memos', m.transformInput.call s.inv.initial.store (s.inv.ctx, s.inv.initial.memos) =
      ((t, ctx', memos'), none) := by
  have hmemos : ∀ memo ∈ s.inv.initial.memos.values, ∃ memo', m.decryptMemo memo = .ok memo' := by
    intro memo hmemo
    obtain ⟨⟨id, memo'⟩, hentry, rfl⟩ := List.mem_map.mp hmemo
    have hlookup : s.inv.initial.memos.lookup id = some memo' := AList.mem_lookup_iff.mpr hentry
    rw [show s.inv.initial.memos = StepMemos.fromRaw app.loads stored from h.memos,
      StepMemos.lookup_fromRaw] at hlookup
    obtain ⟨w, hw, rfl⟩ := Option.map_eq_some_iff.mp hlookup
    have hid := hstored id
    rw [hw] at hid
    generalize known.lookup id = v at hid
    cases hid with
    | some hopens => exact ⟨_, hopens m h.equipped⟩
  have hsucceeds := m.transformInput_succeeds s.inv.initial.store hmemos h.events
  exact ⟨_, _, _, Prod.ext rfl hsucceeds⟩

theorem Encrypts.carries (hs : Sealable ring app) (h : Encrypts ring app s stored m)
    (hstored : Shadows (ring.coding app) stored known) :
    app.Carries (ring.coding app) s stored := by
  obtain ⟨t, ctx', memos', hcall⟩ := read_memos h hstored
  obtain ⟨hpassed, hmemos⟩ := prepared_encrypted h.middleware hcall
  refine ⟨h.hash, h.serializer, h.memos, ⟨ctx', hpassed⟩, fun known' hstored' id => ?_,
    fun u => afterError_encrypted h.middleware _ u, fun x hx u => ?_,
    fun u => beforeResponseError_encrypted h.middleware u⟩
  · have hread := (m.transformInput_ok hcall).memos id
    rw [hmemos, StepMemos.lookup_fromRaw]
    rw [show s.inv.initial.memos = StepMemos.fromRaw app.loads stored from h.memos,
      StepMemos.lookup_fromRaw] at hread
    have hid := hstored' id
    generalize stored.lookup id = w at hread hid
    generalize known'.lookup id = v at hid
    cases hid with
    | none =>
      rcases hread with ⟨hnone, -⟩ | ⟨memo, memo', hmemo, -⟩
      · exact hnone
      · cases hmemo
    | some hopens =>
      rcases hread with ⟨-, hnone⟩ | ⟨memo, memo', hmemo, hmemo', hdecrypt⟩
      · cases hnone
      · obtain rfl := Option.some.inj hmemo
        rw [hmemo']
        exact congrArg some (Except.ok.inj (hdecrypt.symm.trans (hopens m h.equipped)))
  · rw [h.middleware]
    cases hx with
    | result => exact conveys_result hs h.equipped _ u
    | response b mode hq => exact conveys_response hs h.equipped _ hq b mode u

end Requests

/-! ## Runs with the middleware -/

section Runs
variable {ring : Keyring κ σ} {app : App σ} {R : Record}

variable (ring app) in
/-- An executor that talks to clients with the middleware. -/
def encrypting : Machine Record (StoreMove σ) :=
  app.storing (ring.coding app) fun s stored => ∃ m, Encrypts ring app s stored m

theorem serves_encrypted (hs : Sealable ring app) :
    app.Serves (ring.coding app) fun s stored => ∃ m, Encrypts ring app s stored m :=
  fun _ _ _ ⟨_, h⟩ hstored => h.carries hs hstored

end Runs

/-! ## Two clients

Each seals with its own key and opens what the other one sealed. -/

namespace TwoClients

def dumps : Json → Except PyError String
  | .int n => .ok (toString n)
  | .null => .ok "null"
  | v => .error (exception "TypeError" (toString (repr v)))

def loads (text : String) : Option Json :=
  if text = "null" then some .null else (Python.int text).map .int

def client (key : Bool) : EncryptionMiddleware Unit :=
  { KeyRotation.rotated key [!key] with dumps := dumps, loads := loads }

def ring : Keyring Bool Unit := ⟨KeyRotation.tableBoxes, [true, false], false, dumps⟩

def app : App Unit where
  id := "app-fn"
  hash := Inngest.Sample.hashStepId
  loads := loads
  fn _ := codeBody (.ask (.run "a" (.int 1)) .ret)
  outputType := none
  code := .ask (.run "a" (.int 1)) .ret
  resolve _ := .obj [("data", .null)]
  fn_eq _ := rfl

def sent (key : Bool) (stored : Dict Json) (target : Option String) : Sent Unit :=
  ⟨{ Inngest.Sample.env target with middleware := encrypted (client key) },
    { Inngest.Sample.invocation [] with memos := StepMemos.fromRaw loads stored }⟩

theorem encrypts (key : Bool) (stored : Dict Json) (target : Option String) :
    Encrypts ring app (sent key stored target) stored (client key) := by
  refine ⟨rfl, rfl, rfl, rfl, ⟨key, [!key], ⟨rfl, rfl⟩, ?_, ?_, ?_, rfl, rfl⟩, ?_⟩
  · cases key <;> simp [ring]
  · cases key <;> simp [ring]
  · intro honly
    cases honly
  · intro e he
    obtain rfl : e = (Inngest.Sample.invocation []).ctx.event := by
      simpa [sent, Inngest.Sample.invocation] using he
    exact ⟨_, rfl⟩

theorem plain_one : ring.Plain app (.int 1) := ⟨rfl, "1", by decide, by decide⟩

theorem asked_app : app.asked = [.run "a" (.int 1)] := rfl

theorem sealable : Sealable ring app where
  values stepId value hq := by
    rw [asked_app] at hq
    obtain ⟨rfl, rfl⟩ : stepId = "a" ∧ value = .int 1 := by simpa using hq
    exact plain_one
  result v hv := by
    obtain rfl : Json.int 1 = v := Except.ok.inj hv
    exact plain_one
  null := ⟨"null", rfl⟩
  invoked q hq opts hopts := by
    rw [asked_app] at hq
    obtain rfl := List.mem_singleton.mp hq
    cases hopts

theorem proper : app.Proper := by
  refine ⟨List.nodup_singleton _, fun q hq => ?_⟩
  rw [asked_app] at hq
  obtain rfl := List.mem_singleton.mp hq
  trivial

def stepped : Record :=
  (encrypting ring app).effect (.send ∅ (sent true ∅ none)) (encrypting ring app).init

def finished : Record :=
  (encrypting ring app).effect (.send stepped.raw (sent false stepped.raw none)) stepped

theorem reachable_stepped : (encrypting ring app).Reachable Machine.Any stepped :=
  .step (M := encrypting ring app) (.send ∅ (sent true ∅ none)) .init
    ⟨⟨_, encrypts true ∅ none⟩, rfl⟩ trivial

theorem reachable_finished : (encrypting ring app).Reachable Machine.Any finished :=
  reachable_stepped.step _ ⟨⟨_, encrypts false stepped.raw none⟩, rfl⟩ trivial

example : finished.raw.lookup (app.hash "a") =
    some (dataOf (envelope KeyRotation.sealedOne)) := by decide +kernel

example :
    .ok (CallResult.ofOutput (envelope (KeyRotation.spelt false "1"))) ∈ finished.replies := by
  decide +kernel

end TwoClients

end Inngest.Durable
