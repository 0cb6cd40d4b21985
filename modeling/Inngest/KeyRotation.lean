import Inngest.Encryption
import Inngest.Python

/-!
# Sealed outputs and changed keys

The output of a step is sealed by the middleware of one request and opened by
that of a later one, which may work with other keys. The executor wraps what it
stores; the memo's parser takes the wrapper off and leaves the envelope.
-/

set_option autoImplicit false

namespace Inngest.KeyRotation
open ServerLib Errors StepLib Effect Engine EncryptionMiddleware

variable {σ κ : Type} {boxes : SecretBoxes κ σ} {writer reader : EncryptionMiddleware σ}
  {key : κ} {fallbackKeys : List κ}

/-! ## Writing -/

theorem transformOutput_sealed {k : κ} (hbox : writer.box = boxes.box k)
    (hwrites : writer.decryptOnly = false) {v : Json} (hv : marked v = false) {text : String}
    (hdumps : writer.dumps v = .ok text) {result : TransformOutputResult}
    (houtput : result.output = some v) (hstep : ∀ info ∈ result.step, info.op ≠ .invoke) (s : σ) :
    writer.transformOutput.call s result =
      (((boxes.box k).encrypt s text |>.1,
        { result with output := some (envelope ((boxes.box k).encrypt s text).2) }), none) := by
  have hencrypt : writer.encrypt s v =
      (((boxes.box k).encrypt s text).1, .ok (envelope ((boxes.box k).encrypt s text).2)) := by
    simp [encrypt, hv, hdumps, hbox]
  have htarget : writer.invokeTarget result.step = none := by
    cases h : result.step with
    | none => rfl
    | some info => simp [invokeTarget, hstep info h]
  simp [transformOutput, hwrites, encryptOutput, houtput, hencrypt, Except.map, encryptInvoke,
    htarget]

/-! ## Reading -/

theorem decryptMemo_sealed (hreader : reader.Keyed boxes key fallbackKeys) {k : κ}
    (hk : k ∈ key :: fallbackKeys) {text : String} {v : Json} (hloads : reader.loads text = some v)
    (s : σ) (loads : String → Option Json) :
    reader.decryptMemo (StepMemos.memo loads
      (.obj [("data", envelope ((boxes.box k).encrypt s text).2)])) = .ok ⟨v, none⟩ := by
  rw [StepMemos.memo_data, decryptMemo, decrypt_sealed hreader hk hloads]
  rfl

theorem decryptMemo_foreign (hreader : reader.Keyed boxes key fallbackKeys) {k : κ}
    (hk : k ∉ key :: fallbackKeys) (text : String) (s : σ) (loads : String → Option Json) :
    reader.decryptMemo (StepMemos.memo loads
        (.obj [("data", envelope ((boxes.box k).encrypt s text).2)])) =
      .error (exception "Exception" "Failed to decrypt data") := by
  rw [StepMemos.memo_data, decryptMemo, decrypt_foreign hreader hk]
  rfl

/-- A memoized `step.run` outside a handler returns the memo's data. -/
theorem run_memoized {env : Env σ} {stepId : String} {handler : Exec σ Json} {r : Scope}
    {s : State σ} {v : Json} (hmemo : s.memos.lookup (Step.parsedAt env stepId s).hashed =
      some ⟨v, none⟩) (hr : r.inStep = false) :
    (Step.run env stepId none handler r s).outcome = .ok v := by
  have hdecode : env.deserialize v none = .ok v := by
    cases h : env.serializer <;> simp [Env.deserialize, h]
  rw [Step.run_memoized env none handler hmemo hr]
  simp [Step.remembered, hdecode, Outcome.ofExcept]

/-- The hook of a middleware that comes after others without one of their own. -/
def InputInert : Middleware σ → Prop
  | .logger => True
  | .user h => h.transformInput = .noop

theorem transformInput_before {flavor : Flavor} {before : List (Middleware σ)}
    (hbefore : ∀ x ∈ before, InputInert x) (rest : List (Middleware σ)) (ctx : Context)
    (memos : StepMemos) (r : Scope) (s : State σ) :
    MiddlewareManager.transformInput flavor (before ++ rest) ctx memos r s =
      MiddlewareManager.transformInput flavor rest ctx memos r s := by
  induction before with
  | nil => rfl
  | cons x before ih =>
    have hrest := ih fun y hy => hbefore y (by simp [hy])
    cases x with
    | logger => exact hrest
    | user u =>
      have hnoop : u.transformInput = .noop := hbefore (.user u) (by simp)
      rw [MiddlewareManager.transformInput, List.cons_append, MiddlewareManager.hookLoop_user
        (by simp [MiddlewareManager.refuseCoroutine, hnoop, Hook.noop]), hnoop]
      exact hrest

theorem transformInput_after {flavor : Flavor} {after : List (Middleware σ)}
    (hafter : ∀ x ∈ after, InputInert x) (ctx : Context) (memos : StepMemos) (r : Scope)
    (s : State σ) :
    MiddlewareManager.transformInput flavor after ctx memos r s =
      ⟨.ok (.ok (ctx, memos)), s, []⟩ := by
  have hbefore : MiddlewareManager.transformInput flavor (after ++ []) ctx memos r s =
      ⟨.ok (.ok (ctx, memos)), s, []⟩ := transformInput_before hafter [] ctx memos r s
  rwa [List.append_nil] at hbefore

theorem transformInput_user {flavor : Flavor} {before after : List (Middleware σ)}
    (hbefore : ∀ x ∈ before, InputInert x) (ctx : Context) (memos : StepMemos) (r : Scope)
    (s : State σ) :
    MiddlewareManager.transformInput flavor (before ++ .user reader.hooks :: after) ctx memos r s =
      match (reader.transformInput.call s.store (ctx, memos)).2 with
      | some e => ⟨.ok (.error e),
          { s with store := (reader.transformInput.call s.store (ctx, memos)).1.1 }, []⟩
      | none => MiddlewareManager.transformInput flavor after
          (reader.transformInput.call s.store (ctx, memos)).1.2.1
          (reader.transformInput.call s.store (ctx, memos)).1.2.2 r
          { s with store := (reader.transformInput.call s.store (ctx, memos)).1.1 } := by
  rw [transformInput_before hbefore, MiddlewareManager.transformInput,
    MiddlewareManager.hookLoop_user (by simp [hooks, MiddlewareManager.refuseCoroutine,
      transformInput])]
  rfl

theorem transformInput_raised {flavor : Flavor} {before after : List (Middleware σ)}
    (hbefore : ∀ x ∈ before, InputInert x) {ctx : Context} {memos : StepMemos} {s : State σ}
    {e : PyError}
    (h : reader.transformInput.call s.store (ctx, memos) = ((s.store, ctx, memos), some e))
    (r : Scope) :
    MiddlewareManager.transformInput flavor (before ++ .user reader.hooks :: after) ctx memos r s =
      ⟨.ok (.error e), s, []⟩ := by
  rw [transformInput_user hbefore, h]

theorem transformInput_alone {flavor : Flavor} {before after : List (Middleware σ)}
    (hbefore : ∀ x ∈ before, InputInert x) (hafter : ∀ x ∈ after, InputInert x)
    {ctx ctx' : Context} {memos memos' : StepMemos} {r : Scope} {s : State σ}
    (h : (MiddlewareManager.transformInput flavor (before ++ .user reader.hooks :: after) ctx memos
      r s).outcome = .ok (.ok (ctx', memos'))) :
    ∃ t, reader.transformInput.call s.store (ctx, memos) = ((t, ctx', memos'), none) := by
  rw [transformInput_user hbefore] at h
  cases herr : (reader.transformInput.call s.store (ctx, memos)).2 with
  | some e => simp [herr] at h
  | none =>
    simp only [herr, transformInput_after hafter, Outcome.ok.injEq, Except.ok.injEq] at h
    refine ⟨_, Prod.ext (Prod.ext rfl ?_) herr⟩
    exact h

/-! ## The round trip -/

section RoundTrip
variable (reader) (loads : String → Option Json) (raw : Dict Json) (id : String)

/-- Every request that is called with the memo gets the value from the step
call, and the memo does not keep a request from being called. -/
structure Reads (v : Json) : Prop where
  returns : ∀ (t t' : σ) ctx ctx' memos', reader.transformInput.call t
      (ctx, StepMemos.fromRaw loads raw) = ((t', ctx', memos'), none) →
    ∀ (env : Env σ) stepId handler (r : Scope) (s : State σ),
      (Step.parsedAt env stepId s).hashed = id → s.memos.lookup id = memos'.lookup id →
      r.inStep = false → (Step.run env stepId none handler r s).outcome = .ok v
  succeeds : ∀ (t : σ) (ctx : Context),
    (∀ id' memo, id' ≠ id → (StepMemos.fromRaw loads raw).lookup id' = some memo →
      ∃ memo', reader.decryptMemo memo = .ok memo') →
    (∀ e ∈ ctx.event :: ctx.events, ∃ e', reader.decryptEvent e = .ok e') →
    (reader.transformInput.call t (ctx, StepMemos.fromRaw loads raw)).2 = none

structure Refuses : Prop where
  raises : ∀ (t : σ) (ctx : Context), ∃ e, reader.transformInput.call t
    (ctx, StepMemos.fromRaw loads raw) = ((t, ctx, StepMemos.fromRaw loads raw), some e)
  notCalled : ∀ (env : Env σ) before after (ctx : Context) (s : State σ),
    env.middleware = before ++ .user reader.hooks :: after → (∀ x ∈ before, InputInert x) →
    s.memos = StepMemos.fromRaw loads raw →
    ∃ e, ∀ handler outputType r,
      Execution.run env ctx handler outputType r s = ⟨.ok (CallResult.ofError e), s, []⟩

variable {reader loads raw id}

theorem reads_of_decryptMemo {memo : Output} {v : Json}
    (hraw : (StepMemos.fromRaw loads raw).lookup id = some memo)
    (hmemo : reader.decryptMemo memo = .ok ⟨v, none⟩) : Reads reader loads raw id v where
  returns t t' ctx ctx' memos' h env stepId handler r s hid hs hr := by
    have hread : memos'.lookup id = some ⟨v, none⟩ := by
      rcases (reader.transformInput_ok h).memos id with ⟨-, hnone⟩ | ⟨m, m', hm, hm', hdecrypt⟩
      · rw [hraw] at hnone
        simp at hnone
      · obtain rfl := Option.some.inj (hraw.symm.trans hm)
        obtain rfl := Except.ok.inj (hmemo.symm.trans hdecrypt)
        exact hm'
    exact run_memoized (by rw [hid, hs, hread]) hr
  succeeds t ctx hothers hevents := by
    refine reader.transformInput_succeeds t (fun m hm => ?_) hevents
    obtain ⟨⟨id', m⟩, hentry, rfl⟩ := List.mem_map.mp hm
    have hlookup := AList.mem_lookup_iff.mpr hentry
    by_cases hid : id' = id
    · subst hid
      obtain rfl := Option.some.inj (hraw.symm.trans hlookup)
      exact ⟨_, hmemo⟩
    · exact hothers id' m hid hlookup

theorem refuses_of_decryptMemo {memo : Output} {e : PyError}
    (hraw : (StepMemos.fromRaw loads raw).lookup id = some memo)
    (hmemo : reader.decryptMemo memo = .error e) : Refuses reader loads raw where
  raises t ctx := reader.transformInput_fails t ctx hraw hmemo
  notCalled env before after ctx s hmiddleware hbefore hs := by
    obtain ⟨e, he⟩ := reader.transformInput_fails s.store ctx hraw hmemo
    refine ⟨e, fun handler outputType r => ?_⟩
    have hraised : MiddlewareManager.transformInput env.flavor
        (before ++ .user reader.hooks :: after) ctx (StepMemos.fromRaw loads raw) r s =
      ⟨.ok (.error e), s, []⟩ := transformInput_raised hbefore he r
    rw [← hmiddleware, ← hs] at hraised
    rw [Execution.run, Comp.get_bind, Comp.bind_ok (by rw [hraised]), hraised]
    rfl

/-- An output sealed under `k` is read with any keys among which `k` is, and
keeps every other reader from running the function. -/
theorem output_survives_rotation {k : κ} (hbox : writer.box = boxes.box k)
    (hwrites : writer.decryptOnly = false) (hreader : reader.Keyed boxes key fallbackKeys)
    {v : Json} (hv : marked v = false) {text : String} (hdumps : writer.dumps v = .ok text)
    (hloads : reader.loads text = some v) {result : TransformOutputResult}
    (houtput : result.output = some v) (hstep : ∀ info ∈ result.step, info.op = .stepRun) (s : σ) :
    ∃ s' output, writer.transformOutput.call s result =
        ((s', { result with output := some output }), none) ∧
      ∀ loads raw id, raw.lookup id = some (.obj [("data", output)]) →
        (k ∈ key :: fallbackKeys → Reads reader loads raw id v) ∧
          (k ∉ key :: fallbackKeys → Refuses reader loads raw) := by
  refine ⟨_, _, transformOutput_sealed hbox hwrites hv hdumps houtput
    (fun info hinfo => by simp [hstep info hinfo]) s, fun loads raw id hraw => ?_⟩
  have hmemo := StepMemos.lookup_fromRaw loads raw id
  rw [hraw] at hmemo
  exact ⟨fun hk => reads_of_decryptMemo hmemo (decryptMemo_sealed hreader hk hloads s loads),
    fun hk => refuses_of_decryptMemo hmemo (decryptMemo_foreign hreader hk text s loads)⟩

end RoundTrip

/-! ## Two keys

The boxes of the key `11…11` and of another one. What the first makes of `1`
with the nonce `00 01 … 17` is what libsodium makes of it. -/

def sealedOne : String := "AAECAwQFBgcICQoLDA0ODxAREhMUFRYX6vtCvPtzmihxcGQVu9zdlFs="

def keyChar (key : Bool) : Char := if key then '1' else '2'

def spelt (key : Bool) (text : String) : String := .ofList (keyChar key :: ':' :: text.toList)

def tableBox (key : Bool) : SecretBox Unit where
  encrypt _ text := ((), if key = true ∧ text = "1" then sealedOne else spelt key text)
  decrypt ciphertext :=
    if key = true ∧ ciphertext = sealedOne then some "1"
    else match ciphertext.toList with
      | first :: ':' :: rest => if first = keyChar key then some (.ofList rest) else none
      | _ => none

theorem encrypt_table (key : Bool) (u : Unit) (text : String) :
    ((tableBox key).encrypt u text).2 =
      if key = true ∧ text = "1" then sealedOne else spelt key text := rfl

theorem spelt_ne_sealedOne (key : Bool) (text : String) : spelt key text ≠ sealedOne := fun h => by
  have hsecond := congrArg (fun s => s.toList[1]?) h
  simp [spelt, sealedOne] at hsecond

theorem decrypt_spelt (key key' : Bool) (text : String) :
    (tableBox key').decrypt (spelt key text) = if key' = key then some text else none := by
  have hlist : (spelt key text).toList = keyChar key :: ':' :: text.toList := String.toList_ofList
  simp only [tableBox, spelt_ne_sealedOne, and_false, if_false, hlist, String.ofList_toList]
  cases key <;> cases key' <;> rfl

def tableBoxes : SecretBoxes Bool Unit where
  box := tableBox
  opens key _ text := by
    by_cases h : key = true ∧ text = "1"
    · obtain ⟨rfl, rfl⟩ := h
      rfl
    · rw [encrypt_table, if_neg h, decrypt_spelt, if_pos rfl]
  rejects key key' _ text hne := by
    by_cases h : key = true ∧ text = "1"
    · obtain ⟨rfl, rfl⟩ := h
      obtain rfl : key' = false := by simpa using hne
      rw [encrypt_table, if_pos ⟨rfl, rfl⟩]
      decide
    · rw [encrypt_table, if_neg h, decrypt_spelt, if_neg hne]

def rotated (key : Bool) (fallbackKeys : List Bool) : EncryptionMiddleware Unit where
  box := tableBox key
  fallbackDecryptionBoxes := fallbackKeys.map tableBox
  decryptOnly := false
  eventEncryptionField := "encrypted"
  dumps
    | .int n => .ok (toString n)
    | v => .error (exception "TypeError" (toString (repr v)))
  loads text := (Python.int text).map .int

theorem rotated_keyed (key : Bool) (fallbackKeys : List Bool) :
    (rotated key fallbackKeys).Keyed tableBoxes key fallbackKeys := ⟨rfl, rfl⟩

def one : TransformOutputResult := ⟨none, some (.int 1), some ⟨"id", .stepRun, none⟩⟩

theorem output_survives_rotation_fallback :
    ∃ s' output, (rotated true []).transformOutput.call () one =
        ((s', { one with output := some output }), none) ∧
      ∀ loads raw id, raw.lookup id = some (.obj [("data", output)]) →
        (true ∈ [false, true] → Reads (rotated false [true]) loads raw id (.int 1)) ∧
          (true ∉ [false, true] → Refuses (rotated false [true]) loads raw) := by
  have hdumps : (rotated true []).dumps (.int 1) = .ok "1" := by decide
  have hloads : (rotated false [true]).loads "1" = some (.int 1) := by decide
  exact output_survives_rotation rfl rfl (rotated_keyed false [true]) rfl hdumps hloads rfl
    (by simp [one]) ()

end Inngest.KeyRotation
