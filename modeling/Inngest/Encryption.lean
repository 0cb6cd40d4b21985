import Inngest.Response
import Inngest.StepResults

/-!
# The encryption middleware

`EncryptionMiddleware` decrypts what comes in and encrypts what goes out. The
output side works on one result at a time: the middleware manager does not
call it for a request that reports several steps at once. Sealing and its
inverse are a parameter; each call of the box may use fresh randomness, which
is part of the store.
-/

set_option autoImplicit false

namespace Inngest
open ServerLib Errors StepLib Effect Engine

structure SecretBox (σ : Type) where
  encrypt : σ → String → σ × String
  decrypt : String → Option String

structure EncryptionMiddleware (σ : Type) where
  box : SecretBox σ
  fallbackDecryptionBoxes : List (SecretBox σ)
  decryptOnly : Bool
  eventEncryptionField : String
  dumps : Json → Except PyError String
  loads : String → Option Json

namespace EncryptionMiddleware

def encryptionMarker : String := "__ENCRYPTED__"
def strategyMarker : String := "__STRATEGY__"
def strategyIdentifier : String := "inngest/libsodium"

/-- `isinstance(data, dict) and data.get(_encryption_marker) is True` -/
def marked : Json → Bool
  | .obj fields => Json.field fields encryptionMarker = some (.bool true)
  | _ => false

def isEncrypted (value : Json) : Bool :=
  marked value && match value with
    | .obj fields => Json.field fields strategyMarker = some (.str strategyIdentifier)
    | _ => false

variable {σ : Type} (m : EncryptionMiddleware σ)

/-! ## Input -/

def decrypt (data : Json) : Except PyError Json :=
  match data with
  | .obj fields =>
    if isEncrypted data then
      match Json.field fields "data" with
      | some (.str encrypted) =>
        match (m.box :: m.fallbackDecryptionBoxes).findSome?
            (fun box => (box.decrypt encrypted).bind m.loads) with
        | some v => .ok v
        | none => .error (exception "Exception" "Failed to decrypt data")
      | _ => .ok data
    else .ok data
  | _ => .ok data

def merge (fields others : List (String × Json)) : List (String × Json) :=
  others.foldl (fun fs f => Json.withField fs f.1 f.2) fields

def sortedFields (data : List (String × Json)) : List (String × Json) :=
  data.filter (fun f => f.1 = m.eventEncryptionField) ++
    data.filter (fun f => f.1 ≠ m.eventEncryptionField)

def decryptEventData (data : List (String × Json)) : Except PyError (List (String × Json)) :=
  if isEncrypted (.obj data) then do
    match ← m.decrypt (.obj data) with
    | .obj decrypted =>
      .ok (merge (data.filter fun f =>
        f.1 ≠ encryptionMarker ∧ f.1 ≠ strategyMarker ∧ f.1 ≠ "data") decrypted)
    | _ => .error (exception "Exception" "decrypted data is not a dict")
  else
    match (m.sortedFields data).find? (fun f => isEncrypted f.2) with
    | some (k, encrypted) => (m.decrypt encrypted).map (Json.withField data k)
    | none => .ok data

def decryptEvent (event : Event) : Except PyError Event :=
  (m.decryptEventData event.data).map fun data => { event with data := data }

def decryptMemo (memo : Output) : Except PyError Output :=
  (m.decrypt memo.data).map fun data => { memo with data := data }

def decryptMemos (memos : StepMemos) : Except PyError StepMemos := do
  let _ ← memos.values.mapM m.decryptMemo
  .ok (memos.mapValues fun memo => (m.decryptMemo memo).toOption.getD memo)

def transformInput : Hook σ (Context × StepMemos) where
  isCoroutine := false
  call s x :=
    let result : Except PyError (Context × StepMemos) := do
      let steps ← m.decryptMemos x.2
      let event ← m.decryptEvent x.1.event
      let events ← x.1.events.mapM m.decryptEvent
      .ok ({ x.1 with event := event, events := events }, steps)
    match result with
    | .ok x => ((s, x), none)
    | .error e => ((s, x), some e)

/-! ## Output -/

def envelope (ciphertext : String) : Json :=
  .obj [(encryptionMarker, .bool true), (strategyMarker, .str strategyIdentifier),
    ("data", .str ciphertext)]

def encrypt (s : σ) (data : Json) : σ × Except PyError Json :=
  if marked data then (s, .ok data)
  else match m.dumps data with
    | .error e => (s, .error e)
    | .ok byt =>
      let (s, ciphertext) := m.box.encrypt s byt
      (s, .ok (envelope ciphertext))

def payloadData (opts : List (String × Json)) :
    Option (List (String × Json) × List (String × Json)) :=
  match Json.field opts "payload" with
  | some (.obj payload) =>
    match Json.field payload "data" with
    | some (.obj data) => some (payload, data)
    | _ => none
  | _ => none

def invokeField (opts : List (String × Json)) : Option Json :=
  (payloadData opts).bind fun x => Json.field x.2 m.eventEncryptionField

def setInvokeField (opts : List (String × Json)) (value : Json) : List (String × Json) :=
  match payloadData opts with
  | some (payload, data) =>
    Json.withField opts "payload" (.obj (Json.withField payload "data"
      (.obj (Json.withField data m.eventEncryptionField value))))
  | none => opts

def encryptOutput (s : σ) (result : TransformOutputResult) :
    σ × Except PyError TransformOutputResult :=
  match result.output with
  | none => (s, .ok result)
  | some output =>
    let (s, x) := m.encrypt s output
    (s, x.map fun v => { result with output := some v })

/-- The options of an `invoke` step, when they hold something to encrypt. -/
def invokeTarget (step : Option TransformOutputStepInfo) :
    Option (TransformOutputStepInfo × List (String × Json) × Json) := do
  let info ← step
  let opts ← if info.op = .invoke then info.opts else none
  let value ← m.invokeField opts
  some (info, opts, value)

def encryptInvoke (s : σ) (result : TransformOutputResult) :
    σ × Except PyError TransformOutputResult :=
  match m.invokeTarget result.step with
  | none => (s, .ok result)
  | some (info, opts, value) =>
    let (s, x) := m.encrypt s value
    (s, x.map fun v =>
      { result with step := some { info with opts := some (m.setInvokeField opts v) } })

def transformOutput : Hook σ TransformOutputResult where
  isCoroutine := false
  call s result :=
    if m.decryptOnly then ((s, result), none)
    else match m.encryptOutput s result with
      | (s, .error e) => ((s, result), some e)
      | (s, .ok result) =>
        match m.encryptInvoke s result with
        | (s, .error e) => ((s, result), some e)
        | (s, .ok result) => ((s, result), none)

/-! ## Events that are sent -/

def encryptEvent (s : σ) (event : Event) : σ × Except PyError Event :=
  match Json.field event.data m.eventEncryptionField with
  | none | some .null => (s, .ok event)
  | some decrypted =>
    let (s, x) := m.encrypt s decrypted
    (s, x.map fun v => { event with data := Json.withField event.data m.eventEncryptionField v })

def encryptEvents : σ → List Event → (σ × List Event) × Option PyError
  | s, [] => ((s, []), none)
  | s, event :: events =>
    match m.encryptEvent s event with
    | (s, .error e) => ((s, event :: events), some e)
    | (s, .ok event) =>
      let ((s, events), err) := encryptEvents s events
      ((s, event :: events), err)

def beforeSendEvents : Hook σ (List Event) where
  isCoroutine := false
  call s events := if m.decryptOnly then ((s, events), none) else m.encryptEvents s events

/-- The middleware as the manager sees it: a `MiddlewareSync`. -/
def hooks : Hooks σ where
  transformInput := m.transformInput
  transformOutput := m.transformOutput
  beforeSendEvents := m.beforeSendEvents.inPlace

/-! ## What the output side does -/

def Envelope (v : Json) : Prop := ∃ s byt, v = envelope (m.box.encrypt s byt).2

theorem encrypt_marked {s : σ} {data : Json} (h : marked data = true) :
    m.encrypt s data = (s, .ok data) := by
  simp [encrypt, h]

theorem encrypt_ok {s s' : σ} {data v : Json} (h : m.encrypt s data = (s', .ok v)) :
    marked data = true ∧ v = data ∨ marked data = false ∧ m.Envelope v := by
  cases hm : marked data with
  | true =>
    rw [encrypt_marked m hm] at h
    simp only [Prod.mk.injEq, Except.ok.injEq] at h
    exact .inl ⟨rfl, h.2.symm⟩
  | false =>
    refine .inr ⟨rfl, ?_⟩
    simp only [encrypt, hm] at h
    cases hd : m.dumps data with
    | error e => simp [hd] at h
    | ok byt =>
      simp only [hd, Bool.false_eq_true, if_false, Prod.mk.injEq, Except.ok.injEq] at h
      exact ⟨s, byt, h.2.symm⟩

theorem payloadData_some {opts payload data : List (String × Json)} :
    payloadData opts = some (payload, data) ↔
      Json.field opts "payload" = some (.obj payload) ∧
        Json.field payload "data" = some (.obj data) := by
  constructor
  · intro h
    simp only [payloadData] at h
    split at h
    · rename_i payload' hp
      split at h
      · rename_i hd
        obtain ⟨rfl, rfl⟩ := Prod.mk.inj (Option.some.inj h)
        exact ⟨hp, hd⟩
      · simp at h
    · simp at h
  · rintro ⟨hp, hd⟩
    simp [payloadData, hp, hd]

theorem invokeField_set {opts : List (String × Json)} {value : Json}
    (h : (m.invokeField opts).isSome = true) :
    m.invokeField (m.setInvokeField opts value) = some value := by
  cases hp : payloadData opts with
  | none => simp [invokeField, hp] at h
  | some x =>
    obtain ⟨payload, data⟩ := x
    have hset : payloadData (m.setInvokeField opts value) =
        some (Json.withField payload "data"
          (.obj (Json.withField data m.eventEncryptionField value)),
          Json.withField data m.eventEncryptionField value) := by
      rw [payloadData_some]
      simp [setInvokeField, hp, Json.field_withField]
    simp [invokeField, hset, Json.field_withField]

/-! ## What the input side does -/

structure Received (ctx ctx' : Context) (memos memos' : StepMemos) : Prop where
  memos : ∀ id, memos'.lookup id = none ∧ memos.lookup id = none ∨
    ∃ memo memo', memos.lookup id = some memo ∧ memos'.lookup id = some memo' ∧
      m.decryptMemo memo = .ok memo'
  event : m.decryptEvent ctx.event = .ok ctx'.event
  events : List.Forall₂ (fun e e' => m.decryptEvent e = .ok e') ctx.events ctx'.events

theorem lookup_mem_values {memos : StepMemos} {id : String} {memo : Output}
    (h : memos.lookup id = some memo) : memo ∈ memos.values :=
  List.mem_map.mpr ⟨⟨id, memo⟩, AList.mem_lookup_iff.mp h, rfl⟩

theorem decryptMemos_ok {memos memos' : StepMemos} (h : m.decryptMemos memos = .ok memos') :
    (∀ memo ∈ memos.values, ∃ memo', m.decryptMemo memo = .ok memo') ∧
      memos' = memos.mapValues fun memo => (m.decryptMemo memo).toOption.getD memo := by
  rw [decryptMemos] at h
  cases hvalues : memos.values.mapM m.decryptMemo with
  | error e => simp [hvalues, bind, Except.bind] at h
  | ok values =>
    simp only [hvalues, bind, Except.bind, Except.ok.injEq] at h
    refine ⟨fun memo hmemo => ?_, h.symm⟩
    obtain ⟨i, hi, rfl⟩ := List.mem_iff_getElem.mp hmemo
    have hall := forall₂_of_mapM hvalues
    exact ⟨_, hall.get hi (hall.length_eq ▸ hi)⟩

theorem transformInput_call (s : σ) (ctx : Context) (memos : StepMemos) :
    (∃ e, m.transformInput.call s (ctx, memos) = ((s, ctx, memos), some e)) ∨
    ∃ memos' event events, m.decryptMemos memos = .ok memos' ∧
      m.decryptEvent ctx.event = .ok event ∧ ctx.events.mapM m.decryptEvent = .ok events ∧
      m.transformInput.call s (ctx, memos) =
        ((s, { ctx with event := event, events := events }, memos'), none) := by
  cases hmemos : m.decryptMemos memos with
  | error e => exact .inl ⟨e, by simp [transformInput, hmemos, bind, Except.bind]⟩
  | ok memos' =>
    cases hevent : m.decryptEvent ctx.event with
    | error e => exact .inl ⟨e, by simp [transformInput, hmemos, hevent, bind, Except.bind]⟩
    | ok event =>
      cases hevents : ctx.events.mapM m.decryptEvent with
      | error e =>
        exact .inl ⟨e, by simp [transformInput, hmemos, hevent, hevents, bind, Except.bind]⟩
      | ok events =>
        exact .inr ⟨memos', event, events, rfl, rfl, rfl,
          by simp [transformInput, hmemos, hevent, hevents, bind, Except.bind]⟩

theorem transformInput_ok {s s' : σ} {ctx ctx' : Context} {memos memos' : StepMemos}
    (h : m.transformInput.call s (ctx, memos) = ((s', ctx', memos'), none)) :
    m.Received ctx ctx' memos memos' := by
  rcases m.transformInput_call s ctx memos with ⟨e, he⟩ |
      ⟨decrypted, event, events, hmemos, hevent, hevents, hcall⟩
  · rw [he] at h
    simp at h
  · rw [hcall] at h
    simp only [Prod.mk.injEq, and_true] at h
    obtain ⟨-, rfl, rfl⟩ := h
    obtain ⟨hall, rfl⟩ := m.decryptMemos_ok hmemos
    refine ⟨fun id => ?_, hevent, forall₂_of_mapM hevents⟩
    cases hid : memos.lookup id with
    | none => exact .inl ⟨by simp [hid], rfl⟩
    | some memo =>
      obtain ⟨memo', hmemo'⟩ := hall memo (lookup_mem_values hid)
      exact .inr ⟨memo, memo', rfl, by simp [hid, hmemo', Except.toOption], hmemo'⟩

theorem transformInput_succeeds (s : σ) {ctx : Context} {memos : StepMemos}
    (hmemos : ∀ memo ∈ memos.values, ∃ memo', m.decryptMemo memo = .ok memo')
    (hevents : ∀ e ∈ ctx.event :: ctx.events, ∃ e', m.decryptEvent e = .ok e') :
    (m.transformInput.call s (ctx, memos)).2 = none := by
  obtain ⟨values, hvalues⟩ := exists_mapM_iff.mpr hmemos
  obtain ⟨event, hevent⟩ := hevents ctx.event (by simp)
  obtain ⟨events, hall⟩ := exists_mapM_iff.mpr fun e he => hevents e (List.mem_cons_of_mem _ he)
  simp [transformInput, decryptMemos, hvalues, hevent, hall, bind, Except.bind]

theorem transformInput_fails (s : σ) (ctx : Context) {memos : StepMemos} {id : String}
    {memo : Output} {e : PyError} (hmemo : memos.lookup id = some memo)
    (h : m.decryptMemo memo = .error e) :
    ∃ e, m.transformInput.call s (ctx, memos) = ((s, ctx, memos), some e) := by
  refine (m.transformInput_call s ctx memos).resolve_right ?_
  rintro ⟨memos', -, -, hmemos, -⟩
  obtain ⟨memo', hmemo'⟩ := (m.decryptMemos_ok hmemos).1 memo (lookup_mem_values hmemo)
  rw [h] at hmemo'
  simp at hmemo'

/-! ## Keys -/

/-- Boxes by their keys: a box opens what it sealed and nothing that was sealed
under another key. -/
structure SecretBoxes (κ σ : Type) where
  box : κ → SecretBox σ
  opens : ∀ key s text, (box key).decrypt ((box key).encrypt s text).2 = some text
  rejects : ∀ key key' s text, key' ≠ key →
    (box key').decrypt ((box key).encrypt s text).2 = none

section Keys
variable {κ : Type} {boxes : SecretBoxes κ σ} {key : κ} {fallbackKeys : List κ}

structure Keyed (boxes : SecretBoxes κ σ) (key : κ) (fallbackKeys : List κ) : Prop where
  box : m.box = boxes.box key
  fallbacks : m.fallbackDecryptionBoxes = fallbackKeys.map boxes.box

variable {m}

theorem isEncrypted_envelope (ciphertext : String) : isEncrypted (envelope ciphertext) = true := rfl

theorem decrypt_envelope (h : m.Keyed boxes key fallbackKeys) (ciphertext : String) :
    m.decrypt (envelope ciphertext) =
      match (key :: fallbackKeys).findSome? fun k =>
          ((boxes.box k).decrypt ciphertext).bind m.loads with
      | some v => .ok v
      | none => .error (exception "Exception" "Failed to decrypt data") := by
  have hboxes : m.box :: m.fallbackDecryptionBoxes = (key :: fallbackKeys).map boxes.box := by
    rw [h.box, h.fallbacks, List.map_cons]
  have hdata : Json.field [(encryptionMarker, Json.bool true),
      (strategyMarker, .str strategyIdentifier), ("data", .str ciphertext)] "data" =
    some (.str ciphertext) := rfl
  rw [envelope, decrypt, ← envelope, isEncrypted_envelope, if_pos rfl, hdata]
  simp only [hboxes, List.findSome?_map]
  rfl

theorem decrypt_sealed (h : m.Keyed boxes key fallbackKeys) {k : κ} (hk : k ∈ key :: fallbackKeys)
    {text : String} {v : Json} (hloads : m.loads text = some v) (s : σ) :
    m.decrypt (envelope ((boxes.box k).encrypt s text).2) = .ok v := by
  have hfind : ∀ ks : List κ, k ∈ ks → ks.findSome? (fun k' =>
      ((boxes.box k').decrypt ((boxes.box k).encrypt s text).2).bind m.loads) = some v := by
    intro ks hks
    induction ks with
    | nil => simp at hks
    | cons k' ks ih =>
      by_cases hkey : k' = k
      · subst hkey
        simp [boxes.opens, hloads]
      · have hrest := ih ((List.mem_cons.mp hks).resolve_left (Ne.symm hkey))
        simp [boxes.rejects k k' s text hkey, hrest]
  rw [decrypt_envelope h, hfind _ hk]

theorem decrypt_foreign (h : m.Keyed boxes key fallbackKeys) {k : κ}
    (hk : k ∉ key :: fallbackKeys) (s : σ) (text : String) :
    m.decrypt (envelope ((boxes.box k).encrypt s text).2) =
      .error (exception "Exception" "Failed to decrypt data") := by
  have hfind : (key :: fallbackKeys).findSome? (fun k' =>
      ((boxes.box k').decrypt ((boxes.box k).encrypt s text).2).bind m.loads) = none := by
    rw [List.findSome?_eq_none_iff]
    intro k' hk'
    have hne : k' ≠ k := fun h => hk (h ▸ hk')
    simp [boxes.rejects k k' s text hne]
  rw [decrypt_envelope h, hfind]

end Keys

end EncryptionMiddleware

end Inngest
