import Inngest.KeyRotation

/-!
# Sealed events

A client seals one field of the events that it sends. The function that gets
such an event as its trigger, or in its batch, finds the field opened: the
reader looks for it. An event that fulfils a `wait_for_event` comes as a memo,
and of a memo the reader only opens what is an envelope as a whole.
-/

set_option autoImplicit false

namespace Inngest.EventEncryption
open ServerLib Errors StepLib Effect Engine EncryptionMiddleware

variable {σ κ : Type} {boxes : SecretBoxes κ σ} {writer reader : EncryptionMiddleware σ}
  {key : κ} {fallbackKeys : List κ}

/-! ## Equal data -/

/-- Equal dictionaries: the order of the fields does not count. -/
def SameData (data data' : List (String × Json)) : Prop :=
  ∀ name, Json.field data name = Json.field data' name

theorem SameData.trans {data data' data'' : List (String × Json)} (h : SameData data data')
    (h' : SameData data' data'') : SameData data data'' := fun name => (h name).trans (h' name)

theorem sameData_withField {data : List (String × Json)} {name : String} {v : Json}
    (h : Json.field data name = some v) : SameData (Json.withField data name v) data := by
  intro other
  rw [Json.field_withField]
  split
  · rename_i heq
    rw [heq, h]
  · rfl

theorem sameData_restored {data : List (String × Json)} {name : String} {v : Json}
    (h : Json.field data name = some v) (w : Json) :
    SameData (Json.withField (Json.withField data name w) name v) data := by
  intro other
  rw [Json.field_withField, Json.field_withField]
  split
  · rename_i heq
    rw [heq, h]
  · rfl

theorem mem_of_field {data : List (String × Json)} {name : String} {v : Json}
    (h : Json.field data name = some v) : (name, v) ∈ data := by
  induction data with
  | nil => simp [Json.field] at h
  | cons f data ih =>
    obtain ⟨k, w⟩ := f
    rw [Json.field] at h
    split at h
    · rename_i hk
      obtain rfl := Option.some.inj h
      simp [hk]
    · exact List.mem_cons_of_mem _ (ih h)

theorem mem_withField {data : List (String × Json)} {name : String} {v : Json} {f : String × Json}
    (h : f ∈ Json.withField data name v) : f ∈ data ∨ f = (name, v) := by
  rw [Json.withField] at h
  split at h
  · obtain ⟨⟨k, w⟩, hmem, rfl⟩ := List.mem_map.mp h
    by_cases hk : k = name
    · simp [hk]
    · simp [hk, hmem]
  · simpa using h

theorem isEncrypted_congr {data data' : List (String × Json)} (h : SameData data data') :
    isEncrypted (.obj data) = isEncrypted (.obj data') := by
  simp [isEncrypted, marked, h encryptionMarker, h strategyMarker]

/-- Neither the data nor a field of it is an envelope. -/
structure Unencrypted (data : List (String × Json)) : Prop where
  whole : isEncrypted (.obj data) = false
  fields : ∀ f ∈ data, isEncrypted f.2 = false

theorem whole_withField {data : List (String × Json)} (h : isEncrypted (.obj data) = false)
    (name ciphertext : String) :
    isEncrypted (.obj (Json.withField data name (envelope ciphertext))) = false := by
  by_cases hmarker : encryptionMarker = name
  · simp [isEncrypted, marked, Json.field_withField, hmarker, envelope]
  · by_cases hstrategy : strategyMarker = name
    · simp [isEncrypted, marked, Json.field_withField, hstrategy, envelope]
    · simpa [isEncrypted, marked, Json.field_withField, hmarker, hstrategy] using h

/-! ## Sending -/

/-- The client puts an envelope in the place of `v`. -/
def Sealed (m : EncryptionMiddleware σ) (v : Json) : Prop :=
  m.decryptOnly = false ∧ v ≠ .null ∧ marked v = false

inductive Sent (m : EncryptionMiddleware σ) (v : Json) (event sent : Event) : Prop
  | same (h : ¬ Sealed m v) (hdata : SameData sent.data event.data)
      (hfields : ∀ f ∈ sent.data, f ∈ event.data ∨ f = (m.eventEncryptionField, v))
  | sealed (h : Sealed m v) (s : σ) (text : String) (hdumps : m.dumps v = .ok text)
      (hdata : sent.data = Json.withField event.data m.eventEncryptionField
        (envelope (m.box.encrypt s text).2))

theorem sent_self {m : EncryptionMiddleware σ} {v : Json} (h : ¬ Sealed m v) (event : Event) :
    Sent m v event event :=
  .same h (fun _ => rfl) fun _ hf => .inl hf

theorem sent_of_encryptEvent {m : EncryptionMiddleware σ} {v : Json} {event sent : Event}
    {s s' : σ} (hv : Json.field event.data m.eventEncryptionField = some v)
    (hwrites : m.decryptOnly = false) (h : m.encryptEvent s event = (s', .ok sent)) :
    Sent m v event sent := by
  by_cases hnull : v = .null
  · subst hnull
    simp only [encryptEvent, hv, Prod.mk.injEq, Except.ok.injEq] at h
    rw [← h.2]
    exact sent_self (fun hsealed => hsealed.2.1 rfl) event
  · have hencrypt : m.encryptEvent s event = ((m.encrypt s v).1, (m.encrypt s v).2.map fun v =>
        { event with data := Json.withField event.data m.eventEncryptionField v }) := by
      cases v <;> first | exact absurd rfl hnull | simp only [encryptEvent, hv]
    rw [hencrypt] at h
    cases hm : marked v with
    | true =>
      rw [encrypt_marked m hm] at h
      simp only [Except.map, Prod.mk.injEq, Except.ok.injEq] at h
      rw [← h.2]
      exact .same (fun hsealed => by simp [hsealed.2.2] at hm) (sameData_withField hv)
        fun f hf => mem_withField hf
    | false =>
      simp only [encrypt, hm, Bool.false_eq_true, if_false] at h
      cases hdumps : m.dumps v with
      | error e => simp [hdumps, Except.map] at h
      | ok text =>
        simp only [hdumps, Except.map, Prod.mk.injEq, Except.ok.injEq] at h
        exact .sealed ⟨hwrites, hnull, hm⟩ s text hdumps (by rw [← h.2])

theorem encryptEvents_ok {m : EncryptionMiddleware σ} {events sents : List Event} {s s' : σ}
    (h : m.encryptEvents s events = ((s', sents), none)) :
    List.Forall₂ (fun event sent => ∃ t t', m.encryptEvent t event = (t', .ok sent))
      events sents := by
  induction events generalizing s sents with
  | nil =>
    simp only [encryptEvents, Prod.mk.injEq, and_true] at h
    rw [← h.2]
    exact .nil
  | cons event events ih =>
    rw [encryptEvents] at h
    cases hevent : m.encryptEvent s event with
    | mk t x =>
      cases x with
      | error e => simp [hevent] at h
      | ok sent =>
        simp only [hevent, Prod.mk.injEq] at h
        obtain ⟨⟨hs, rfl⟩, hnone⟩ := h
        exact .cons ⟨s, t, hevent⟩ (ih (Prod.ext (Prod.ext hs rfl) hnone))

theorem sent_of_beforeSendEvents {m : EncryptionMiddleware σ} {v : Json}
    {events sents : List Event} {event sent : Event} {s s' : σ} {i : ℕ}
    (h : m.beforeSendEvents.call s events = ((s', sents), none)) (hevent : events[i]? = some event)
    (hsent : sents[i]? = some sent)
    (hv : Json.field event.data m.eventEncryptionField = some v) : Sent m v event sent := by
  cases hwrites : m.decryptOnly with
  | true =>
    simp only [beforeSendEvents, hwrites, if_true, Prod.mk.injEq, and_true] at h
    rw [← h.2, hevent] at hsent
    obtain rfl := Option.some.inj hsent
    exact sent_self (fun hsealed => by simp [hsealed.1] at hwrites) event
  | false =>
    simp only [beforeSendEvents, hwrites, Bool.false_eq_true, if_false] at h
    have hall := encryptEvents_ok h
    obtain ⟨hi, rfl⟩ := List.getElem?_eq_some_iff.mp hevent
    obtain ⟨hi', rfl⟩ := List.getElem?_eq_some_iff.mp hsent
    obtain ⟨t, t', ht⟩ := hall.get hi hi'
    exact sent_of_encryptEvent hv hwrites ht

/-! ## Reading -/

theorem find?_envelope {m : EncryptionMiddleware σ} {data : List (String × Json)} {name : String}
    {w : Json} (hplain : ∀ f ∈ data, isEncrypted f.2 = false) (hw : isEncrypted w = true) :
    (m.sortedFields (Json.withField data name w)).find? (fun f => isEncrypted f.2) =
      some (name, w) := by
  have hmem : ∀ f, f ∈ m.sortedFields (Json.withField data name w) ↔
      f ∈ Json.withField data name w := by
    intro f
    by_cases hf : f.1 = m.eventEncryptionField <;> simp [sortedFields, hf]
  have hthere : (name, w) ∈ Json.withField data name w :=
    mem_of_field (by simp [Json.field_withField])
  cases hfind : (m.sortedFields (Json.withField data name w)).find? fun f => isEncrypted f.2 with
  | none =>
    have hnone := List.find?_eq_none.mp hfind (name, w) ((hmem _).mpr hthere)
    simp [hw] at hnone
  | some f =>
    have hf := List.find?_some hfind
    rcases mem_withField ((hmem f).mp (List.mem_of_find?_eq_some hfind)) with hdata | rfl
    · simp [hplain f hdata] at hf
    · rfl

theorem decryptEventData_plain {m : EncryptionMiddleware σ} {data : List (String × Json)}
    (h : Unencrypted data) : m.decryptEventData data = .ok data := by
  have hfind : (m.sortedFields data).find? (fun f => isEncrypted f.2) = none := by
    rw [List.find?_eq_none]
    intro f hf
    have hmem : f ∈ data := by
      simp only [sortedFields, List.mem_append, List.mem_filter] at hf
      exact hf.elim And.left And.left
    simp [h.fields f hmem]
  simp [decryptEventData, h.whole, hfind]

/-- As the trigger and in a batch the event is opened, whatever field the
reader expects to be sealed. -/
theorem decryptEvent_sent {k : κ} (hbox : writer.box = boxes.box k)
    (hreader : reader.Keyed boxes key fallbackKeys) (hk : k ∈ key :: fallbackKeys)
    {event sent : Event} {v : Json}
    (hv : Json.field event.data writer.eventEncryptionField = some v)
    (hplain : Unencrypted event.data)
    (hloads : ∀ text, writer.dumps v = .ok text → reader.loads text = some v)
    (hsent : Sent writer v event sent) :
    ∃ e, reader.decryptEvent sent = .ok e ∧ SameData e.data event.data := by
  cases hsent with
  | same h hdata hfields =>
    have hunencrypted : Unencrypted sent.data := by
      refine ⟨(isEncrypted_congr hdata).trans hplain.whole, fun f hf => ?_⟩
      rcases hfields f hf with hf | rfl
      · exact hplain.fields f hf
      · exact hplain.fields _ (mem_of_field hv)
    exact ⟨_, by rw [decryptEvent, decryptEventData_plain hunencrypted]; rfl, hdata⟩
  | sealed h s text hdumps hdata =>
    have hopened := decrypt_sealed hreader hk (hloads text hdumps) s
    rw [← hbox] at hopened
    have hread : reader.decryptEventData sent.data =
        .ok (Json.withField sent.data writer.eventEncryptionField v) := by
      rw [hdata, decryptEventData, whole_withField hplain.whole,
        find?_envelope hplain.fields (isEncrypted_envelope _)]
      simp [hopened, Except.map]
    refine ⟨_, by rw [decryptEvent, hread]; rfl, ?_⟩
    rw [hdata]
    exact sameData_restored hv _

/-! ## Waiting -/

def wire (event : Event) : Json :=
  .obj [("data", .obj event.data), ("id", .str event.id), ("name", .str event.name),
    ("ts", .int event.ts)]

theorem memo_wire (loads : String → Option Json) (event : Event) :
    StepMemos.memo loads (wire event) = ⟨wire event, none⟩ := by
  simp [StepMemos.memo, Output.fromRaw, Output.validate, wire]

theorem decryptMemo_wire (event : Event) :
    reader.decryptMemo ⟨wire event, none⟩ = .ok ⟨wire event, none⟩ := by
  have hplain : isEncrypted (wire event) = false := by
    simp [isEncrypted, marked, wire, Json.field, encryptionMarker]
  rw [wire] at hplain
  simp [decryptMemo, decrypt, wire, hplain, Except.map]

/-! ## What the code of the function finds -/

section Delivery
variable (reader) (validate : Json → Except PyError Json) (env : Env σ) (event sent : Event)
  (ctx ctx' : Context) (raw : Dict Json) (memos' : StepMemos)

/-- The request brings the context and the memos, and the function is called
with those that have a prime. -/
structure Delivered : Prop where
  readable : ∃ e, reader.decryptEvent sent = .ok e
  trigger : ctx.event = sent → SameData ctx'.event.data event.data
  batch : ∀ i : ℕ, ctx.events[i]? = some sent →
    ∃ e, ctx'.events[i]? = some e ∧ SameData e.data event.data
  waited : ∀ stepId name ifExp timeout t (r : Scope) (s : State σ),
    Transforms.toDurationStr timeout = .ok t →
    raw.lookup (Step.parsedAt env stepId s).hashed = some (wire sent) →
    s.memos.lookup (Step.parsedAt env stepId s).hashed =
      memos'.lookup (Step.parsedAt env stepId s).hashed → r.inStep = false →
    ∃ e, (Step.call env (Step.waitForEvent validate stepId name ifExp timeout) r s).outcome =
      .ok (wire e) ∧ SameData e.data event.data

/-- A step ID that the function may use has the event as its memo. -/
def Waits : Prop :=
  ∃ stepId, ∃ s : State σ, raw.lookup (Step.parsedAt env stepId s).hashed = some (wire sent)

end Delivery

theorem waitForEvent_sent {validate : Json → Except PyError Json} {env : Env σ} {sent : Event}
    (hvalidate : validate (wire sent) = .ok (wire sent)) {loads : String → Option Json}
    {ctx ctx' : Context} {raw : Dict Json} {memos' : StepMemos}
    (hreceived : reader.Received ctx ctx' (StepMemos.fromRaw loads raw) memos')
    {stepId name : String} {ifExp : Option String} {timeout : ℤ} {t : String}
    (ht : Transforms.toDurationStr timeout = .ok t) {r : Scope} {s : State σ}
    (hraw : raw.lookup (Step.parsedAt env stepId s).hashed = some (wire sent))
    (hs : s.memos.lookup (Step.parsedAt env stepId s).hashed =
      memos'.lookup (Step.parsedAt env stepId s).hashed) (hr : r.inStep = false) :
    (Step.call env (Step.waitForEvent validate stepId name ifExp timeout) r s).outcome =
      .ok (wire sent) := by
  have hmemo := StepMemos.lookup_fromRaw loads raw (Step.parsedAt env stepId s).hashed
  rw [hraw, Option.map_some, memo_wire] at hmemo
  have hread : memos'.lookup (Step.parsedAt env stepId s).hashed = some ⟨wire sent, none⟩ := by
    rcases hreceived.memos (Step.parsedAt env stepId s).hashed with ⟨-, hnone⟩ |
        ⟨memo, memo', hm, hm', hdecrypt⟩
    · rw [hmemo] at hnone
      simp at hnone
    · obtain rfl := Option.some.inj (hmemo.symm.trans hm)
      rw [decryptMemo_wire] at hdecrypt
      rw [hm', ← Except.ok.inj hdecrypt]
  have hopts : (Step.waitForEvent validate stepId name ifExp timeout).opts =
      .ok (some [("if", ifExp.elim .null .str), ("timeout", .str t)]) := by
    simp [Step.waitForEvent, ht, Except.map]
  rw [Step.call_memoized env hopts (hs.trans hread) hr]
  have hdecode : (Step.waitForEvent validate stepId name ifExp timeout).decode (wire sent) =
      validate (wire sent) := rfl
  simp [Step.remembered, hdecode, hvalidate, Outcome.ofExcept]

theorem wire_injective {e e' : Event} (h : wire e = wire e') : e.data = e'.data := by
  simp only [wire, Json.obj.injEq, List.cons.injEq, Prod.mk.injEq] at h
  exact h.1.2

theorem sameData_sent {event sent : Event} {v : Json}
    (hv : Json.field event.data writer.eventEncryptionField = some v)
    (hplain : Unencrypted event.data) (hsent : Sent writer v event sent) :
    SameData sent.data event.data ↔ ¬ Sealed writer v := by
  cases hsent with
  | same h hdata hfields => exact iff_of_true hdata h
  | sealed h s text hdumps hdata =>
    refine iff_of_false (fun hsame => ?_) (fun hn => hn h)
    have hfield := hsame writer.eventEncryptionField
    rw [hdata, Json.field_withField, if_pos rfl, hv] at hfield
    have hv' := hplain.fields _ (mem_of_field hv)
    rw [← Option.some.inj hfield, isEncrypted_envelope] at hv'
    simp at hv'

/-- In every request of a function whose reader has the key, the event is found
as it was given, except by a step that waited for it when it was sealed. -/
theorem delivered_iff {k : κ} (hbox : writer.box = boxes.box k)
    (hreader : reader.Keyed boxes key fallbackKeys) (hk : k ∈ key :: fallbackKeys)
    {validate : Json → Except PyError Json} (hvalidate : ∀ e, validate (wire e) = .ok (wire e))
    {event sent : Event} {v : Json}
    (hv : Json.field event.data writer.eventEncryptionField = some v)
    (hplain : Unencrypted event.data)
    (hloads : ∀ text, writer.dumps v = .ok text → reader.loads text = some v)
    {u u' : σ} {events sents : List Event} {i : ℕ}
    (hsend : writer.beforeSendEvents.call u events = ((u', sents), none))
    (hevent : events[i]? = some event) (hsent : sents[i]? = some sent)
    {env : Env σ} {before after : List (Middleware σ)}
    (hmiddleware : env.middleware = before ++ .user reader.hooks :: after)
    (hbefore : ∀ x ∈ before, KeyRotation.InputInert x)
    (hafter : ∀ x ∈ after, KeyRotation.InputInert x)
    {loads : String → Option Json} {raw : Dict Json} {ctx ctx' : Context} {memos' : StepMemos}
    {r : Scope} {s : State σ}
    (hrun : (MiddlewareManager.transformInput env.flavor env.middleware ctx
      (StepMemos.fromRaw loads raw) r s).outcome = .ok (.ok (ctx', memos'))) :
    Delivered reader validate env event sent ctx ctx' raw memos' ↔
      ¬ (Sealed writer v ∧ Waits env sent raw) := by
  have hmade := sent_of_beforeSendEvents hsend hevent hsent hv
  obtain ⟨t, hcall⟩ := KeyRotation.transformInput_alone hbefore hafter (hmiddleware ▸ hrun)
  have hreceived := reader.transformInput_ok hcall
  constructor
  · rintro hdelivered ⟨hsealed, stepId, s', hraw⟩
    have htime : Transforms.toDurationStr 1000 = .ok "1s" := by decide
    have hreturns : (Step.call env (Step.waitForEvent validate stepId "" none 1000) .top
        { s' with memos := memos' }).outcome = .ok (wire sent) :=
      waitForEvent_sent (hvalidate sent) hreceived htime hraw rfl rfl
    obtain ⟨e, he, hsame⟩ := hdelivered.waited stepId "" none 1000 "1s" .top
      { s' with memos := memos' } htime hraw rfl rfl
    rw [hreturns] at he
    rw [← wire_injective (Outcome.ok.inj he), sameData_sent hv hplain hmade] at hsame
    exact hsame hsealed
  · intro hnot
    obtain ⟨e, hread, hsame⟩ := decryptEvent_sent hbox hreader hk hv hplain hloads hmade
    refine ⟨⟨e, hread⟩, fun hctx => ?_, fun j hj => ?_, ?_⟩
    · have hopened := hreceived.event
      rw [hctx, hread] at hopened
      rw [← Except.ok.inj hopened]
      exact hsame
    · obtain ⟨hlt, hget⟩ := List.getElem?_eq_some_iff.mp hj
      have hlt' : j < ctx'.events.length := hreceived.events.length_eq ▸ hlt
      have hopened := hreceived.events.get hlt hlt'
      rw [List.get_eq_getElem, hget, hread] at hopened
      refine ⟨_, List.getElem?_eq_getElem hlt', ?_⟩
      rw [List.get_eq_getElem] at hopened
      rw [← Except.ok.inj hopened]
      exact hsame
    · intro stepId name ifExp timeout time r' s' htime hraw hs hr
      refine ⟨sent, waitForEvent_sent (hvalidate sent) hreceived htime hraw hs hr, ?_⟩
      rw [sameData_sent hv hplain hmade]
      exact fun hsealed => hnot ⟨hsealed, stepId, s', hraw⟩

/-! ## One event -/

def given : Event := ⟨[("encrypted", .int 1)], "", "order", 0⟩

def sealedGiven : Event := { given with data := [("encrypted", envelope KeyRotation.sealedOne)] }

def keyed : EncryptionMiddleware Unit := KeyRotation.rotated true []

def waitingEnv : Env Unit :=
  { Sample.env none with middleware := MiddlewareManager.fromClient [keyed.hooks] [] }

/-- The memos of a function that waited for the event in its step `a`. -/
def waitedRaw : Dict Json := AList.insert (Sample.hashStepId "a") (wire sealedGiven) ∅

def unparsed (_ : String) : Option Json := none

def noStore (memos : StepMemos) : State Unit := ⟨memos, fun _ => 0, false, false, fun _ => none, ()⟩

theorem waited_still_sealed :
    keyed.beforeSendEvents.call () [given] = (((), [sealedGiven]), none) ∧
    (MiddlewareManager.transformInput .async waitingEnv.middleware (Sample.invocation []).ctx
      (StepMemos.fromRaw unparsed waitedRaw) .top (noStore ∅)).outcome =
        .ok (.ok ((Sample.invocation []).ctx, StepMemos.fromRaw unparsed waitedRaw)) ∧
    (Step.call waitingEnv (Step.waitForEvent .ok "a" "order" none 1000) .top
      (noStore (StepMemos.fromRaw unparsed waitedRaw))).outcome = .ok (wire sealedGiven) ∧
    ¬ Delivered keyed .ok waitingEnv given sealedGiven (Sample.invocation []).ctx
      (Sample.invocation []).ctx waitedRaw (StepMemos.fromRaw unparsed waitedRaw) := by
  have hreturns : (Step.call waitingEnv (Step.waitForEvent .ok "a" "order" none 1000) .top
      (noStore (StepMemos.fromRaw unparsed waitedRaw))).outcome = .ok (wire sealedGiven) := by
    decide
  refine ⟨by decide, rfl, hreturns, fun h => ?_⟩
  obtain ⟨e, he, hsame⟩ := h.waited "a" "order" none 1000 "1s" .top
    (noStore (StepMemos.fromRaw unparsed waitedRaw)) (by decide) (by decide) rfl rfl
  rw [hreturns] at he
  have hfield := hsame "encrypted"
  rw [← wire_injective (Outcome.ok.inj he)] at hfield
  simp [sealedGiven, given, Json.field, envelope] at hfield

def triggered : Context := { (Sample.invocation []).ctx with event := sealedGiven }

theorem delivered_iff_triggered :
    Delivered keyed .ok waitingEnv given sealedGiven triggered { triggered with event := given }
        ∅ ∅ ↔
      ¬ (Sealed keyed (.int 1) ∧ Waits waitingEnv sealedGiven ∅) := by
  have hplain : Unencrypted given.data := ⟨by decide, by decide⟩
  have hloads : ∀ text, keyed.dumps (.int 1) = .ok text → keyed.loads text = some (.int 1) := by
    intro text htext
    have hone : keyed.dumps (.int 1) = .ok "1" := by decide
    rw [← Except.ok.inj (hone.symm.trans htext)]
    decide
  have hsend : keyed.beforeSendEvents.call () [given] = (((), [sealedGiven]), none) := by decide
  have hmiddleware : waitingEnv.middleware = [.logger] ++ .user keyed.hooks :: [] := rfl
  have hrun : (MiddlewareManager.transformInput waitingEnv.flavor waitingEnv.middleware triggered
      (StepMemos.fromRaw unparsed ∅) .top (noStore ∅)).outcome =
        .ok (.ok ({ triggered with event := given }, ∅)) := rfl
  exact delivered_iff (i := 0) rfl (KeyRotation.rotated_keyed true []) List.mem_cons_self
    (fun _ => rfl) rfl hplain hloads hsend rfl rfl hmiddleware (by simp [KeyRotation.InputInert])
    (by simp) hrun

end Inngest.EventEncryption
