import Inngest.Connect.HandshakeIdentity

/-!
# The start requests of a worker

Every connect is a row of start requests. An observer notes them, and what came
back. In each state the row of the latest connect says where the start task
stands, which error it carries, and what is in `conn_init` and `fatal_error`.
-/

set_option autoImplicit false

namespace Inngest.Connect
open Errors Transition

namespace ConnInitStarter
variable (cfg : Config)

def Usable (endpoint : String) : Prop :=
  endpoint.toList.all cfg.isSpace = false ∧
    ∃ scheme host, cfg.urlparse endpoint = .ok (scheme, some host) ∧
      (scheme = "ws" ∨ scheme = "wss")

/-- The start request succeeded, with these data of its response. -/
inductive Succeeds : StartResult → ConnInit → Prop where
  | mk {resp : StartResponse} {endpoint : String}
    (hr : rewrite cfg resp.gatewayEndpoint = .ok endpoint) (hu : Usable cfg endpoint) :
    Succeeds (.ok (200, .ok resp))
      ⟨⟨resp.sessionToken, resp.syncToken⟩, endpoint, resp.connectionId⟩

def Unauthorized (res : StartResult) : Prop :=
  ∃ status content, res = .ok (status, content) ∧ (status = 401 ∨ status = 403)

/-- The start request failed with this error. -/
inductive Fails : StartResult → PyError → Prop where
  | transport (e : PyError) : Fails (.error e) e
  | unauthorized {res : StartResult} (h : Unauthorized res) :
    Fails res (nonRetryableError "unauthorized")
  | status {status : ℕ} (content : Except PyError StartResponse) (h401 : status ≠ 401)
    (h403 : status ≠ 403) (h200 : status ≠ 200) :
    Fails (.ok (status, content))
      (exception "Exception" ("failed to send start request: " ++ toString status))
  | undecodable (e : PyError) : Fails (.ok (200, .error e)) e
  | rewrite {resp : StartResponse} {e : PyError}
    (h : rewrite cfg resp.gatewayEndpoint = .error e) : Fails (.ok (200, .ok resp)) e
  | endpoint {resp : StartResponse} {endpoint : String} {e : PyError}
    (hr : ConnInitStarter.rewrite cfg resp.gatewayEndpoint = .ok endpoint)
    (hv : validateGatewayEndpoint cfg endpoint = some e) : Fails (.ok (200, .ok resp)) e

/-- The start request failed, and another one may be sent. -/
def Retryable (res : StartResult) : Prop :=
  ∃ e, Fails cfg res e ∧ e.cls ≠ .nonRetryableError

variable {cfg} {res : StartResult} {i : ConnInit} {e e' : PyError} {s : State}

theorem validate_usable {endpoint : String} :
    validateGatewayEndpoint cfg endpoint = none ↔ Usable cfg endpoint := by
  unfold validateGatewayEndpoint Usable
  cases hspace : endpoint.toList.all cfg.isSpace with
  | true => simp
  | false =>
    cases hparse : cfg.urlparse endpoint with
    | error e => simp
    | ok parsed =>
      obtain ⟨scheme, hostname⟩ := parsed
      by_cases hs : scheme = "ws" ∨ scheme = "wss"
      · cases hostname <;> simp [validSchemes, hs]
      · simp [validSchemes, hs]

variable (cfg) in
theorem succeeds_or_fails (res : StartResult) :
    (∃ i, Succeeds cfg res i) ∨ ∃ e, Fails cfg res e := by
  cases res with
  | error e => exact .inr ⟨e, .transport e⟩
  | ok answer =>
    obtain ⟨status, content⟩ := answer
    by_cases h401 : status = 401 ∨ status = 403
    · exact .inr ⟨_, .unauthorized ⟨status, content, rfl, h401⟩⟩
    · by_cases h200 : status = 200
      · subst h200
        cases content with
        | error e => exact .inr ⟨e, .undecodable e⟩
        | ok resp =>
          cases hr : rewrite cfg resp.gatewayEndpoint with
          | error e => exact .inr ⟨e, .rewrite hr⟩
          | ok endpoint =>
            cases hv : validateGatewayEndpoint cfg endpoint with
            | some e => exact .inr ⟨e, .endpoint hr hv⟩
            | none => exact .inl ⟨_, .mk hr (validate_usable.mp hv)⟩
      · exact .inr ⟨_, .status content (fun h => h401 (.inl h)) (fun h => h401 (.inr h)) h200⟩

theorem attempt_succeeds (h : Succeeds cfg res i) : attempt cfg res s =
    ({ s with connId := some i.connectionId, connInit := s.connInit.set (some i) }, .success) := by
  cases h with
  | mk hr hu => simp [attempt, hr, validate_usable.mpr hu]

theorem attempt_fails (h : Fails cfg res e) :
    ∃ id, attempt cfg res s = ({ s with connId := id }, raised e) := by
  cases h with
  | transport e => exact ⟨s.connId, rfl⟩
  | unauthorized h =>
    obtain ⟨status, content, rfl, hs⟩ := h
    exact ⟨s.connId, by simp [attempt, hs]⟩
  | status content h401 h403 h200 => exact ⟨s.connId, by simp [attempt, h401, h403, h200]⟩
  | undecodable e => exact ⟨s.connId, by simp [attempt]⟩
  | rewrite h => exact ⟨_, by simp [attempt, h]; rfl⟩
  | endpoint hr hv => exact ⟨_, by simp [attempt, hr, hv]; rfl⟩

theorem raised_injective (h : raised e = raised e') : e = e' := by
  unfold raised at h
  split at h <;> split at h <;> simp_all

theorem Fails.unique (h : Fails cfg res e) (h' : Fails cfg res e') : e = e' := by
  obtain ⟨id, ha⟩ := attempt_fails (s := .initial) h
  obtain ⟨id', ha'⟩ := attempt_fails (s := .initial) h'
  exact raised_injective (congrArg Prod.snd (ha.symm.trans ha'))

theorem Fails.not_succeeds (h : Fails cfg res e) : ¬ Succeeds cfg res i := by
  intro hs
  obtain ⟨id, ha⟩ := attempt_fails (s := .initial) h
  have heq : raised e = .success :=
    congrArg Prod.snd (ha.symm.trans (attempt_succeeds (s := .initial) hs))
  unfold raised at heq
  split at heq <;> cases heq

theorem Retryable.not_unauthorized (h : Retryable cfg res) : ¬ Unauthorized res := by
  obtain ⟨e, hf, hn⟩ := h
  intro hu
  exact hn (by rw [hf.unique (.unauthorized hu)]; rfl)

end ConnInitStarter

/-! ## What the observer notes -/

/-- The start requests of one connect, and how those that have ended did, the
newest first. -/
structure StartRequests where
  requests : ℕ
  outcomes : List StartResult

namespace StartRequests
open ConnInitStarter
variable (cfg : Config) (c : StartRequests)

/-- The latest request succeeded with these data. -/
def Gave (i : ConnInit) : Prop :=
  ∃ res older, c.outcomes = res :: older ∧ Succeeds cfg res i

/-- The connect has ended without success: the latest request failed with this
error, and there is no other to be sent. -/
def Failed (e : PyError) : Prop :=
  ∃ res older, c.outcomes = res :: older ∧ Fails cfg res e ∧
    (e.cls = .nonRetryableError ∨ c.outcomes.length = maxConnInitAttempts)

/-- The error of the latest attempt, where there was one. -/
def Carries (err : Option PyError) : Prop :=
  c.outcomes = [] ∧ err = none ∨
    ∃ res older e, c.outcomes = res :: older ∧ Fails cfg res e ∧ err = some e

def retried : List StartRequests → List StartRequests
  | [] => []
  | c :: past => { c with requests := c.requests + 1 } :: past

def answered (res : StartResult) : List StartRequests → List StartRequests
  | [] => []
  | c :: past => { c with outcomes := res :: c.outcomes } :: past

def sent (pc pc' : StartPc) (connects : List StartRequests) : List StartRequests :=
  match pc' with
  | .fetching _ _ =>
    match pc with
    | .sleeping _ _ => retried connects
    | _ => ⟨1, []⟩ :: connects
  | _ => connects

def note (e : Event) (w : Worker) (connects : List StartRequests) : List StartRequests :=
  match e with
  | .startRequest => sent w.starter (Worker.effect cfg e w).starter connects
  | .startResponse res =>
    match w.starter with
    | .fetching _ _ => answered res connects
    | _ => connects
  | _ => connects

end StartRequests

def startMachine (cfg : Config) : Machine (Worker × List StartRequests) Event :=
  (machine cfg).observed [] (StartRequests.note cfg)

/-! ## The other steps -/

theorem State.Calm.fatalError {W : Task → Prop} {s s' : State} (h : State.Calm W s s') :
    s'.fatalError.value = s.fatalError.value := by
  induction h with
  | refl => rfl
  | wait _ _ hw ih => exact hw.fatalError.1.trans ih
  | closeWs _ ih => exact ih

/-- A step that is not the start task's own may stop it or clear `conn_init`. -/
structure StartAside (w w' : Worker) : Prop where
  starter : w'.starter = w.starter ∨ w'.starter = .stopped
  connId : w'.state.connId = w.state.connId
  fatalError : w'.state.fatalError.value = w.state.fatalError.value
  connInit : w'.state.connInit.value = w.state.connInit.value ∨ w'.state.connInit.value = none
  woken : w'.starter = .waiting →
    (none ∈ w.state.connInit.queued .startRequest → w.state.connInit.value = none) →
    none ∈ w'.state.connInit.queued .startRequest → w'.state.connInit.value = none

namespace StartAside
variable {w w' : Worker}

theorem of_calm {W : Task → Prop} {s : State} (hst : w'.starter = w.starter ∨ w'.starter = .stopped)
    (hid : s.connId = w.state.connId) (hi : s.connInit = w.state.connInit)
    (hf : s.fatalError.value = w.state.fatalError.value) (h : State.Calm W s w'.state)
    (hW : W .startRequest → w'.starter = .stopped) : StartAside w w' where
  starter := hst
  connId := h.connId.trans hid
  fatalError := h.fatalError.trans hf
  connInit := by
    rw [← hi]
    exact h.connInit.imp id And.left
  woken hwait hold := by
    apply h.connInit_keeps (t := .startRequest) (fun ht => by simp [hW ht] at hwait)
      (P := fun c => none ∈ c.queued .startRequest → c.value = none)
    · rwa [hi]
    · intro c c' hc hv hq hmem
      rw [ValueWatcher.queued, hq] at hmem
      rw [hv]
      exact hc hmem
    · intro c _ _
      exact ValueWatcher.set_value

theorem congr (hst : w'.starter = w.starter) (hid : w'.state.connId = w.state.connId)
    (hi : w'.state.connInit = w.state.connInit)
    (hf : w'.state.fatalError = w.state.fatalError) : StartAside w w' :=
  of_calm (W := fun _ => False) (.inl hst) hid hi (by rw [hf]) .refl False.elim

end StartAside

namespace Worker
variable {cfg : Config} {w w' : Worker} {e : Event}

variable (cfg) in
theorem handshake_fatalError (msg : GatewayMessage) (auth : AuthData) (connId : String)
    (s : State) (h : InitHandshake) :
    (InitHandshake.handleMsg cfg msg auth connId s h).state.fatalError.value =
      s.fatalError.value := by
  have hsync : ∀ (s : State) (h : InitHandshake),
      (InitHandshake.sync auth connId s h).state.fatalError.value = s.fatalError.value := by
    intro s h
    unfold InitHandshake.sync
    dsimp only
    split <;> rfl
  unfold InitHandshake.handleMsg
  split
  · exact hsync _ _
  · exact hsync _ _
  · rfl
  · rfl

theorem handleMsg_fatalError (n : ℕ) (raw : RawMessage) :
    (w.handleMsg cfg n raw).state.fatalError.value = w.state.fatalError.value := by
  unfold handleMsg
  split
  · rfl
  · rename_i init _
    split
    · rfl
    · rfl
    · split
      · rfl
      · rename_i msg _ connId _
        obtain ⟨c, hx⟩ := executionMsg_state cfg
          ⟨(InitHandshake.handleMsg cfg msg init.authData connId w.state w.handshake).state,
            w.executions, w.buffer, w.leases, w.replies⟩ msg
        have hh := handshake_fatalError cfg msg init.authData connId w.state w.handshake
        unfold dispatch
        dsimp only
        rw [hx]
        split <;> exact hh

variable (cfg) in
theorem aside_start (hreq : e ≠ .startRequest) (hres : ∀ res, e ≠ .startResponse res) :
    StartAside w (effect cfg e w) := by
  cases hsets : e.sets with
  | false =>
    obtain ⟨W, hcalm, hW, -⟩ := calm_spares cfg (w := w) hsets
    exact .of_calm (starter_calm hsets) rfl rfl rfl hcalm hW
  | true =>
    cases e with
    | close =>
      rw [effect, close]
      split <;> exact .congr rfl rfl rfl rfl
    | connected =>
      unfold effect
      dsimp only
      split
      · rename_i init _
        have hcalm : State.Calm (· = .run)
            { w.state with ws := w.state.ws.set (some w.connections) } (w.connected init).state :=
          .of_sameBut (.waitConnInit _ _) rfl
        refine .of_calm (.inl rfl) ?_ ?_ ?_ hcalm fun h => ?_
        · rfl
        · rfl
        · rfl
        · cases h
      · exact .congr rfl rfl rfl rfl
    | handlersClosed | handlersTimedOut =>
      unfold effect
      dsimp only
      split
      · rename_i raising _
        have hcalm : State.Calm (fun _ => False)
            { w.state with connState := w.state.connState.set .closed }
            (w.finishRun raising).state := .closeWs .refl
        refine .of_calm (.inl rfl) ?_ ?_ ?_ hcalm False.elim
        · rfl
        · rfl
        · rfl
      · exact .congr rfl rfl rfl rfl
    | runStopped =>
      unfold effect
      dsimp only
      split <;> exact .congr rfl rfl rfl rfl
    | message raw =>
      unfold effect
      dsimp only
      split
      · obtain ⟨b, hb, hcalm⟩ := handleMsg_calm cfg (w := w) _ raw
        refine .of_calm (.inl (handleMsg_starter _ raw)) hb.connId hb.connInit ?_ hcalm (by simp)
        rw [← hcalm.fatalError, handleMsg_fatalError]
      · exact .congr rfl rfl rfl rfl
    | closeFinished i | closeTimedOut i =>
      exact ⟨.inl rfl, rfl, rfl, .inr ValueWatcher.set_value, fun _ _ _ => ValueWatcher.set_value⟩
    | executionCallback i =>
      obtain ⟨c, hcount⟩ := executionDone_state (w := w) i
      have hst : (w.executionDone i).starter = w.starter := rfl
      exact .congr hst (by rw [effect, hcount]) (by rw [effect, hcount]) (by rw [effect, hcount])
    | startRequest => exact absurd rfl hreq
    | startResponse res => exact absurd rfl (hres res)
    | start | clock t | runStarted | gatewayTask t | gatewaySelected | losersCancelled
    | connectFailed | connInitChanged | connectionSettled | connectionLeft | retry | disconnected
    | closer i | closeSequence h | heartbeat | heartbeatSent r | reconnectWatcher | sendData
    | dataSent r | execution i | executionSent i r | executionPosted i r | leaseExtender
    | leaseSent r | flushPoller | flushed => simp [Event.sets] at hsets

end Worker

/-! ## Where the start task stands -/

namespace StartRequests
open ConnInitStarter
variable (cfg : Config)

/-- What holds of every connect: a request is sent only after failures that
allow it. -/
structure Sound (c : StartRequests) : Prop where
  bounded : c.requests ≤ maxConnInitAttempts
  answered : c.outcomes.length ≤ c.requests
  earlier : ∀ res ∈ c.outcomes.tail, Retryable cfg res
  underWay : c.outcomes.length < c.requests → ∀ res ∈ c.outcomes, Retryable cfg res

structure Trying (s : State) (c : StartRequests) (past : List StartRequests) : Prop where
  past : ∀ c ∈ past, ∃ i, c.Gave cfg i
  retryable : ∀ res ∈ c.outcomes, Retryable cfg res
  short : c.outcomes.length < maxConnInitAttempts
  connInit : s.connInit.value = none
  fatalError : s.fatalError.value = none

inductive Stands (s : State) : StartPc → List StartRequests → Prop where
  | idle {pc : StartPc} {connects : List StartRequests} (hpc : pc.busy = false)
    (hc : ∀ c ∈ connects, ∃ i, c.Gave cfg i) (hf : s.fatalError.value = none) :
    Stands s pc connects
  | fetching {c : StartRequests} {past : List StartRequests} {err : Option PyError}
    (h : Trying cfg s c past) (hr : c.requests = c.outcomes.length + 1)
    (herr : c.Carries cfg err) : Stands s (.fetching c.outcomes.length err) (c :: past)
  | sleeping {c : StartRequests} {past : List StartRequests} {err : Option PyError}
    (h : Trying cfg s c past) (hr : c.requests = c.outcomes.length)
    (herr : c.Carries cfg err) : Stands s (.sleeping c.outcomes.length err) (c :: past)
  | cancelled {c : StartRequests} {past : List StartRequests} (h : Trying cfg s c past) :
    Stands s .stopped (c :: past)
  | failed {c : StartRequests} {past : List StartRequests} {e : PyError}
    (hp : ∀ c ∈ past, ∃ i, c.Gave cfg i) (hc : c.Failed cfg e)
    (hf : s.fatalError.value = some e) : Stands s .stopped (c :: past)

/-- The data in `conn_init` are those of the latest response. -/
def Given (s : State) (connects : List StartRequests) : Prop :=
  ∀ i, s.connInit.value = some i → s.connId = some i.connectionId ∧
    ∃ c past, connects = c :: past ∧ c.Gave cfg i

structure Kept (s : State) (pc : StartPc) (connects : List StartRequests) : Prop where
  sound : ∀ c ∈ connects, c.Sound cfg
  stands : Stands cfg s pc connects
  woken : pc = .waiting → none ∈ s.connInit.queued .startRequest → s.connInit.value = none
  given : Given cfg s connects

structure Rested (s : State) (connects : List StartRequests) : Prop where
  sound : ∀ c ∈ connects, c.Sound cfg
  gave : ∀ c ∈ connects, ∃ i, c.Gave cfg i
  fatalError : s.fatalError.value = none
  given : Given cfg s connects

variable {cfg} {s s' : State} {w w' : Worker} {c : StartRequests} {e : PyError}
  {connects past : List StartRequests}

theorem Gave.not_failed {i : ConnInit} (h : c.Gave cfg i) : ¬ c.Failed cfg e := by
  rintro ⟨res, older, hc, hf, -⟩
  obtain ⟨res', older', hc', hs⟩ := h
  obtain ⟨rfl, -⟩ := List.cons.inj (hc.symm.trans hc')
  exact hf.not_succeeds hs

theorem Failed.unique {e' : PyError} (h : c.Failed cfg e) (h' : c.Failed cfg e') : e = e' := by
  obtain ⟨res, older, hc, hf, -⟩ := h
  obtain ⟨res', older', hc', hf', -⟩ := h'
  obtain ⟨rfl, -⟩ := List.cons.inj (hc.symm.trans hc')
  exact hf.unique hf'

theorem Trying.not_failed (h : Trying cfg s c past) : ¬ c.Failed cfg e := by
  rintro ⟨res, older, hc, hf, hend⟩
  obtain ⟨e', hf', hn⟩ := h.retryable res (by simp [hc])
  rcases hend with hcls | hlen
  · exact hn (hf'.unique hf ▸ hcls)
  · exact absurd h.short (by omega)

theorem Trying.congr (h : Trying cfg s c past) (hi : s'.connInit.value = none)
    (hf : s'.fatalError.value = s.fatalError.value) : Trying cfg s' c past :=
  ⟨h.past, h.retryable, h.short, hi, hf.trans h.fatalError⟩

theorem stands_aside (h : Stands cfg w.state w.starter connects) (ha : StartAside w w') :
    Stands cfg w'.state w'.starter connects := by
  have htry : ∀ {c past}, Trying cfg w.state c past → Trying cfg w'.state c past := by
    intro c past ht
    apply ht.congr _ ha.fatalError
    rcases ha.connInit with hi | hi
    · rw [hi, ht.connInit]
    · exact hi
  generalize hpc : w.starter = pc at h
  rcases ha.starter with heq | heq
  · rw [heq, hpc]
    cases h with
    | idle hb hc hf => exact .idle hb hc (ha.fatalError.trans hf)
    | fetching ht hr herr => exact .fetching (htry ht) hr herr
    | sleeping ht hr herr => exact .sleeping (htry ht) hr herr
    | cancelled ht => exact .cancelled (htry ht)
    | failed hp hc hf => exact .failed hp hc (ha.fatalError.trans hf)
  · rw [heq]
    cases h with
    | idle hb hc hf => exact .idle rfl hc (ha.fatalError.trans hf)
    | fetching ht | sleeping ht | cancelled ht => exact .cancelled (htry ht)
    | failed hp hc hf => exact .failed hp hc (ha.fatalError.trans hf)

theorem kept_aside (h : Kept cfg w.state w.starter connects) (ha : StartAside w w') :
    Kept cfg w'.state w'.starter connects where
  sound := h.sound
  stands := stands_aside h.stands ha
  woken hwait := by
    apply ha.woken hwait
    rcases ha.starter with heq | heq
    · exact h.woken (heq ▸ hwait)
    · simp [heq] at hwait
  given i hi := by
    rw [ha.connId]
    rcases ha.connInit with heq | heq
    · exact h.given i (heq ▸ hi)
    · simp [heq] at hi

/-! ## The start task's own steps -/

theorem Kept.rested {pc : StartPc} (h : Kept cfg s pc connects) (hb : pc.busy = false)
    (hpc : pc ≠ .stopped) : Rested cfg s connects := by
  refine ⟨h.sound, ?_, ?_, h.given⟩
  · cases h.stands with
    | idle _ hc _ => exact hc
    | fetching | sleeping => simp [StartPc.busy] at hb
    | cancelled | failed => exact absurd rfl hpc
  · cases h.stands with
    | idle _ _ hf => exact hf
    | fetching | sleeping => simp [StartPc.busy] at hb
    | cancelled | failed => exact absurd rfl hpc

theorem sound_first : Sound cfg ⟨1, []⟩ := by
  constructor <;> simp [maxConnInitAttempts]

theorem begin_requests {pc : StartPc} (h : Rested cfg s connects) (hb : pc.busy = false)
    (hi : s.connInit.value = none) :
    Kept cfg (begin false s).1 (begin false s).2 (sent pc (begin false s).2 connects) := by
  rw [begin]
  split
  · exact ⟨h.sound, .idle rfl h.gave h.fatalError, by simp, h.given⟩
  · have hsent : sent pc (.fetching 0 none) connects = ⟨1, []⟩ :: connects := by
      cases pc with
      | sleeping => simp [StartPc.busy] at hb
      | created | waiting | fetching | stopped => rfl
    have htry : Trying cfg { s with connState := s.connState.set .connecting } ⟨1, []⟩ connects :=
      ⟨h.gave, by simp, by simp [maxConnInitAttempts], hi, h.fatalError⟩
    dsimp only [Bool.false_eq_true, if_false]
    rw [if_neg (by simp), hsent]
    refine ⟨?_, .fetching htry rfl (.inl ⟨rfl, rfl⟩), by simp, ?_⟩
    · rintro c (_ | ⟨_, hc⟩)
      · exact sound_first
      · exact h.sound c hc
    · intro i hsome
      simp [hi] at hsome

theorem loop_waiting (h : Rested cfg s connects) (hi : s.connInit.value ≠ none) :
    Kept cfg (loop false none s).1 (loop false none s).2 connects ∧
      (loop false none s).2 = .waiting := by
  have hloop : loop false none s = (s.waitConnInit .startRequest, .waiting) := by
    simp [loop, hi]
  rw [hloop]
  exact ⟨⟨h.sound, .idle rfl h.gave h.fatalError, by simp [State.waitConnInit], h.given⟩, rfl⟩

theorem loop_requests {pc : StartPc} (h : Rested cfg s connects) (hb : pc.busy = false) :
    Kept cfg (loop false none s).1 (loop false none s).2
      (sent pc (loop false none s).2 connects) := by
  by_cases hi : s.connInit.value = none
  · have hloop : loop false none s = begin false s := by simp [loop, hi]
    rw [hloop]
    exact begin_requests h hb hi
  · obtain ⟨hk, hpc⟩ := loop_waiting h hi
    rw [hpc] at hk ⊢
    exact hk

theorem resume_requests {pc : StartPc} (h : Kept cfg s pc connects)
    (hr : resumable pc s = true) :
    Kept cfg (resume false pc s).1 (resume false pc s).2
      (sent pc (resume false pc s).2 connects) := by
  cases pc with
  | created => exact loop_requests (h.rested rfl (by simp)) rfl
  | waiting =>
    obtain ⟨v, hv⟩ := Option.isSome_iff_exists.mp hr
    obtain ⟨hmem, hnone⟩ := ValueWatcher.woken_mem hv
    have hnil : v = none := by simpa using hnone
    have hrest := h.rested rfl (by simp)
    exact begin_requests (s := s.release .startRequest) ⟨hrest.sound, hrest.gave, hrest.fatalError,
      hrest.given⟩ rfl (h.woken rfl (hnil ▸ hmem))
  | sleeping a err =>
    have hsound := h.sound
    have hgiven := h.given
    cases h.stands with
    | idle hb => simp [StartPc.busy] at hb
    | @sleeping c past _ ht hlen herr =>
      have hshort := ht.short
      have hstands : Stands cfg s (.fetching c.outcomes.length err)
          ({ c with requests := c.requests + 1 } :: past) :=
        .fetching (c := { c with requests := c.requests + 1 })
          ⟨ht.past, ht.retryable, ht.short, ht.connInit, ht.fatalError⟩ (by simp [hlen]) herr
      refine ⟨?_, hstands, by simp [resume], fun i hi => ?_⟩
      · rintro d (_ | ⟨_, hd⟩)
        · exact ⟨by simp; omega, by simp; omega, (hsound c (.head _)).earlier,
            fun _ => ht.retryable⟩
        · exact hsound d (.tail _ hd)
      · exact absurd (hi.symm.trans ht.connInit) (by simp)
  | fetching a err | stopped => simp [resumable] at hr

theorem Trying.sound_answered (h : Trying cfg s c past) (hs : Sound cfg c)
    (hr : c.requests = c.outcomes.length + 1) (res : StartResult) :
    Sound cfg { c with outcomes := res :: c.outcomes } where
  bounded := hs.bounded
  answered := by simp [hr]
  earlier := h.retryable
  underWay hlt := by simp [hr] at hlt

theorem responded_requests {attempts : ℕ} {err : Option PyError} {res : StartResult}
    (h : Kept cfg s (.fetching attempts err) connects) :
    Kept cfg (responded cfg false attempts res s).1 (responded cfg false attempts res s).2
      (answered res connects) := by
  have hsound := h.sound
  cases h.stands with
  | idle hb => simp [StartPc.busy] at hb
  | @fetching c past _ ht hr herr =>
    have hall : ∀ d ∈ answered res (c :: past), Sound cfg d := by
      rintro d (_ | ⟨_, hd⟩)
      · exact ht.sound_answered (hsound c (.head _)) hr res
      · exact hsound d (.tail _ hd)
    rcases succeeds_or_fails cfg res with ⟨i, hs⟩ | ⟨e, hf⟩
    · rw [responded, attempt_succeeds hs]
      set d : StartRequests := { c with outcomes := res :: c.outcomes } with hd
      have hgave : d.Gave cfg i := ⟨res, c.outcomes, rfl, hs⟩
      have hrest : Rested cfg
          { s with connId := some i.connectionId, connInit := s.connInit.set (some i) }
          (d :: past) := by
        refine ⟨hall, ?_, ht.fatalError, fun j hj => ?_⟩
        · rintro d' (_ | ⟨_, hd'⟩)
          · exact ⟨i, hgave⟩
          · exact ht.past d' hd'
        · obtain rfl : i = j := Option.some.inj (ValueWatcher.set_value.symm.trans hj)
          exact ⟨rfl, d, past, rfl, hgave⟩
      exact (loop_waiting hrest (by simp)).1
    · obtain ⟨id, ha⟩ := attempt_fails (s := s) hf
      have hgiven : Given cfg { s with connId := id } (answered res (c :: past)) := by
        intro i hi
        exact absurd (hi.symm.trans ht.connInit) (by simp)
      have hfailed (hend : e.cls = .nonRetryableError ∨
          c.outcomes.length + 1 = maxConnInitAttempts) :
          Kept cfg (loop false (some e) { s with connId := id }).1
            (loop false (some e) { s with connId := id }).2 (answered res (c :: past)) :=
        ⟨hall, .failed ht.past ⟨res, c.outcomes, rfl, hf, hend⟩ ValueWatcher.set_value,
          by simp [loop], hgiven⟩
      rw [responded, ha, raised]
      by_cases hcls : e.cls = .nonRetryableError
      · rw [if_pos hcls]
        exact hfailed (.inl hcls)
      · rw [if_neg hcls]
        unfold afterAttempt
        dsimp only
        split
        · rename_i hmore
          have htry : Trying cfg { s with connId := id }
              { c with outcomes := res :: c.outcomes } past := by
            refine ⟨ht.past, ?_, hmore.1, ht.connInit, ht.fatalError⟩
            rintro res' (_ | ⟨_, hres'⟩)
            · exact ⟨e, hf, hcls⟩
            · exact ht.retryable res' hres'
          exact ⟨hall, .sleeping htry hr (.inr ⟨res, c.outcomes, e, rfl, hf, rfl⟩), by simp, hgiven⟩
        · rename_i hlast
          have hshort := ht.short
          simp only [and_true, not_lt] at hlast
          exact hfailed (.inr (by omega))

end StartRequests

namespace StartRequests
variable {cfg : Config} {e : Event} {w : Worker} {connects : List StartRequests}

theorem kept_step (h : Kept cfg w.state w.starter connects) (he : Worker.enabled e w = true)
    (hopen : w.closed .connInit = false) :
    Kept cfg (Worker.effect cfg e w).state (Worker.effect cfg e w).starter
      (note cfg e w connects) := by
  have hready : w.ready e = true := by
    simp only [Worker.enabled, Bool.and_eq_true] at he
    exact he.1
  by_cases hreq : e = .startRequest
  · subst hreq
    rw [note, Worker.effect, hopen]
    exact resume_requests h hready
  · by_cases hres : ∃ res, e = .startResponse res
    · obtain ⟨res, rfl⟩ := hres
      unfold Worker.ready at hready
      dsimp only at hready
      split at hready
      · rename_i attempts err hst
        rw [hst] at h
        simp only [note, Worker.effect, hst, hopen]
        exact responded_requests h
      · simp at hready
    · have hnote : note cfg e w connects = connects := by
        unfold note
        split
        · exact absurd rfl hreq
        · exact absurd ⟨_, rfl⟩ hres
        · rfl
      rw [hnote]
      exact kept_aside h (Worker.aside_start cfg hreq fun res heq => hres ⟨res, heq⟩)

end StartRequests

namespace ConnInitStarter
variable {cfg : Config} {closed : Bool} {attempts : ℕ} {res : StartResult} {s : State}

theorem loop_connInit (err : Option PyError) :
    (loop closed err s).1.connInit.value = s.connInit.value := by
  have h : Starts False s (loop closed err s).1 := loop_starts .refl
  exact h.connInit

theorem responded_succeeds {i : ConnInit} (h : Succeeds cfg res i) :
    (responded cfg closed attempts res s).1.connInit.value = some i := by
  rw [responded, attempt_succeeds h, afterAttempt, loop_connInit]
  exact ValueWatcher.set_value

theorem responded_fails {e : PyError} (h : Fails cfg res e) :
    (responded cfg closed attempts res s).1.connInit.value = s.connInit.value := by
  obtain ⟨id, ha⟩ := attempt_fails (s := s) h
  rw [responded, ha]
  unfold afterAttempt
  split
  · exact loop_connInit _
  · exact loop_connInit _
  · split
    · rfl
    · exact loop_connInit _

end ConnInitStarter

/-! ## The start loop -/

open StartRequests ConnInitStarter

/-- The start loop is a correct retry machine. A connect is over without
success when `Failed`; `fetching` and `sleeping` are the states between. -/
structure StartsCorrectly (cfg : Config) (w : Worker) (connects : List StartRequests) : Prop where
  bounded : ∀ c ∈ connects, c.requests ≤ maxConnInitAttempts
  stops : ∀ c ∈ connects, ∀ newer res older, c.outcomes = newer ++ res :: older →
    (∃ i, Succeeds cfg res i) ∨ Unauthorized res → newer = [] ∧ c.requests = c.outcomes.length
  connInit : ∀ i, w.state.connInit.value = some i → w.state.connId = some i.connectionId ∧
    ∃ c past, connects = c :: past ∧ c.Gave cfg i
  sets : ∀ res attempts err i, w.starter = .fetching attempts err → Succeeds cfg res i →
    (Worker.effect cfg (.startResponse res) w).state.connInit.value = some i
  setsOnly : ∀ e i, (Worker.effect cfg e w).state.connInit.value = some i →
    w.state.connInit.value = some i ∨ ∃ res attempts err, e = .startResponse res ∧
      w.starter = .fetching attempts err ∧ Succeeds cfg res i
  fatalError : ∀ e, w.state.fatalError.value = some e ↔ ∃ c ∈ connects, c.Failed cfg e
  carried : ∀ attempts err,
    w.starter = .fetching attempts err ∨ w.starter = .sleeping attempts err → ∃ c past,
      connects = c :: past ∧ attempts = c.outcomes.length ∧ c.Carries cfg err ∧
      ∀ c ∈ past, ∃ i, c.Gave cfg i
  waits : w.starter = .waiting → ∀ c ∈ connects, ∃ i, c.Gave cfg i

namespace StartRequests
variable {cfg : Config} {w : Worker} {connects : List StartRequests} {c : StartRequests}

theorem Sound.stops (h : Sound cfg c) {newer older : List StartResult} {res : StartResult}
    (hc : c.outcomes = newer ++ res :: older)
    (hres : (∃ i, Succeeds cfg res i) ∨ Unauthorized res) :
    newer = [] ∧ c.requests = c.outcomes.length := by
  have hno : ¬ Retryable cfg res := by
    intro hr
    rcases hres with ⟨i, hs⟩ | hu
    · obtain ⟨e, hf, -⟩ := hr
      exact hf.not_succeeds hs
    · exact hr.not_unauthorized hu
  have hmem : res ∈ c.outcomes := by simp [hc]
  constructor
  · cases newer with
    | nil => rfl
    | cons r newer => exact absurd (h.earlier res (by simp [hc])) hno
  · have hle := h.answered
    by_contra hne
    exact hno (h.underWay (by omega) res hmem)

theorem stands_fatal {s : State} {pc : StartPc} (h : Stands cfg s pc connects) (e : PyError) :
    s.fatalError.value = some e ↔ ∃ c ∈ connects, c.Failed cfg e := by
  have hgave : ∀ {past : List StartRequests}, (∀ c ∈ past, ∃ i, c.Gave cfg i) →
      ¬ ∃ c ∈ past, c.Failed cfg e := by
    rintro past hp ⟨c, hc, hf⟩
    obtain ⟨i, hg⟩ := hp c hc
    exact hg.not_failed hf
  have htrying : ∀ {c : StartRequests} {past : List StartRequests}, Trying cfg s c past →
      (s.fatalError.value = some e ↔ ∃ d ∈ c :: past, d.Failed cfg e) := by
    intro c past ht
    simp [ht.fatalError, ht.not_failed, hgave ht.past]
  cases h with
  | idle _ hc hf => simp [hf, hgave hc]
  | fetching ht => exact htrying ht
  | sleeping ht => exact htrying ht
  | cancelled ht => exact htrying ht
  | @failed c past e' hp hc hf =>
    rw [hf]
    constructor
    · intro he
      obtain rfl := Option.some.inj he
      exact ⟨c, .head _, hc⟩
    · rintro ⟨d, _ | ⟨_, hd⟩, hfail⟩
      · rw [hc.unique hfail]
      · exact absurd ⟨d, hd, hfail⟩ (hgave hp)

theorem setsOnly_step (e : Event) (i : ConnInit)
    (hi : (Worker.effect cfg e w).state.connInit.value = some i) :
    w.state.connInit.value = some i ∨ ∃ res attempts err, e = .startResponse res ∧
      w.starter = .fetching attempts err ∧ Succeeds cfg res i := by
  by_cases hreq : e = .startRequest
  · subst hreq
    have hstart : Starts False w.state (Worker.effect cfg .startRequest w).state := resume_starts
    exact .inl (hstart.connInit ▸ hi)
  · by_cases hres : ∃ res, e = .startResponse res
    · obtain ⟨res, rfl⟩ := hres
      unfold Worker.effect at hi
      dsimp only at hi
      split at hi
      · rename_i attempts err hst
        rcases succeeds_or_fails cfg res with ⟨j, hs⟩ | ⟨e, hf⟩
        · rw [responded_succeeds hs] at hi
          exact .inr ⟨res, attempts, err, rfl, hst, Option.some.inj hi ▸ hs⟩
        · rw [responded_fails hf] at hi
          exact .inl hi
      · exact .inl hi
    · rcases (Worker.aside_start cfg hreq fun res heq => hres ⟨res, heq⟩).connInit with
        heq | heq
      · exact .inl (heq ▸ hi)
      · simp [heq] at hi

end StartRequests

theorem StartsCorrectly.of_reachable {cfg : Config} {w : Worker} {connects : List StartRequests}
    (h : (startMachine cfg).Reachable (fun _ s => s.1.closed .connInit = false) (w, connects)) :
    StartsCorrectly cfg w connects := by
  have hk : Kept cfg w.state w.starter connects := by
    apply h.invariant (P := fun s => Kept cfg s.1.state s.1.starter s.2)
    · refine ⟨by simp [startMachine, Machine.observed], ?_, by simp [startMachine, Machine.observed,
        machine, Worker.initial], ?_⟩
      · exact .idle rfl (by simp [startMachine, Machine.observed]) rfl
      · intro i hi
        simp [startMachine, Machine.observed, machine, Worker.initial, State.initial,
          ValueWatcher.new] at hi
    · rintro e ⟨w, connects⟩ - hk he hopen
      exact kept_step hk he hopen
  constructor
  · exact fun c hc => (hk.sound c hc).bounded
  · exact fun c hc newer res older => (hk.sound c hc).stops
  · exact hk.given
  · intro res attempts err i hst hs
    simp only [Worker.effect, hst]
    exact responded_succeeds hs
  · exact fun e i => setsOnly_step e i
  · exact stands_fatal hk.stands
  · intro attempts err hst
    have hstands := hk.stands
    rcases hst with hst | hst
    · rw [hst] at hstands
      cases hstands with
      | idle hb => simp [StartPc.busy] at hb
      | fetching ht hr herr => exact ⟨_, _, rfl, rfl, herr, ht.past⟩
    · rw [hst] at hstands
      cases hstands with
      | idle hb => simp [StartPc.busy] at hb
      | sleeping ht hr herr => exact ⟨_, _, rfl, rfl, herr, ht.past⟩
  · exact fun hst => (hk.rested (by rw [hst]; rfl) (by simp [hst])).gave

/-- In every run in which the handler is not closed, the start loop has been
correct, whatever the requests came back with. -/
theorem starts_correct {cfg : Config} {w : Worker}
    (h : (machine cfg).Reachable (fun _ w => w.closed .connInit = false) w) :
    (∃ connects, (startMachine cfg).Reachable (fun _ s => s.1.closed .connInit = false)
      (w, connects)) ∧
      ∀ connects, (startMachine cfg).Reachable (fun _ s => s.1.closed .connInit = false)
        (w, connects) → StartsCorrectly cfg w connects :=
  ⟨h.observed, fun _ hc => .of_reachable hc⟩

namespace Sample

def retried : List Event :=
  [.start, .runStarted, .startRequest,
    .startResponse (.ok (500, .error (exception "DecodeError" "Error parsing message"))),
    .startRequest, startResponse "first"]

end Sample

theorem starts_correct_retried :
    ∃ w connects, w.state.connId = some "first" ∧ StartsCorrectly Sample.config w connects := by
  have hrun : ∃ w, (machine Sample.config).Reachable
      (fun _ w => w.closed .connInit = false) w ∧ w.state.connId = some "first" :=
    Machine.exists_reachable Sample.retried (by decide)
  obtain ⟨w, hw, hid⟩ := hrun
  obtain ⟨⟨connects, hc⟩, hcorrect⟩ := starts_correct hw
  exact ⟨w, connects, hid, hcorrect connects hc⟩

end Inngest.Connect
