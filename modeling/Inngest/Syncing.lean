import Inngest.Inspection

/-!
# What a sync reports

An app is synced by a PUT request, in its response or by a call of the API. A
response of success should mean that the server has the functions now. The
response in band is given to a server of either kind, and the API's refusal is
handed on as a success.
-/

set_option autoImplicit false

namespace Inngest
open ServerLib Errors Effect Python

namespace Syncer
variable {σ : Type} (runtime : Runtime σ) (handler : AppHandler σ) (req : CommRequest)

def Success (served : Served) : Prop := 200 ≤ served.statusCode ∧ served.statusCode < 300

/-- The request is answered with the configurations themselves. -/
def InBand : Prop :=
  req.headerDict.lookup syncKindHeader = some inBand ∧ handler.allowInBandSync = true

instance : Decidable (InBand handler req) := inferInstanceAs (Decidable (_ ∧ _))

/-- The server kind, when it is given, is the mode. -/
def Matches : Prop :=
  ∀ kind, (req.exchange (.ok none)).serverKind = some kind → kind = handler.mode

def HasFunctions : Prop := handler.functions.values ≠ []

/-- An in-band sync that is signed with a valid key, and has a valid body and a
function. -/
structure Ready : Prop where
  inBand : InBand handler req
  signed : ∃ key, handler.requestSigningKey runtime req = .ok (.ok (some key))
  body : ∃ url, runtime.syncRequest req.body = .ok url
  functions : HasFunctions handler

/-- The API answered to the request of an out-of-band sync. -/
structure Answered (res : HttpResponse) : Prop where
  outOfBand : ¬ InBand handler req
  validated : ∃ key, handler.requestSigningKey runtime req = .ok key
  sent : ∃ request, createOutOfBandRequest runtime handler req = .ok (.ok (.inr request)) ∧
    Net.fetchWithAuthFallback runtime.crypto runtime.send request handler.signingKey
      handler.signingKeyFallback = .ok (.ok res)

/-- The body of the API's answer is an object. -/
def Holds (res : HttpResponse) (fields : List (String × Json)) : Prop :=
  ∃ body, res.json = some body ∧ body.json = .obj fields

/-- The sync was one. -/
def Synced : Prop :=
  Matches handler req ∧ (Ready runtime handler req ∨ HasFunctions handler ∧
    ∃ res fields, Answered runtime handler req res ∧ res.statusCode < 400 ∧ Holds res fields)

/-- A response has the status of the API's answer and its message. -/
structure Forwards (res : HttpResponse) (fields : List (String × Json)) (served : Served) :
    Prop where
  status : served.statusCode = res.statusCode
  message : ∀ message, Json.field fields "error" = some (.str message) →
    ∃ body, served.body = .obj body ∧
      Json.field body "message" = some (.str (.ofList (strip message.toList)))

/-- A success is reported exactly when there was one, and an error of the API
is handed on. -/
structure Truthful (put : Raising Served) : Prop where
  success : (∃ served, put = .ok served ∧ Success served) ↔ Synced runtime handler req
  refusal : ∀ res fields, Answered runtime handler req res → 400 ≤ res.statusCode →
    Holds res fields → ∃ served, put = .ok served ∧ Forwards res fields served

/-- The URL that the server gave can be parsed, and so can an origin with a
scheme that the app is served at. -/
structure Reached (url : String) : Prop where
  parses : Net.Parses runtime.checkNetloc url
  origin : ∀ origin ∈ ConfigLib.getServeOrigin runtime.environ req.serveOrigin,
    Net.hasScheme origin = true → Net.Parses runtime.checkNetloc origin

/-- The app is reached at a URL, every configuration can be dumped, and every
key can be hashed. -/
structure Describable : Prop where
  reached : ∀ url, runtime.syncRequest req.body = .ok url → Reached runtime req url
  configs : ∀ url appUrl configs, runtime.syncRequest req.body = .ok url →
    runtime.createServeUrl req url = .ok appUrl →
    handler.functions.getFunctionConfigs appUrl = .ok configs →
    ∀ config ∈ configs, ∃ dumped, config.toDict = .ok dumped
  keys : ∀ key ∈ handler.keys, key ≠ "" →
    ∃ hash, Transforms.hashSigningKey runtime.crypto key = .ok hash

variable {runtime handler req}

/-! ## In band -/

theorem keyHash_isOk {hash : String → Raising String} {key : Option String} :
    (∃ h, AppHandler.keyHash hash key = .ok h) ↔
      ∀ k ∈ key, k ≠ "" → ∃ h, hash k = .ok h := by
  cases key with
  | none => simp [AppHandler.keyHash]
  | some k =>
    by_cases hk : k = ""
    · simp [AppHandler.keyHash, hk]
    · simp [AppHandler.keyHash, hk, Raising.map_eq_ok]

theorem authenticatedInspection_isOk :
    (∃ inspection, handler.authenticatedInspection runtime req = .ok inspection) ↔
      ∀ key ∈ handler.keys, key ≠ "" →
        ∃ hash, Transforms.hashSigningKey runtime.crypto key = .ok hash := by
  have hkeys : (∀ key ∈ handler.keys, key ≠ "" →
      ∃ hash, Transforms.hashSigningKey runtime.crypto key = .ok hash) ↔
      (∃ h, AppHandler.keyHash (Transforms.hashSigningKey runtime.crypto)
        handler.signingKey = .ok h) ∧
        ∃ h, AppHandler.keyHash (Transforms.hashSigningKey runtime.crypto)
          handler.signingKeyFallback = .ok h := by
    simp only [keyHash_isOk, AppHandler.keys, List.mem_append, Option.mem_toList, or_imp,
      forall_and, Option.mem_def]
  obtain ⟨eventKeyHash, hevent⟩ : ∃ h, AppHandler.keyHash
      (fun key => .ok (Transforms.hashEventKey runtime.crypto key)) handler.eventKey = .ok h :=
    keyHash_isOk.mpr fun k _ _ => ⟨_, rfl⟩
  rw [hkeys]
  constructor
  · rintro ⟨inspection, h⟩
    obtain ⟨_, -, h⟩ := Raising.bind_eq_ok.mp h
    obtain ⟨hash, hhash, h⟩ := Raising.bind_eq_ok.mp h
    obtain ⟨hash', hhash', -⟩ := Raising.bind_eq_ok.mp h
    exact ⟨⟨hash, hhash⟩, hash', hhash'⟩
  · rintro ⟨⟨hash, hhash⟩, hash', hhash'⟩
    simp only [AppHandler.authenticatedInspection, hevent, hhash, hhash', bind, Except.bind]
    exact ⟨_, rfl⟩

theorem getFunctionConfigs_isOk {appUrl : String} :
    (∃ configs, handler.functions.getFunctionConfigs appUrl = .ok configs) ↔
      HasFunctions handler := by
  rw [Functions.getFunctionConfigs, HasFunctions]
  cases handler.functions.values <;> simp

def Succeeds (x : Raising (MaybeError Served)) : Prop :=
  ∃ r, x = .ok r ∧ Success (Served.ofMaybeError r)

theorem not_succeeds_error {e : PyError} : ¬ Succeeds (.ok (.error e)) := by
  rintro ⟨r, hr, hsuccess⟩
  obtain rfl := Except.ok.inj hr
  have hlt : 500 < 300 := hsuccess.2
  omega

theorem not_succeeds_raise {e : PyError} : ¬ Succeeds (.error e) := by
  rintro ⟨r, hr, -⟩
  cases hr

theorem succeeds_plain {res : CommResponse} (h : 200 ≤ res.statusCode ∧ res.statusCode < 300) :
    Succeeds (.ok (.ok res.plain)) := ⟨_, rfl, h⟩

theorem createServeUrl_isOk {url : String} :
    (∃ appUrl, runtime.createServeUrl req url = .ok appUrl) ↔ Reached runtime req url := by
  rw [Runtime.createServeUrl, Net.createServeUrl_isOk]
  exact ⟨fun h => ⟨h.1, h.2⟩, fun h => ⟨h.parses, h.origin⟩⟩

theorem describable_iff {url appUrl : String} {configs : List FunctionConfig}
    (hbody : runtime.syncRequest req.body = .ok url)
    (happUrl : runtime.createServeUrl req url = .ok appUrl)
    (hconfigs : handler.functions.getFunctionConfigs appUrl = .ok configs) :
    Describable runtime handler req ↔
      (∃ functions, configs.mapM FunctionConfig.toDict = .ok functions) ∧
        ∃ inspection, handler.authenticatedInspection runtime req = .ok inspection := by
  rw [exists_mapM_iff, authenticatedInspection_isOk]
  constructor
  · intro h
    exact ⟨h.configs url appUrl configs hbody happUrl hconfigs, h.keys⟩
  · rintro ⟨hdumped, hkeys⟩
    refine ⟨fun url' hbody' => ?_, fun url' appUrl' configs' hbody' happUrl' hconfigs' => ?_, hkeys⟩
    · obtain rfl := Except.ok.inj (hbody.symm.trans hbody')
      exact createServeUrl_isOk.mp ⟨appUrl, happUrl⟩
    · obtain rfl := Except.ok.inj (hbody.symm.trans hbody')
      obtain rfl := Except.ok.inj (happUrl.symm.trans happUrl')
      obtain rfl := Except.ok.inj (hconfigs.symm.trans hconfigs')
      exact hdumped

theorem inBandSync_succeeds {key : String} :
    Succeeds (inBandSync runtime handler req (.ok (some key))) ↔
      (∃ url, runtime.syncRequest req.body = .ok url) ∧ HasFunctions handler ∧
        Describable runtime handler req := by
  cases hbody : runtime.syncRequest req.body with
  | error e => simp [inBandSync, hbody, not_succeeds_error]
  | ok url =>
    cases happUrl : runtime.createServeUrl req url with
    | error e =>
      have hunreached : ¬ Describable runtime handler req := by
        intro h
        obtain ⟨appUrl, hok⟩ := createServeUrl_isOk.mpr (h.reached url hbody)
        cases hok.symm.trans happUrl
      simp [inBandSync, hbody, happUrl, hunreached, bind, Except.bind, not_succeeds_raise]
    | ok appUrl =>
      simp only [inBandSync, hbody, happUrl]
      rw [← @getFunctionConfigs_isOk _ handler appUrl]
      cases hconfigs : handler.functions.getFunctionConfigs appUrl with
      | error e => simp [hconfigs, bind, Except.bind, not_succeeds_error]
      | ok configs =>
        have hinspection : handler.buildInspectionResponse runtime req (.ok (some key)) =
            handler.authenticatedInspection runtime req := rfl
        simp only [hconfigs, hinspection, describable_iff hbody happUrl hconfigs, bind, Except.bind]
        cases handler.authenticatedInspection runtime req with
        | error e => simp [not_succeeds_raise]
        | ok inspection =>
          cases configs.mapM FunctionConfig.toDict with
          | error e => simp [not_succeeds_error]
          | ok functions => simp [succeeds_plain]

/-! ## Out of band -/

theorem parseOutOfBandResponse_succeeds {res : HttpResponse} :
    Succeeds (.ok ((parseOutOfBandResponse res).map CommResponse.plain)) ↔
      ∃ fields, Holds res fields := by
  cases hjson : res.json with
  | none => simp [parseOutOfBandResponse, Holds, hjson, Except.map, not_succeeds_error]
  | some body =>
    cases hbody : body.json <;>
      simp [parseOutOfBandResponse, Holds, hjson, hbody, Except.map, not_succeeds_error,
        succeeds_plain]

theorem createOutOfBandRequest_inl {res : CommResponse}
    (h : createOutOfBandRequest runtime handler req = .ok (.ok (.inl res))) :
    res.statusCode = 400 := by
  obtain ⟨appUrl, -, h⟩ := Raising.bind_eq_ok.mp h
  simp only at h
  split at h
  · simp only [Except.ok.injEq, Sum.inl.injEq] at h
    rw [← h]
    rfl
  · obtain ⟨params, -, h⟩ := Raising.bind_eq_ok.mp h
    split at h <;> simp at h

theorem createOutOfBandRequest_inr {request : HttpRequest}
    (h : createOutOfBandRequest runtime handler req = .ok (.ok (.inr request))) :
    Matches handler req ∧ HasFunctions handler := by
  obtain ⟨appUrl, -, h⟩ := Raising.bind_eq_ok.mp h
  simp only at h
  split at h
  · simp at h
  · rename_i hkind
    obtain ⟨params, -, h⟩ := Raising.bind_eq_ok.mp h
    split at h
    · simp at h
    · simp at h
    · rename_i functions _ hfunctions
      refine ⟨fun kind hgiven => ?_, ?_⟩
      · simpa [hgiven] using hkind
      · rw [functionConfigs] at hfunctions
        obtain ⟨configs, hconfigs, -⟩ := Raising.bind_eq_ok.mp hfunctions
        exact getFunctionConfigs_isOk.mp ⟨configs, hconfigs⟩

theorem Answered.matches {res : HttpResponse} (h : Answered runtime handler req res) :
    Matches handler req ∧ HasFunctions handler := by
  obtain ⟨request, hrequest, -⟩ := h.sent
  exact createOutOfBandRequest_inr hrequest

theorem outOfBandSync_succeeds (hout : ¬ InBand handler req) {key : MaybeError (Option String)}
    (hkey : handler.requestSigningKey runtime req = .ok key) :
    Succeeds (outOfBandSync runtime handler req) ↔
      ∃ res fields, Answered runtime handler req res ∧ Holds res fields := by
  cases hrequest : createOutOfBandRequest runtime handler req with
  | error e =>
    refine iff_of_false ?_ ?_
    · simp [outOfBandSync, hrequest, bind, Except.bind, not_succeeds_raise]
    · rintro ⟨res, fields, ⟨-, -, request, hsent, -⟩, -⟩
      cases hrequest.symm.trans hsent
  | ok prep =>
    rcases prep with e | res | request
    · refine iff_of_false ?_ ?_
      · simp [outOfBandSync, hrequest, bind, Except.bind, not_succeeds_error]
      · rintro ⟨res, fields, ⟨-, -, request, hsent, -⟩, -⟩
        cases hrequest.symm.trans hsent
    · refine iff_of_false ?_ ?_
      · simp only [outOfBandSync, hrequest, bind, Except.bind]
        rintro ⟨r, hr, hsuccess⟩
        obtain rfl := Except.ok.inj hr
        have hstatus : res.statusCode < 300 := hsuccess.2
        rw [createOutOfBandRequest_inl hrequest] at hstatus
        omega
      · rintro ⟨res, fields, ⟨-, -, request, hsent, -⟩, -⟩
        cases hrequest.symm.trans hsent
    · have hanswered : ∀ res, Answered runtime handler req res ↔
          Net.fetchWithAuthFallback runtime.crypto runtime.send request handler.signingKey
            handler.signingKeyFallback = .ok (.ok res) := by
        refine fun res => ⟨?_, fun h => ⟨hout, ⟨key, hkey⟩, request, hrequest, h⟩⟩
        rintro ⟨-, -, request', hsent, h⟩
        cases hrequest.symm.trans hsent
        exact h
      simp only [hanswered, outOfBandSync, hrequest, bind, Except.bind]
      cases hfetch : Net.fetchWithAuthFallback runtime.crypto runtime.send request
          handler.signingKey handler.signingKeyFallback with
      | error e => simp [not_succeeds_raise]
      | ok outcome =>
        cases outcome with
        | error e => simp [not_succeeds_error]
        | ok res => simp [parseOutOfBandResponse_succeeds]

/-! ## Reports -/

theorem sync_succeeds {key : MaybeError (Option String)}
    (hkey : handler.requestSigningKey runtime req = .ok key) :
    Succeeds (sync runtime handler req key) ↔
      Ready runtime handler req ∧ Describable runtime handler req ∨
        ∃ res fields, Answered runtime handler req res ∧ Holds res fields := by
  by_cases hband : InBand handler req
  · have hno : ¬ ∃ res fields, Answered runtime handler req res ∧ Holds res fields := by
      rintro ⟨res, fields, hanswered, -⟩
      exact hanswered.outOfBand hband
    have hrefused : ∀ res : CommResponse, res.statusCode = 401 →
        ¬ Succeeds (.ok (.ok res.plain)) := by
      rintro res hstatus ⟨r, hr, -, hlt⟩
      obtain rfl := Except.ok.inj hr
      have hlt : res.statusCode < 300 := hlt
      omega
    have hunsigned : (∀ k, key ≠ .ok (some k)) → ¬ Ready runtime handler req := by
      rintro hk ⟨-, ⟨k, hk'⟩, -⟩
      exact hk k (Except.ok.inj (hkey.symm.trans hk'))
    rw [or_iff_left hno]
    rcases key with e | - | k
    · have hsync : sync runtime handler req (.error e) = .ok (.ok (CommResponse.plain
          { CommResponse.fromError e with statusCode := 401 })) := if_pos hband
      rw [hsync]
      exact iff_of_false (hrefused _ rfl) fun h => hunsigned (by simp) h.1
    · have hsync : sync runtime handler req (.ok none) = .ok (.ok (CommResponse.plain
          { CommResponse.fromError notSigned with statusCode := 401 })) := if_pos hband
      rw [hsync]
      exact iff_of_false (hrefused _ rfl) fun h => hunsigned (by simp) h.1
    · have hsync : sync runtime handler req (.ok (some k)) =
          inBandSync runtime handler req (.ok (some k)) := if_pos hband
      rw [hsync, inBandSync_succeeds]
      constructor
      · rintro ⟨hbody, hfunctions, hdescribable⟩
        exact ⟨⟨hband, ⟨k, hkey⟩, hbody, hfunctions⟩, hdescribable⟩
      · rintro ⟨hready, hdescribable⟩
        exact ⟨hready.body, hready.functions, hdescribable⟩
  · have hsync : sync runtime handler req key = outOfBandSync runtime handler req := if_neg hband
    have hno : ¬ (Ready runtime handler req ∧ Describable runtime handler req) :=
      fun h => hband h.1.inBand
    rw [hsync, or_iff_right hno, outOfBandSync_succeeds hband hkey]

theorem put_success : (∃ served, handler.put runtime req = .ok served ∧ Success served) ↔
    Ready runtime handler req ∧ Describable runtime handler req ∨
      ∃ res fields, Answered runtime handler req res ∧ Holds res fields := by
  cases hkey : handler.requestSigningKey runtime req with
  | error e =>
    have hraises : handler.put runtime req = .error e := by
      simp only [AppHandler.put, AppHandler.wrap, hkey, bind, Except.bind]
    refine iff_of_false ?_ ?_
    · simp [hraises]
    · rintro (⟨⟨-, ⟨k, hk⟩, -⟩, -⟩ | ⟨res, fields, ⟨-, ⟨k, hk⟩, -⟩, -⟩)
      · cases hkey.symm.trans hk
      · cases hkey.symm.trans hk
  | ok key =>
    rw [← sync_succeeds hkey]
    constructor
    · rintro ⟨served, hserved, hsuccess⟩
      have heq : handler.put runtime req = _ := AppHandler.wrap_eq hkey (fun h => by cases h)
      obtain ⟨x, hx, rfl⟩ := Raising.map_eq_ok.mp (heq.symm.trans hserved)
      have hspec := handler.wrapHandler_spec runtime.toolbox (req.exchange key)
        (Served.ofMaybeError x).toCommResponse
      refine ⟨x, hx, ?_⟩
      rw [Success] at hsuccess ⊢
      rwa [← hspec.2.1]
    · rintro ⟨x, hx, hsuccess⟩
      obtain ⟨served, hserved, -, hstatus⟩ : ∃ served, handler.put runtime req = .ok served ∧
          served.body = (Served.ofMaybeError x).body ∧
          served.statusCode = (Served.ofMaybeError x).statusCode :=
        AppHandler.wrap_answers hkey (fun h => by cases h) hx
      refine ⟨served, hserved, ?_⟩
      rwa [Success, hstatus]

theorem synced_iff : Synced runtime handler req ↔
    Ready runtime handler req ∧ Matches handler req ∨
      ∃ res fields, Answered runtime handler req res ∧ res.statusCode < 400 ∧ Holds res fields := by
  constructor
  · rintro ⟨hmatches, hready | ⟨-, hanswered⟩⟩
    · exact .inl ⟨hready, hmatches⟩
    · exact .inr hanswered
  · rintro (⟨hready, hmatches⟩ | ⟨res, fields, hanswered, hstatus, hholds⟩)
    · exact ⟨hmatches, .inl hready⟩
    · exact ⟨hanswered.matches.1, .inr ⟨hanswered.matches.2, res, fields, hanswered, hstatus,
        hholds⟩⟩

/-- The reports are true exactly when an in-band sync is of the app's own kind,
or cannot be described, and the API does not refuse with an object. -/
theorem truthful_iff :
    (Truthful runtime handler req (handler.put runtime req) ∧
      Truthful runtime handler req (handler.putSync runtime req)) ↔
    (Ready runtime handler req → (Matches handler req ↔ Describable runtime handler req)) ∧
      ∀ res fields, Answered runtime handler req res → Holds res fields → res.statusCode < 400 := by
  have hsame : handler.putSync runtime req = handler.put runtime req := rfl
  rw [hsame, and_self]
  constructor
  · intro h
    have hsuccess := h.success
    rw [put_success, synced_iff] at hsuccess
    refine ⟨fun hready => ?_, fun res fields hanswered hholds => ?_⟩
    · have hno : ∀ res, ¬ Answered runtime handler req res :=
        fun res hanswered => hanswered.outOfBand hready.inBand
      simpa [hready, hno, iff_comm] using hsuccess
    · by_contra hstatus
      obtain ⟨served, hserved, hforwards⟩ := h.refusal res fields hanswered (by omega) hholds
      obtain ⟨served', hserved', hok⟩ := put_success.mpr (.inr ⟨res, fields, hanswered, hholds⟩)
      obtain rfl := Except.ok.inj (hserved.symm.trans hserved')
      have hrefused := hforwards.status
      have hlt := hok.2
      omega
  · rintro ⟨hready, hanswers⟩
    refine ⟨?_, fun res fields hanswered hstatus hholds => ?_⟩
    · rw [put_success, synced_iff]
      refine or_congr (and_congr_right fun h => (hready h).symm) ?_
      refine exists_congr fun res => exists_congr fun fields => and_congr_right fun h => ?_
      exact (and_iff_right_of_imp (hanswers res fields h)).symm
    · exact absurd (hanswers res fields hanswered hholds) (by omega)

/-! A registration that the API refuses. -/

def refusal : HttpResponse :=
  ⟨422, "\x7b\"error\": \"unknown app\"\x7d", some (.obj [("error", .str "unknown app")])⟩

def refused : Runtime Unit := { Sample.runtime with send := fun _ => .ok refusal }

def localApp : AppHandler Unit :=
  { Sample.handler .disable [Sample.fn "f" (fun _ => .ret .null) none] with
    mode := .devServer
    signingKey := none
    keyed := fun h => nomatch h }

def putRequest : CommRequest := { Sample.commRequest "" "" [] with headers := [] }

theorem refusal_not_forwarded :
    Answered refused localApp putRequest refusal ∧ Holds refusal [("error", .str "unknown app")] ∧
      (∃ served, localApp.put refused putRequest = .ok served ∧ served.statusCode = 200) ∧
      ¬ Truthful refused localApp putRequest (localApp.put refused putRequest) := by
  have hanswered : Answered refused localApp putRequest refusal :=
    ⟨by decide, ⟨_, rfl⟩, _, rfl, rfl⟩
  have hholds : Holds refusal [("error", .str "unknown app")] := ⟨_, rfl, rfl⟩
  obtain ⟨served, hserved, hstatus⟩ :
      ∃ served, localApp.put refused putRequest = .ok served ∧ served.statusCode = 200 :=
    ⟨_, rfl, rfl⟩
  refine ⟨hanswered, hholds, ⟨served, hserved, hstatus⟩, fun h => ?_⟩
  obtain ⟨served', hserved', hforwards⟩ := h.refusal refusal _ hanswered (by decide) hholds
  obtain rfl := Except.ok.inj (hserved.symm.trans hserved')
  have hrefused : served.statusCode = 422 := hforwards.status
  omega

end Syncer

end Inngest
