import Inngest.CommHandler

/-!
# Inspection without authentication

`get_sync` describes the app to anyone, and more of it to those who signed the
request. What the others get depends on whether the app has keys and not on
which. A header that the validator cannot read is another matter: it raises.
-/

set_option autoImplicit false

namespace Inngest
open ServerLib Errors Python

namespace AppHandler
variable {σ : Type} (handler : AppHandler σ)

def keys : List String := handler.signingKey.toList ++ handler.signingKeyFallback.toList

def erase (key : Option String) : Option String := key.map fun _ => ""

def keyless : AppHandler σ :=
  { handler with
    eventKey := erase handler.eventKey
    signingKey := erase handler.signingKey
    signingKeyFallback := erase handler.signingKeyFallback
    keyed := fun h => by rw [erase, Option.isSome_map]; exact handler.keyed h }

end AppHandler

namespace Inspection
variable {σ : Type} (runtime : Runtime σ)

/-- A header is missing, or both of its fields can be read where they are. -/
def Readable (headers : Dict String) : Prop :=
  ∀ header ∈ headers.lookup HeaderKey.signature.value,
    (∀ t ∈ firstOf header "t", (int t).isSome = true) ∧
      ∀ s ∈ firstOf header "s", s.toList.all isAscii = true

instance (headers : Dict String) : Decidable (Readable headers) :=
  inferInstanceAs (Decidable (∀ header ∈ headers.lookup HeaderKey.signature.value, _))

/-- None of the keys validates the request. -/
def Unvalidated (req : CommRequest) (keys : List String) : Prop :=
  ∀ key ∈ keys, ∀ body, Transforms.canonicalize runtime.crypto req.body = .ok body →
    Net.validateSig runtime.crypto body req.headerDict .cloud (some key) ≠ .ok (.ok (some key))

def publicFields : List String :=
  ["schema_version", "function_count", "has_event_key", "has_signing_key",
    "has_signing_key_fallback", "mode"]

/-- A response with no signature that names no more than the public fields. -/
structure Anonymous (res : CommResponse) : Prop where
  unsigned : res.headers.lookup HeaderKey.signature.value = none
  fields : ∃ fields, res.body = .obj fields ∧ ∀ field ∈ fields, field.1 ∈ publicFields

/-- Two responses that differ in the timing at most. -/
structure Same (a b : Served) : Prop where
  body : a.body = b.body
  statusCode : a.statusCode = b.statusCode
  headers : ∀ name, name ≠ HeaderKey.serverTiming.value →
    a.headers.lookup name = b.headers.lookup name
  stream : a.stream = none ∧ b.stream = none

/-- Two handlers answer a request alike, and say nothing about their keys. -/
def LeaksNothing (h₁ h₂ : AppHandler σ) (req : CommRequest) (timing : String) : Prop :=
  ∃ r₁ r₂, h₁.getSync runtime req = .ok r₁ ∧
    h₂.getSync runtime { req with timing := timing } = .ok r₂ ∧
    Same r₁ r₂ ∧ Anonymous r₁.toCommResponse ∧ Anonymous r₂.toCommResponse

/-! ## Validation -/

section Validation
variable {runtime} {handler : AppHandler σ} {req : CommRequest} {body : Bytes}
  {headers : Dict String} {key : String}

theorem timestamp_readable {header : String}
    (h : ∀ t ∈ firstOf header "t", (int t).isSome = true) :
    ∃ time, Net.timestamp header = .ok time := by
  rw [Net.timestamp]
  cases ht : firstOf header "t" with
  | none => exact ⟨none, rfl⟩
  | some t =>
    obtain ⟨n, hn⟩ := Option.isSome_iff_exists.mp (h t ht)
    exact ⟨some n, by simp [hn]⟩

theorem compareDigest_ascii {a : String} (ha : a.toList.all isAscii = true) (time : String) :
    Net.compareDigest a (Net.digest runtime.crypto key body time) =
      .ok (a = Net.digest runtime.crypto key body time) := by
  rw [Net.compareDigest, if_pos ⟨ha, Net.digest_hex time |>.isAscii⟩]

theorem validateSig_readable (h : Readable headers) :
    (∃ e, Net.validateSig runtime.crypto body headers .cloud (some key) = .ok (.error e)) ∨
      Net.validateSig runtime.crypto body headers .cloud (some key) = .ok (.ok (some key)) := by
  rw [Net.validateSig, if_neg (by decide)]
  cases hheader : headers.lookup HeaderKey.signature.value with
  | none => exact .inl ⟨_, rfl⟩
  | some header =>
    obtain ⟨ht, hs⟩ := h header hheader
    obtain ⟨time, htime⟩ := timestamp_readable ht
    simp only [htime, bind, Except.bind]
    cases hsignature : firstOf header "s" with
    | none => exact .inl ⟨_, rfl⟩
    | some signature =>
      simp only [compareDigest_ascii (hs signature hsignature)]
      split
      · exact .inr rfl
      · exact .inl ⟨_, rfl⟩

theorem validateSig_unreadable (h : ¬ Readable headers) :
    ∃ e, Net.validateSig runtime.crypto body headers .cloud (some key) = .error e := by
  rw [Net.validateSig, if_neg (by decide)]
  simp only [Readable, not_forall] at h
  obtain ⟨header, hheader, h⟩ := h
  rw [Option.mem_def.mp hheader]
  simp only
  cases htime : Net.timestamp header with
  | error e => exact ⟨e, rfl⟩
  | ok time =>
    have ht : ∀ t ∈ firstOf header "t", (int t).isSome = true := fun t ht => by
      rw [Net.timestamp, Option.mem_def.mp ht] at htime
      cases hint : int t with
      | none => simp [hint] at htime
      | some n => rfl
    have hsignature := not_and.mp h ht
    simp only [not_forall] at hsignature
    obtain ⟨s, hs, hascii⟩ := hsignature
    simp only [Option.mem_def.mp hs, Net.compareDigest, hascii, Bool.false_eq_true, false_and,
      if_false, bind, Except.bind]
    exact ⟨_, rfl⟩

end Validation

/-! ## Responses -/

section Responses
variable (handler : AppHandler σ) (req : CommRequest)

def anonymous : CommResponse :=
  if (req.exchange (.ok none)).serverKind.any (· ≠ handler.mode) then ⟨.obj [], ∅, 403⟩
  else ⟨(Dumped.obj handler.unauthenticatedInspection).json, ∅, 200⟩

def wrappedAnonymous : CommResponse :=
  handler.wrapHandler runtime.toolbox (req.exchange (.ok none)) (anonymous handler req)

theorem unauthenticatedInspection_keyless :
    handler.keyless.unauthenticatedInspection = handler.unauthenticatedInspection := by
  simp [AppHandler.unauthenticatedInspection, AppHandler.keyless, AppHandler.erase]

theorem wrappedAnonymous_keyless :
    wrappedAnonymous runtime handler.keyless req = wrappedAnonymous runtime handler req := by
  have hbody : anonymous handler.keyless req = anonymous handler req := by
    rw [anonymous, anonymous, unauthenticatedInspection_keyless]
    rfl
  rw [wrappedAnonymous, wrappedAnonymous, hbody]
  rfl

theorem anonymous_headers : (anonymous handler req).headers = ∅ := by
  rw [anonymous]
  split <;> rfl

theorem anonymous_fields : ∃ fields, (anonymous handler req).body = .obj fields ∧
    ∀ field ∈ fields, field.1 ∈ publicFields := by
  rw [anonymous]
  split
  · exact ⟨[], rfl, by simp⟩
  · exact ⟨_, rfl, by simp [AppHandler.unauthenticatedInspection, publicFields]⟩

theorem wrappedAnonymous_lookup (name : String) :
    (wrappedAnonymous runtime handler req).headers.lookup name =
      if name = HeaderKey.serverTiming.value then some req.timing
      else (handler.createHeaders runtime.toolbox (some handler.mode)).lookup name := by
  have hkey : (req.exchange (.ok none)).signingKey = none := rfl
  simp only [wrappedAnonymous, CommHandler.wrapHandler, hkey]
  split
  · rename_i h
    rw [h]
    exact AList.lookup_insert _
  · rename_i h
    rw [AList.lookup_insert_ne h, Dict.lookup_merge, anonymous_headers]
    simp

theorem wrappedAnonymous_body :
    (wrappedAnonymous runtime handler req).body = (anonymous handler req).body :=
  (handler.wrapHandler_spec runtime.toolbox (req.exchange (.ok none)) _).1

theorem wrappedAnonymous_statusCode :
    (wrappedAnonymous runtime handler req).statusCode = (anonymous handler req).statusCode :=
  (handler.wrapHandler_spec runtime.toolbox (req.exchange (.ok none)) _).2.1

theorem wrappedAnonymous_anonymous : Anonymous (wrappedAnonymous runtime handler req) where
  unsigned := by
    rw [wrappedAnonymous_lookup, if_neg (by decide), CommHandler.createHeaders,
      Net.lookup_createHeaders]
  fields := by
    rw [wrappedAnonymous_body]
    exact anonymous_fields handler req

end Responses

section Runs
variable {runtime} {handler : AppHandler σ} {req : CommRequest}

theorem getSync_of_unsigned {key : MaybeError (Option String)}
    (hkey : handler.requestSigningKey runtime req = .ok key) (hnone : ∀ k, key ≠ .ok (some k)) :
    handler.getSync runtime req = .ok (wrappedAnonymous runtime handler req).plain := by
  have hexchange : req.exchange key = req.exchange (.ok none) := by
    rcases key with e | (- | k)
    · rfl
    · rfl
    · exact absurd rfl (hnone k)
  have hinspection : handler.buildInspectionResponse runtime req key =
      .ok handler.unauthenticatedInspection := by
    rcases key with e | (- | k)
    · rfl
    · rfl
    · exact absurd rfl (hnone k)
  have hinspect : handler.inspect runtime req key = .ok (.ok (anonymous handler req).plain) := by
    rw [AppHandler.inspect, anonymous, hexchange, hinspection]
    split <;> rfl
  rw [AppHandler.getSync, AppHandler.wrap, hkey]
  simp only [bind, Except.bind, hinspect, hexchange]
  rfl

/-- The requests that the validator reads, as far as it gets. -/
def Answered (runtime : Runtime σ) (req : CommRequest) : Prop :=
  req.isConnect = true ∨ (∃ e, Transforms.canonicalize runtime.crypto req.body = .error e) ∨
    Readable req.headerDict

theorem requestSigningKey_answered (hmode : handler.mode = .cloud)
    (hkeys : Unvalidated runtime req handler.keys) (h : Answered runtime req) :
    ∃ key, handler.requestSigningKey runtime req = .ok key ∧ ∀ k, key ≠ .ok (some k) := by
  rw [AppHandler.requestSigningKey]
  split
  · exact ⟨_, rfl, by simp⟩
  · rename_i hconnect
    rw [Net.validateRequestSig, hmode]
    cases hbody : Transforms.canonicalize runtime.crypto req.body with
    | error e => exact ⟨_, rfl, by simp⟩
    | ok body =>
      have hreadable : Readable req.headerDict := by
        rcases h with h | ⟨e, he⟩ | h
        · exact absurd h hconnect
        · rw [hbody] at he
          simp at he
        · exact h
      obtain ⟨key, hkey⟩ := Option.isSome_iff_exists.mp (handler.keyed hmode)
      have hvalidate : ∀ k ∈ handler.keys, ∃ e,
          Net.validateSig runtime.crypto body req.headerDict .cloud (some k) = .ok (.error e) :=
        fun k hk => (validateSig_readable hreadable).resolve_right (hkeys k hk body hbody)
      obtain ⟨e, he⟩ := hvalidate key (by simp [AppHandler.keys, hkey])
      simp only [hkey, he, bind, Except.bind]
      cases hfallback : handler.signingKeyFallback with
      | none => exact ⟨_, rfl, by simp⟩
      | some fallback =>
        obtain ⟨e, he⟩ := hvalidate fallback (by simp [AppHandler.keys, hfallback])
        exact ⟨_, he, by simp⟩

theorem requestSigningKey_raises (hmode : handler.mode = .cloud) (h : ¬ Answered runtime req) :
    ∃ e, handler.requestSigningKey runtime req = .error e := by
  simp only [Answered, not_or, Bool.not_eq_true, not_exists] at h
  obtain ⟨hconnect, hbody, hreadable⟩ := h
  rw [AppHandler.requestSigningKey, if_neg (by simp [hconnect]), Net.validateRequestSig, hmode]
  cases hcanonicalized : Transforms.canonicalize runtime.crypto req.body with
  | error e => exact absurd hcanonicalized (hbody e)
  | ok body =>
    obtain ⟨key, hkey⟩ := Option.isSome_iff_exists.mp (handler.keyed hmode)
    obtain ⟨e, he⟩ : ∃ e, Net.validateSig runtime.crypto body req.headerDict .cloud (some key) =
      .error e := validateSig_unreadable hreadable
    rw [hkey]
    exact ⟨e, by simp only [he, bind, Except.bind]⟩

theorem getSync_raises (hmode : handler.mode = .cloud) (h : ¬ Answered runtime req) :
    ∃ e, handler.getSync runtime req = .error e := by
  obtain ⟨e, he⟩ := requestSigningKey_raises hmode h
  exact ⟨e, by rw [AppHandler.getSync, AppHandler.wrap, he]; rfl⟩

theorem getSync_answered (hmode : handler.mode = .cloud)
    (hkeys : Unvalidated runtime req handler.keys) (h : Answered runtime req) :
    handler.getSync runtime req = .ok (wrappedAnonymous runtime handler req).plain := by
  obtain ⟨key, hkey, hnone⟩ := requestSigningKey_answered hmode hkeys h
  exact getSync_of_unsigned hkey hnone

end Runs

theorem wrappedAnonymous_same (handler : AppHandler σ) (req : CommRequest) (timing : String) :
    Same (wrappedAnonymous runtime handler req).plain
      (wrappedAnonymous runtime handler { req with timing := timing }).plain where
  body := by
    rw [CommResponse.plain, CommResponse.plain, wrappedAnonymous_body, wrappedAnonymous_body]
    rfl
  statusCode := by
    rw [CommResponse.plain, CommResponse.plain, wrappedAnonymous_statusCode,
      wrappedAnonymous_statusCode]
    rfl
  headers name hname := by
    rw [CommResponse.plain, CommResponse.plain, wrappedAnonymous_lookup, wrappedAnonymous_lookup,
      if_neg hname, if_neg hname]
  stream := ⟨rfl, rfl⟩

/-- Two handlers whose keys do not validate a request answer it alike, and
without a word about the keys, exactly when its header can be read. -/
theorem leaks_nothing_iff {h₁ h₂ : AppHandler σ} {req : CommRequest} (timing : String)
    (halike : h₁.keyless = h₂.keyless) (hmode : h₁.mode = .cloud)
    (hkeys : Unvalidated runtime req (h₁.keys ++ h₂.keys)) :
    LeaksNothing runtime h₁ h₂ req timing ↔ Answered runtime req := by
  have hmode₂ : h₂.mode = .cloud := by
    rw [← hmode]
    exact congrArg (fun h => h.mode) halike.symm
  constructor
  · rintro ⟨r₁, -, hr₁, -⟩
    by_contra h
    obtain ⟨e, he⟩ := getSync_raises hmode h
    rw [he] at hr₁
    simp at hr₁
  · intro h
    have h₁keys : Unvalidated runtime req h₁.keys := fun k hk => hkeys k (by simp [hk])
    have h₂keys : Unvalidated runtime { req with timing := timing } h₂.keys :=
      fun k hk => hkeys k (by simp [hk])
    have hresponse : wrappedAnonymous runtime h₁ req = wrappedAnonymous runtime h₂ req := by
      rw [← wrappedAnonymous_keyless, halike, wrappedAnonymous_keyless]
    refine ⟨_, _, getSync_answered hmode h₁keys h, getSync_answered hmode₂ h₂keys h, ?_,
      wrappedAnonymous_anonymous runtime h₁ req, wrappedAnonymous_anonymous runtime h₂ _⟩
    rw [hresponse]
    exact wrappedAnonymous_same runtime h₂ req timing

/-! A time that is no number, a digest that is no ASCII text, and no header. -/

def asked (signature : String) : CommRequest := Sample.commRequest "" signature []

def unsigned : CommRequest := { Sample.commRequest "" "" [] with headers := [] }

def rekeyed : AppHandler Unit :=
  { Sample.handler .disable [] with
    signingKey := some "signkey-test-44556677"
    keyed := fun _ => rfl }

/-- A header that cannot be read makes `get_sync` raise. -/
theorem inspection_raises :
    (Sample.handler .disable []).keyless = rekeyed.keyless ∧
      (∀ signature ∈ ["t=soon&s=00", "t=1700000000&s=é"],
        Unvalidated Sample.runtime (asked signature)
          ((Sample.handler .disable []).keys ++ rekeyed.keys) ∧
        (∃ e, (Sample.handler .disable []).getSync Sample.runtime (asked signature) = .error e) ∧
        ¬ LeaksNothing Sample.runtime (Sample.handler .disable []) rekeyed (asked signature)
          "") := by
  have hmode : (Sample.handler .disable []).mode = .cloud := rfl
  refine ⟨rfl, fun signature hsignature => ?_⟩
  have hreadable : ¬ Readable (asked signature).headerDict := by
    rcases List.mem_pair.mp hsignature with rfl | rfl <;> decide +kernel
  have hanswered : ¬ Answered Sample.runtime (asked signature) := by
    rintro (hconnect | ⟨e, hbody⟩ | h)
    · exact absurd hconnect (by simp [asked, Sample.commRequest])
    · exact absurd hbody (by simp [asked, Sample.commRequest, Transforms.canonicalize, encode])
    · exact hreadable h
  obtain ⟨e, he⟩ := getSync_raises hmode hanswered
  refine ⟨fun key _ body _ h => ?_, ⟨e, he⟩, ?_⟩
  · obtain ⟨e, he⟩ := validateSig_unreadable hreadable
    rw [he] at h
    simp at h
  · rintro ⟨r, -, hr, -⟩
    rw [he] at hr
    simp at hr

theorem leaks_nothing_iff_unsigned :
    LeaksNothing Sample.runtime (Sample.handler .disable []) rekeyed unsigned "1 ms" := by
  have hkeys : Unvalidated Sample.runtime unsigned
      ((Sample.handler .disable []).keys ++ rekeyed.keys) := by
    rintro key - body - h
    simp [Net.validateSig, unsigned, CommRequest.headerDict, Sample.commRequest,
      Net.normalizeHeaders, Net.headerDict] at h
  have halike : (Sample.handler .disable []).keyless = rekeyed.keyless := rfl
  exact (leaks_nothing_iff Sample.runtime "1 ms" halike rfl hkeys).mpr
    (.inr (.inr (by decide +kernel)))

end Inspection

end Inngest
