import Inngest.Validation

/-!
# What is signed validates

`sign_request` stands for the server: it signs the canonical body with a time.
The validation reads the time back from the header and signs again. Zero is the
one time that it leaves out.
-/

set_option autoImplicit false

namespace Inngest
open ServerLib Errors Python

namespace Net
open Transforms

section Signing
variable (crypto : Crypto) (clock : Clock)

def decimal (n : ℤ) : Raising String :=
  if (toString n.natAbs).length ≤ maxStrDigits then .ok (toString n)
  else .error (exception "ValueError"
    "Exceeds the limit (4300 digits) for integer string conversion; use sys.set_int_max_str_digits() to increase the limit")

def signature (body : Bytes) (signingKey : String) (unixMs : ℤ) : Raising String :=
  (decimal unixMs).map fun time => "t=" ++ time ++ "&s=" ++ digest crypto signingKey body time

def signRequest (body : Bytes) (signingKey : String) (unixMs : Option ℤ) : Raising String :=
  match canonicalize crypto body with
  | .error e => .error e
  | .ok canonical => signature crypto canonical signingKey (unixMs.getD clock.seconds)

def signResponseAt (body : Bytes) (signingKey : String) (unixMs : Option ℤ) : Raising String :=
  signature crypto body signingKey (unixMs.getD clock.seconds)

/-! ## The law -/

/-- A signed request is accepted with its key, in every text of the same JSON
value: as the primary key, and as the fallback of a primary key that fails. -/
def RequestValidates (signingKey : String) (unixMs : ℤ) (body : Bytes) : Prop :=
  ∃ header, signRequest crypto clock body signingKey (some unixMs) = .ok header ∧
    ∀ headers : Dict String, headers.lookup HeaderKey.signature.value = some header →
    ∀ sent, canonicalize crypto sent = canonicalize crypto body →
      (∀ fallback, validateRequestSig crypto sent headers .cloud (some signingKey) fallback =
        .ok (.ok (some signingKey))) ∧
      ∀ primary e, validateRequestSig crypto sent headers .cloud primary none = .ok (.error e) →
        validateRequestSig crypto sent headers .cloud primary (some signingKey) =
          .ok (.ok (some signingKey))

/-- A signed response is accepted, and nothing else is unless the MAC has
collisions. -/
def ResponseValidates (signingKey : String) (unixMs : ℤ) (body : Bytes) : Prop :=
  ∃ header, signResponseAt crypto clock body signingKey (some unixMs) = .ok header ∧
    ∀ headers : Dict String, headers.lookup HeaderKey.signature.value = some header →
      validateResponseSig crypto body headers .cloud signingKey = .ok (.ok (some signingKey)) ∧
      (Function.Injective (crypto.hmac (encode (removeSigningKeyPrefix crypto signingKey))) →
        ∀ sent, validateResponseSig crypto sent headers .cloud signingKey =
          .ok (.ok (some signingKey)) → sent = body)

end Signing

/-! ## The header that was signed -/

section Law
variable {crypto : Crypto} {clock : Clock} {key header : String} {unixMs : ℤ}
  {body canonical : Bytes} {headers : Dict String}

theorem decimal_eq_ok {time : String} : decimal unixMs = .ok time ↔
    (toString unixMs.natAbs).length ≤ maxStrDigits ∧ toString unixMs = time := by
  by_cases hlength : (toString unixMs.natAbs).length ≤ maxStrDigits
  · rw [decimal, if_pos hlength]
    simp only [Except.ok.injEq, hlength, true_and]
  · rw [decimal, if_neg hlength]
    simp only [reduceCtorEq, hlength, false_and]

structure SignedAt (crypto : Crypto) (key : String) (unixMs : ℤ) (body : Bytes) (header : String) :
    Prop where
  time : timestamp header = .ok (some unixMs)
  digest : firstOf header "s" = some (Net.digest crypto key body (toString unixMs))

theorem signedAt_of_signature (h : signature crypto body key unixMs = .ok header) :
    SignedAt crypto key unixMs body header := by
  obtain ⟨time, htime, rfl⟩ := Raising.map_eq_ok.mp h
  obtain ⟨hlength, rfl⟩ := decimal_eq_ok.mp htime
  have hne : (toString unixMs).toList ≠ [] := by
    cases unixMs with
    | ofNat m => exact toString_ne_nil m
    | negSucc m =>
      rw [show (toString (Int.negSucc m)).toList = '-' :: (toString (m + 1)).toList from
        String.toList_append]
      simp
  have hquery : parseQsl ("t=" ++ toString unixMs ++ "&s=" ++
      Net.digest crypto key body (toString unixMs)) = _ :=
    parseQsl_signature (plain_toString unixMs) hne (toString unixMs)
  have ht : firstOf ("t=" ++ toString unixMs ++ "&s=" ++
      Net.digest crypto key body (toString unixMs)) "t" = some (toString unixMs) := by
    rw [firstOf, hquery]
    rfl
  refine ⟨?_, ?_⟩
  · rw [timestamp, ht]
    simp only [int_toString_int hlength, Option.elim_some]
  · rw [firstOf, hquery]
    rfl

theorem validateSig_signed (h : SignedAt crypto key unixMs body header)
    (hheader : headers.lookup HeaderKey.signature.value = some header) (sent : Bytes)
    (signingKey : String) :
    validateSig crypto sent headers .cloud (some signingKey) =
      if Net.digest crypto key body (toString unixMs) =
          Net.digest crypto signingKey sent (signedTime (some unixMs))
        then .ok (.ok (some signingKey)) else .ok (.error sigVerificationFailedError) :=
  validateSig_digest hheader h.time h.digest (digest_hex _).isAscii signingKey

theorem signedTime_of_ne_zero (h : unixMs ≠ 0) : signedTime (some unixMs) = toString unixMs :=
  if_neg h

def SameAsSigned (crypto : Crypto) (key : String) (unixMs : ℤ) (body : Bytes) : Prop :=
  Net.digest crypto key body (toString unixMs) =
    Net.digest crypto key body (signedTime (some unixMs))

theorem sameAsSigned_iff : SameAsSigned crypto key unixMs body ↔
    unixMs = 0 → Net.digest crypto key body "0" = Net.digest crypto key body "" := by
  by_cases hzero : unixMs = 0
  · subst hzero
    exact ⟨fun h _ => h, fun h => h rfl⟩
  · simp [SameAsSigned, signedTime_of_ne_zero hzero, hzero]

theorem signature_eq_ok (crypto : Crypto)
    (hlength : (toString unixMs.natAbs).length ≤ maxStrDigits) (key : String) (body : Bytes) :
    ∃ header, signature crypto body key unixMs = .ok header := by
  rw [signature, decimal, if_pos hlength]
  exact ⟨_, rfl⟩

theorem length_of_signature (h : signature crypto body key unixMs = .ok header) :
    (toString unixMs.natAbs).length ≤ maxStrDigits := by
  obtain ⟨time, htime, -⟩ := Raising.map_eq_ok.mp h
  exact (decimal_eq_ok.mp htime).1

theorem validateSig_same (h : SignedAt crypto key unixMs body header)
    (hheader : headers.lookup HeaderKey.signature.value = some header)
    (hsame : SameAsSigned crypto key unixMs body) :
    validateSig crypto body headers .cloud (some key) = .ok (.ok (some key)) :=
  (validateSig_signed h hheader body key).trans (if_pos hsame)

theorem validateSig_differs (h : SignedAt crypto key unixMs body header)
    (hheader : headers.lookup HeaderKey.signature.value = some header)
    (hdiffers : ¬ SameAsSigned crypto key unixMs body) :
    validateSig crypto body headers .cloud (some key) = .ok (.error sigVerificationFailedError) :=
  (validateSig_signed h hheader body key).trans (if_neg hdiffers)

theorem requestValidates_iff (hbody : canonicalize crypto body = .ok canonical) :
    RequestValidates crypto clock key unixMs body ↔
      (toString unixMs.natAbs).length ≤ maxStrDigits ∧
        SameAsSigned crypto key unixMs canonical := by
  have hsign : signRequest crypto clock body key (some unixMs) =
      signature crypto canonical key unixMs := by
    rw [signRequest, hbody]
    rfl
  constructor
  · rintro ⟨header, hheader, hlaw⟩
    have hsigned := signedAt_of_signature (hsign.symm.trans hheader)
    refine ⟨length_of_signature (hsign.symm.trans hheader), ?_⟩
    have hlookup : ((∅ : Dict String).insert HeaderKey.signature.value header).lookup
        HeaderKey.signature.value = some header := AList.lookup_insert _
    have hvalid := (hlaw _ hlookup body rfl).1 none
    by_contra hdiffers
    rw [validateRequestSig_canonical hbody, validateSig_differs hsigned hlookup hdiffers] at hvalid
    cases hvalid
  · rintro ⟨hlength, hsame⟩
    obtain ⟨header, hheader⟩ := signature_eq_ok crypto hlength key canonical
    have hsigned := signedAt_of_signature hheader
    refine ⟨header, hsign.trans hheader, fun headers hlookup sent hsent => ?_⟩
    have hcanonical := hsent.trans hbody
    have hkey := validateSig_same hsigned hlookup hsame
    refine ⟨fun fallback => ?_, fun primary e hprimary => ?_⟩
    · rw [validateRequestSig_canonical hcanonical, hkey]
      cases fallback <;> rfl
    · have hfirst : validateSig crypto canonical headers .cloud primary = .ok (.error e) := by
        rw [validateRequestSig_canonical hcanonical] at hprimary
        cases hresult : validateSig crypto canonical headers .cloud primary with
        | error e' =>
          rw [hresult] at hprimary
          cases hprimary
        | ok result =>
          rw [hresult] at hprimary
          cases result <;> exact hprimary
      rw [validateRequestSig_canonical hcanonical, hfirst]
      exact hkey

theorem responseValidates_iff : ResponseValidates crypto clock key unixMs body ↔
    (toString unixMs.natAbs).length ≤ maxStrDigits ∧ SameAsSigned crypto key unixMs body := by
  constructor
  · rintro ⟨header, hheader, hlaw⟩
    have hsigned := signedAt_of_signature hheader
    refine ⟨length_of_signature hheader, ?_⟩
    have hlookup : ((∅ : Dict String).insert HeaderKey.signature.value header).lookup
        HeaderKey.signature.value = some header := AList.lookup_insert _
    have hvalid := (hlaw _ hlookup).1
    by_contra hdiffers
    rw [validateResponseSig, validateSig_differs hsigned hlookup hdiffers] at hvalid
    cases hvalid
  · rintro ⟨hlength, hsame⟩
    obtain ⟨header, hheader⟩ := signature_eq_ok crypto hlength key body
    have hsigned := signedAt_of_signature hheader
    refine ⟨header, hheader, fun headers hlookup => ⟨?_, fun hinjective sent hsent => ?_⟩⟩
    · exact validateSig_same hsigned hlookup hsame
    · have hdigest : Net.digest crypto key body (toString unixMs) =
          Net.digest crypto key sent (signedTime (some unixMs)) := by
        by_contra hdiffers
        have hfailed := (validateSig_signed hsigned hlookup sent key).trans (if_neg hdiffers)
        cases hfailed.symm.trans hsent
      exact (List.append_cancel_right (hinjective (hsame.symm.trans hdigest))).symm

/-- What is signed validates exactly when the time can be written, and either is
not zero or makes no difference to the digests. -/
theorem validates_iff {response : Bytes} (hbody : canonicalize crypto body = .ok canonical) :
    RequestValidates crypto clock key unixMs body ∧
        ResponseValidates crypto clock key unixMs response ↔
      (toString unixMs.natAbs).length ≤ maxStrDigits ∧
        (unixMs = 0 → Net.digest crypto key canonical "0" = Net.digest crypto key canonical "" ∧
          Net.digest crypto key response "0" = Net.digest crypto key response "") := by
  rw [requestValidates_iff hbody, responseValidates_iff, sameAsSigned_iff, sameAsSigned_iff,
    ← and_and_left, imp_and]

end Law

/-! The time of zero, and another one. -/

def sampleBody : Bytes := encode "null"

/-- What the server signs at the time of zero is refused. -/
theorem zero_not_valid :
    ¬ RequestValidates Sample.cryptography Sample.clock Sample.signingKey 0 sampleBody ∧
      ¬ ResponseValidates Sample.cryptography Sample.clock Sample.signingKey 0 sampleBody ∧
      (do
        let header ← signRequest Sample.cryptography Sample.clock sampleBody Sample.signingKey
          (some 0)
        validateRequestSig Sample.cryptography sampleBody (sampleHeaders header) .cloud
          (some Sample.signingKey) none) = .ok (.error sigVerificationFailedError) := by
  have hdiffers : ¬ SameAsSigned Sample.cryptography Sample.signingKey 0 sampleBody := by
    rw [sameAsSigned_iff]
    decide +kernel
  refine ⟨fun h => hdiffers ((requestValidates_iff rfl).mp h).2,
    fun h => hdiffers (responseValidates_iff.mp h).2, ?_⟩
  decide +kernel

theorem validates_iff_sample :
    RequestValidates Sample.cryptography Sample.clock Sample.signingKey 1700000000 sampleBody ∧
      ResponseValidates Sample.cryptography Sample.clock Sample.signingKey 1700000000 sampleBody :=
  (validates_iff rfl).mpr ⟨by decide, by decide⟩

end Net

end Inngest
