import Inngest.Signature

/-!
# What validates

A request is to be accepted for the first of two keys under which the header's
digest is the one of the canonical body and the header's time. The validation
answers so when it can read the header: `int` and `hmac.compare_digest` raise on
texts that they refuse, and a time of zero is left out of what is signed.
-/

set_option autoImplicit false

namespace Inngest
open ServerLib Errors Python

namespace Net
open Transforms

/-! ## The specification -/

/-- The choice between two keys, the first of which takes precedence. -/
inductive Verdict (accepted : String → Prop) (signingKey fallback : Option String) :
    MaybeError (Option String) → Prop
  | primary {key : String} : signingKey = some key → accepted key →
      Verdict accepted signingKey fallback (.ok (some key))
  | fallback {key : String} : (∀ k, signingKey = some k → ¬ accepted k) → fallback = some key →
      accepted key → Verdict accepted signingKey fallback (.ok (some key))
  | refused {e : PyError} : (∀ k, signingKey = some k → ¬ accepted k) →
      (∀ k, fallback = some k → ¬ accepted k) → Verdict accepted signingKey fallback (.error e)

/-- The decimal of the time that a header names, and nothing when it has none. -/
def claimedTime (header : String) : Option String :=
  match firstOf header "t" with
  | none => some ""
  | some t => (int t).map toString

section Specification
variable (crypto : Crypto)

/-- The header is a signature of the body under the key. -/
def Signs (canonical : Bytes) (headers : Dict String) (key : String) : Prop :=
  ∃ header time, headers.lookup HeaderKey.signature.value = some header ∧
    claimedTime header = some time ∧ firstOf header "s" = some (digest crypto key canonical time)

/-- The validation of a request returns what it should. -/
def Exact (body : Bytes) (headers : Dict String) (signingKey fallback : Option String) : Prop :=
  ∃ result, validateRequestSig crypto body headers .cloud signingKey fallback = .ok result ∧
    match canonicalize crypto body with
    | .error _ => ∃ e, result = .error e
    | .ok canonical => Verdict (Signs crypto canonical headers) signingKey fallback result

end Specification

/-! ## The condition -/

def Accepts (accepted : String → Prop) (key : Option String) : Prop :=
  ∃ k, key = some k ∧ accepted k

/-- Two ways to accept keys come to the same verdict. -/
def SameVerdict (accepted accepted' : String → Prop) (signingKey fallback : Option String) : Prop :=
  (Accepts accepted signingKey ↔ Accepts accepted' signingKey) ∧
    (Accepts accepted signingKey ∨ (Accepts accepted fallback ↔ Accepts accepted' fallback))

/-- A header that the code can read: `t` is an integer; `s` is ASCII, or compared
to nothing; and when `t` is zero it makes no difference whether it is signed. -/
structure Readable (crypto : Crypto) (canonical : Bytes) (header : String)
    (signingKey fallback : Option String) : Prop where
  time : ∀ t, firstOf header "t" = some t → (int t).isSome = true
  ascii : signingKey.isSome = true ∨ fallback.isSome = true →
    ∀ s, firstOf header "s" = some s → s.toList.all isAscii = true
  zero : ∀ t s, firstOf header "t" = some t → int t = some 0 → firstOf header "s" = some s →
    SameVerdict (fun key => s = digest crypto key canonical "")
      (fun key => s = digest crypto key canonical "0") signingKey fallback

theorem SameVerdict.refl (accepted : String → Prop) (signingKey fallback : Option String) :
    SameVerdict accepted accepted signingKey fallback :=
  ⟨Iff.rfl, .inr Iff.rfl⟩

theorem Verdict.iff_same {accepted accepted' : String → Prop} {signingKey fallback : Option String}
    {result : MaybeError (Option String)} (h : Verdict accepted signingKey fallback result) :
    Verdict accepted' signingKey fallback result ↔
      SameVerdict accepted accepted' signingKey fallback := by
  have hnot : ∀ {P : String → Prop} {key : Option String}, (∀ k, key = some k → ¬ P k) ↔
      ¬ Accepts P key := by
    intro P key
    simp [Accepts]
  cases h with
  | @primary key hkey hacc =>
    have hthis : Accepts accepted signingKey := ⟨key, hkey, hacc⟩
    constructor
    · intro h'
      cases h' with
      | primary hkey' hacc' => exact ⟨iff_of_true hthis ⟨_, hkey', hacc'⟩, .inl hthis⟩
      | fallback hnone hkey' hacc' => exact absurd hacc' (hnone _ hkey)
    · rintro ⟨hsame, -⟩
      obtain ⟨k, hk, hacc'⟩ := hsame.mp hthis
      obtain rfl : key = k := Option.some.inj (hkey.symm.trans hk)
      exact .primary hkey hacc'
  | @fallback key hnone hkey hacc =>
    have hfirst : ¬ Accepts accepted signingKey := hnot.mp hnone
    have hthis : Accepts accepted fallback := ⟨key, hkey, hacc⟩
    constructor
    · intro h'
      cases h' with
      | primary hkey' hacc' => exact absurd hacc (hnone _ hkey')
      | fallback hnone' hkey' hacc' =>
        exact ⟨iff_of_false hfirst (hnot.mp hnone'), .inr (iff_of_true hthis ⟨_, hkey', hacc'⟩)⟩
    · rintro ⟨hsame, hor⟩
      obtain ⟨k, hk, hacc'⟩ := (hor.resolve_left hfirst).mp hthis
      obtain rfl : key = k := Option.some.inj (hkey.symm.trans hk)
      exact .fallback (hnot.mpr (mt hsame.mpr hfirst)) hkey hacc'
  | refused hnone hnone' =>
    have hfirst : ¬ Accepts accepted signingKey := hnot.mp hnone
    have hsecond : ¬ Accepts accepted fallback := hnot.mp hnone'
    constructor
    · intro h'
      cases h' with
      | refused h₁ h₂ =>
        exact ⟨iff_of_false hfirst (hnot.mp h₁), .inr (iff_of_false hsecond (hnot.mp h₂))⟩
    · rintro ⟨hsame, hor⟩
      exact .refused (hnot.mpr (mt hsame.mpr hfirst))
        (hnot.mpr (mt (hor.resolve_left hfirst).mpr hsecond))

section Proofs
variable {crypto : Crypto} {body canonical : Bytes} {headers : Dict String} {header : String}
  {signingKey fallback : Option String} {time : Option ℤ} {s : String}

/-! ## One key -/

theorem validateSig_header (hheader : headers.lookup HeaderKey.signature.value = some header)
    (ht : timestamp header = .ok time) (key : Option String) :
    validateSig crypto canonical headers .cloud key = match key, firstOf header "s" with
      | none, _ => .ok (.error signingKeyMissing)
      | some _, none => .ok (.error headerMalformed)
      | some key, some signature =>
        (compareDigest signature (digest crypto key canonical (signedTime time))).map fun same =>
          if same then .ok (some key) else .error sigVerificationFailedError := by
  rw [validateSig, if_neg (by decide), hheader]
  simp only [ht, bind, Except.bind]
  cases key with
  | none => rfl
  | some key =>
    cases firstOf header "s" with
    | none => rfl
    | some signature =>
      simp only
      cases compareDigest signature (digest crypto key canonical (signedTime time)) with
      | error e => rfl
      | ok same => cases same <;> rfl

theorem validateSig_raises (hheader : headers.lookup HeaderKey.signature.value = some header)
    {e : PyError} (ht : timestamp header = .error e) (key : Option String) :
    validateSig crypto canonical headers .cloud key = .error e := by
  rw [validateSig, if_neg (by decide), hheader]
  simp only [ht]
  rfl

theorem validateSig_digest (hheader : headers.lookup HeaderKey.signature.value = some header)
    (ht : timestamp header = .ok time) (hs : firstOf header "s" = some s)
    (hascii : s.toList.all isAscii = true) (key : String) :
    validateSig crypto canonical headers .cloud (some key) =
      if s = digest crypto key canonical (signedTime time) then .ok (.ok (some key))
      else .ok (.error sigVerificationFailedError) := by
  rw [validateSig_header hheader ht, hs]
  simp only [compareDigest, hascii, (digest_hex _).isAscii, and_self, if_true, Except.map]
  split <;> simp_all

theorem validateSig_ascii (crypto : Crypto) (canonical : Bytes)
    (hheader : headers.lookup HeaderKey.signature.value = some header)
    (ht : timestamp header = .ok time) (hs : firstOf header "s" = some s)
    (hascii : ¬ s.toList.all isAscii = true) (key : String) :
    ∃ e, validateSig crypto canonical headers .cloud (some key) = .error e := by
  rw [validateSig_header hheader ht, hs]
  simp [compareDigest, hascii, Except.map]

/-! ## Two keys -/

theorem validateRequestSig_canonical (hbody : canonicalize crypto body = .ok canonical) :
    validateRequestSig crypto body headers .cloud signingKey fallback =
      (validateSig crypto canonical headers .cloud signingKey).bind fun result =>
        match result, fallback with
        | .error _, some key => validateSig crypto canonical headers .cloud (some key)
        | result, _ => .ok result := by
  rw [validateRequestSig, hbody]
  rfl

theorem validateRequestSig_verdict (hbody : canonicalize crypto body = .ok canonical)
    {accepted : String → Prop}
    (hnone : ∃ e, validateSig crypto canonical headers .cloud none = .ok (.error e))
    (hkey : ∀ key, signingKey = some key ∨ fallback = some key →
      accepted key ∧ validateSig crypto canonical headers .cloud (some key) = .ok (.ok (some key)) ∨
        ¬ accepted key ∧
          ∃ e, validateSig crypto canonical headers .cloud (some key) = .ok (.error e)) :
    ∃ result, validateRequestSig crypto body headers .cloud signingKey fallback = .ok result ∧
      Verdict accepted signingKey fallback result := by
  rw [validateRequestSig_canonical hbody]
  -- The fallback is asked once the first key is refused.
  have hsecond : (∀ k, signingKey = some k → ¬ accepted k) → ∀ e, ∃ result,
      fallback.elim (.ok (.error e))
          (fun key => validateSig crypto canonical headers .cloud (some key)) = .ok result ∧
        Verdict accepted signingKey fallback result := by
    intro hfirst e
    cases hfallback : fallback with
    | none => exact ⟨_, rfl, .refused hfirst (by simp)⟩
    | some key =>
      rcases hkey key (.inr hfallback) with ⟨hacc, hvalid⟩ | ⟨hacc, e', hvalid⟩
      · exact ⟨_, hvalid, .fallback hfirst rfl hacc⟩
      · exact ⟨_, hvalid, .refused hfirst fun k hk => Option.some.inj hk ▸ hacc⟩
  cases hsigning : signingKey with
  | none =>
    obtain ⟨e, he⟩ := hnone
    obtain ⟨result, hresult, hverdict⟩ := hsecond (by simp [hsigning]) e
    rw [he]
    exact ⟨result, by rw [← hresult]; cases fallback <;> rfl, hsigning ▸ hverdict⟩
  | some key =>
    rcases hkey key (.inl hsigning) with ⟨hacc, hvalid⟩ | ⟨hacc, e, hvalid⟩
    · rw [hvalid]
      exact ⟨.ok (some key), by cases fallback <;> rfl, .primary rfl hacc⟩
    · obtain ⟨result, hresult, hverdict⟩ := hsecond (by simpa [hsigning] using hacc) e
      rw [hvalid]
      exact ⟨result, by rw [← hresult]; cases fallback <;> rfl, hsigning ▸ hverdict⟩

/-! ## The two ways to fail -/

theorem timestamp_ok (h : timestamp header = .ok time) :
    firstOf header "t" = none ∧ time = none ∨
      ∃ t n, firstOf header "t" = some t ∧ int t = some n ∧ time = some n := by
  rw [timestamp] at h
  cases ht : firstOf header "t" with
  | none =>
    rw [ht] at h
    exact .inl ⟨rfl, (Except.ok.inj h).symm⟩
  | some t =>
    rw [ht] at h
    cases hn : int t with
    | none => simp [hn] at h
    | some n => exact .inr ⟨t, n, rfl, hn, by simpa [hn, eq_comm] using h⟩

theorem timestamp_error {e : PyError} (h : timestamp header = .error e) :
    ∃ t, firstOf header "t" = some t ∧ int t = none := by
  rw [timestamp] at h
  cases ht : firstOf header "t" with
  | none => simp [ht] at h
  | some t =>
    rw [ht] at h
    cases hn : int t with
    | none => exact ⟨t, rfl, hn⟩
    | some n => simp [hn] at h

theorem isSome_of_timestamp (h : timestamp header = .ok time) {t : String}
    (hfirst : firstOf header "t" = some t) : (int t).isSome = true := by
  rcases timestamp_ok h with ⟨hnone, -⟩ | ⟨t', n, hsome, hn, -⟩
  · cases hnone.symm.trans hfirst
  · obtain rfl : t' = t := Option.some.inj (hsome.symm.trans hfirst)
    rw [hn]
    rfl

theorem claimedTime_ok (h : timestamp header = .ok time) :
    claimedTime header = some (time.elim "" toString) := by
  rw [claimedTime]
  rcases timestamp_ok h with ⟨ht, rfl⟩ | ⟨t, n, ht, hn, rfl⟩
  · rw [ht]
    rfl
  · rw [ht]
    simp [hn]

theorem signs_iff (hheader : headers.lookup HeaderKey.signature.value = some header)
    (ht : timestamp header = .ok time) (hs : firstOf header "s" = some s) :
    Signs crypto canonical headers =
      fun key => s = digest crypto key canonical (time.elim "" toString) := by
  funext key
  rw [Signs, eq_iff_iff]
  constructor
  · rintro ⟨header', time', hheader', htime', hs'⟩
    obtain rfl : header = header' := Option.some.inj (hheader.symm.trans hheader')
    obtain rfl := Option.some.inj ((claimedTime_ok ht).symm.trans htime')
    exact Option.some.inj (hs.symm.trans hs')
  · rintro rfl
    exact ⟨header, _, hheader, claimedTime_ok ht, hs⟩

theorem raises_not_exact {e : PyError}
    (h : validateRequestSig crypto body headers .cloud signingKey fallback = .error e) :
    ¬ Exact crypto body headers signingKey fallback := by
  rintro ⟨result, hresult, -⟩
  cases h.symm.trans hresult

theorem raises_of_not_ascii (hbody : canonicalize crypto body = .ok canonical)
    (hheader : headers.lookup HeaderKey.signature.value = some header)
    (ht : timestamp header = .ok time) (hs : firstOf header "s" = some s)
    (hascii : ¬ s.toList.all isAscii = true)
    (hkeys : signingKey.isSome = true ∨ fallback.isSome = true) :
    ∃ e, validateRequestSig crypto body headers .cloud signingKey fallback = .error e := by
  rw [validateRequestSig_canonical hbody]
  cases signingKey with
  | some key =>
    obtain ⟨e, he⟩ := validateSig_ascii crypto canonical hheader ht hs hascii key
    exact ⟨e, by rw [he]; rfl⟩
  | none =>
    obtain ⟨key, rfl⟩ := Option.isSome_iff_exists.mp (hkeys.resolve_left (by simp))
    obtain ⟨e, he⟩ := validateSig_ascii crypto canonical hheader ht hs hascii key
    have hnone : validateSig crypto canonical headers .cloud none =
        .ok (.error signingKeyMissing) :=
      validateSig_header hheader ht none
    rw [hnone]
    exact ⟨e, he⟩

/-! ## Exactness -/

theorem exact_of_unreadable (hbody : ∀ canonical, canonicalize crypto body ≠ .ok canonical) :
    Exact crypto body headers signingKey fallback := by
  cases h : canonicalize crypto body with
  | error e => exact ⟨.error e, by rw [validateRequestSig, h], by rw [h]; exact ⟨e, rfl⟩⟩
  | ok canonical => exact absurd h (hbody canonical)

theorem exact_canonical (hbody : canonicalize crypto body = .ok canonical) :
    Exact crypto body headers signingKey fallback ↔
      ∃ result, validateRequestSig crypto body headers .cloud signingKey fallback = .ok result ∧
        Verdict (Signs crypto canonical headers) signingKey fallback result := by
  rw [Exact, hbody]

theorem exact_of_refused (hbody : canonicalize crypto body = .ok canonical)
    (hsigns : ∀ key, signingKey = some key ∨ fallback = some key →
      ¬ Signs crypto canonical headers key)
    (hnone : ∃ e, validateSig crypto canonical headers .cloud none = .ok (.error e))
    (hkey : ∀ key, signingKey = some key ∨ fallback = some key →
      ∃ e, validateSig crypto canonical headers .cloud (some key) = .ok (.error e)) :
    Exact crypto body headers signingKey fallback :=
  (exact_canonical hbody).mpr (validateRequestSig_verdict hbody hnone fun key hk =>
    .inr ⟨hsigns key hk, hkey key hk⟩)

theorem exact_iff_same (hbody : canonicalize crypto body = .ok canonical)
    (hheader : headers.lookup HeaderKey.signature.value = some header)
    (ht : timestamp header = .ok time) (hs : firstOf header "s" = some s)
    (hascii : s.toList.all isAscii = true) :
    Exact crypto body headers signingKey fallback ↔
      SameVerdict (fun key => s = digest crypto key canonical (signedTime time))
        (fun key => s = digest crypto key canonical (time.elim "" toString))
        signingKey fallback := by
  have hverdict : ∃ result,
      validateRequestSig crypto body headers .cloud signingKey fallback = .ok result ∧
        Verdict (fun key => s = digest crypto key canonical (signedTime time)) signingKey fallback
          result := by
    refine validateRequestSig_verdict hbody ⟨_, validateSig_header hheader ht none⟩ fun key _ => ?_
    rw [validateSig_digest hheader ht hs hascii]
    by_cases hsame : s = digest crypto key canonical (signedTime time)
    · exact .inl ⟨hsame, if_pos hsame⟩
    · exact .inr ⟨hsame, _, if_neg hsame⟩
  obtain ⟨result, hresult, hverdict⟩ := hverdict
  rw [exact_canonical hbody, signs_iff hheader ht hs, ← hverdict.iff_same, hresult]
  simp

theorem exact_iff_digest (hbody : canonicalize crypto body = .ok canonical)
    (hheader : headers.lookup HeaderKey.signature.value = some header)
    (ht : timestamp header = .ok time) (hs : firstOf header "s" = some s) :
    Exact crypto body headers signingKey fallback ↔
      Readable crypto canonical header signingKey fallback := by
  have hread : ∀ t, firstOf header "t" = some t → (int t).isSome = true :=
    fun _ => isSome_of_timestamp ht
  by_cases hascii : s.toList.all isAscii = true
  · have hall : ∀ s', firstOf header "s" = some s' → s'.toList.all isAscii = true :=
      fun s' hs' => Option.some.inj (hs.symm.trans hs') ▸ hascii
    rw [exact_iff_same hbody hheader ht hs hascii]
    rcases timestamp_ok ht with ⟨hnone, rfl⟩ | ⟨t, n, hsome, hn, rfl⟩
    · refine iff_of_true (.refl _ _ _) ⟨hread, fun _ => hall, fun t s' hfirst => ?_⟩
      cases hnone.symm.trans hfirst
    · by_cases hzero : n = 0
      · subst hzero
        constructor
        · intro hsame
          refine ⟨hread, fun _ => hall, fun t' s' _ _ hs' => ?_⟩
          obtain rfl : s = s' := Option.some.inj (hs.symm.trans hs')
          exact hsame
        · exact fun h => h.zero t s hsome hn hs
      · have hsigned : signedTime (some n) = (some n).elim "" toString := if_neg hzero
        rw [hsigned]
        refine iff_of_true (.refl _ _ _) ⟨hread, fun _ => hall, fun t' s' hfirst hn' => ?_⟩
        obtain rfl : t = t' := Option.some.inj (hsome.symm.trans hfirst)
        exact absurd (Option.some.inj (hn.symm.trans hn')) hzero
  · by_cases hkeys : signingKey.isSome = true ∨ fallback.isSome = true
    · obtain ⟨e, he⟩ := raises_of_not_ascii hbody hheader ht hs hascii hkeys
      exact iff_of_false (raises_not_exact he) fun h => hascii (h.ascii hkeys s hs)
    · obtain ⟨rfl, rfl⟩ : signingKey = none ∧ fallback = none := by
        simpa [not_or] using hkeys
      refine iff_of_true (exact_of_refused hbody (by simp)
        ⟨_, validateSig_header hheader ht none⟩ (by simp)) ⟨hread, by simp, ?_⟩
      simp [SameVerdict, Accepts]

/-- The validation of a request is exact, and does not raise, exactly when the
body is not JSON, or there is no header, or the header can be read. -/
theorem exact_iff : Exact crypto body headers signingKey fallback ↔
    ∀ canonical header, canonicalize crypto body = .ok canonical →
      headers.lookup HeaderKey.signature.value = some header →
      Readable crypto canonical header signingKey fallback := by
  cases hbody : canonicalize crypto body with
  | error e => exact iff_of_true (exact_of_unreadable (by simp [hbody])) (by simp)
  | ok canonical =>
    cases hheader : headers.lookup HeaderKey.signature.value with
    | none =>
      have hmissing : ∀ key,
          ∃ e, validateSig crypto canonical headers .cloud key = .ok (.error e) := fun key =>
        ⟨headerMissing, by rw [validateSig, if_neg (by decide), hheader]⟩
      refine iff_of_true (exact_of_refused hbody (fun key _ => ?_) (hmissing none)
        fun key _ => hmissing _) (by simp)
      rintro ⟨header, -, hsome, -⟩
      cases hheader.symm.trans hsome
    | some header =>
      simp only [Except.ok.injEq, Option.some.injEq, forall_eq', forall_apply_eq_imp_iff]
      cases ht : timestamp header with
      | error e =>
        obtain ⟨t, hfirst, hn⟩ := timestamp_error ht
        have hraises : validateRequestSig crypto body headers .cloud signingKey fallback =
            .error e := by
          rw [validateRequestSig_canonical hbody, validateSig_raises hheader ht]
          rfl
        refine iff_of_false (raises_not_exact hraises) fun h => ?_
        have hsome := h.time t hfirst
        simp [hn] at hsome
      | ok time =>
        cases hs : firstOf header "s" with
        | some s => exact exact_iff_digest hbody hheader ht hs
        | none =>
          have hrefused : ∀ key,
              ∃ e, validateSig crypto canonical headers .cloud key = .ok (.error e) := by
            intro key
            rw [validateSig_header hheader ht, hs]
            cases key with
            | none => exact ⟨_, rfl⟩
            | some key => exact ⟨_, rfl⟩
          refine iff_of_true (exact_of_refused hbody (fun key _ => ?_) (hrefused none)
            fun key _ => hrefused _) ⟨fun _ => isSome_of_timestamp ht, by simp [hs], by simp [hs]⟩
          rintro ⟨header', time', hheader', -, hs'⟩
          obtain rfl : header = header' := Option.some.inj (hheader.symm.trans hheader')
          cases hs.symm.trans hs'

end Proofs

/-! An invalid time, a digest that is not ASCII, and a digest that does not sign
the time of its header. -/

def sampleHeaders (signature : String) : Dict String := (∅ : Dict String).insert
  HeaderKey.signature.value signature

def sampleValidation (signature : String) : Raising (MaybeError (Option String)) :=
  validateRequestSig Sample.cryptography [] (sampleHeaders signature) .cloud
    (some Sample.signingKey) none

theorem not_exact :
    ¬ Exact Sample.cryptography [] (sampleHeaders "t=abc&s=00") (some Sample.signingKey) none ∧
      sampleValidation "t=abc&s=00" = .error (invalidTimestamp "abc") ∧
      (∃ e, sampleValidation "t=1&s=é" = .error e) ∧
      sampleValidation "t=0&s=0" = .ok (.ok (some Sample.signingKey)) ∧
      digest Sample.cryptography Sample.signingKey [] "0" = "030" := by
  have hraises : sampleValidation "t=abc&s=00" = .error (invalidTimestamp "abc") := by
    decide +kernel
  refine ⟨raises_not_exact hraises, hraises, ⟨exception "TypeError"
    "comparing strings with non-ASCII characters is not supported", ?_⟩, ?_, ?_⟩
  · decide +kernel
  · decide +kernel
  · decide +kernel

end Net

end Inngest
