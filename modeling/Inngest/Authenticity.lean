import Inngest.SignedResponses
import Inngest.Signing
import Inngest.Transition
import Inngest.UrlEncoding

/-!
# What reaches a function

Anybody can send requests to an app, with any body and any header. In the cloud
a function is only called for a body that the executor signed, in whatever text
of the same JSON value it is sent. The query, with the ids of the function and of
the step, is not signed. The digest is over the body and the time one
after the other, without anything between them: that the body is an object is
what keeps the two apart, and that `json.dumps` writes blanks is what keeps the
app's own signatures from being sent back to it.
-/

set_option autoImplicit false

namespace Inngest
open ServerLib Errors Python

/-! ## Where a body ends -/

section Ends
variable {α : Type*} {x : α} {xs ys ds es : List α}

theorem prefix_of_append_end (he : x ∉ es) (h : xs ++ x :: ds = ys ++ es) : xs ++ [x] <+: ys := by
  rcases List.append_eq_append_iff.mp h with ⟨mid, rfl, hmid⟩ | ⟨mid, rfl, hmid⟩
  · cases mid with
    | nil =>
      rw [List.nil_append] at hmid
      exact absurd (hmid ▸ List.mem_cons_self) he
    | cons c mid =>
      obtain ⟨rfl, -⟩ := List.cons.inj hmid
      exact ⟨mid, by simp⟩
  · exact absurd (hmid ▸ List.mem_append_right _ List.mem_cons_self) he

theorem append_end_inj (hd : x ∉ ds) (he : x ∉ es) (h : xs ++ [x] ++ ds = ys ++ [x] ++ es) :
    xs ++ [x] = ys ++ [x] ∧ ds = es := by
  have hxs : xs ++ [x] <+: ys ++ [x] := prefix_of_append_end he (by simpa using h)
  have hys : ys ++ [x] <+: xs ++ [x] := prefix_of_append_end hd (by simpa using h.symm)
  have hsame := hxs.eq_of_length_le hys.length_le
  exact ⟨hsame, List.append_cancel_left (hsame ▸ h)⟩

end Ends

def brace : UInt8 := 0x7d

theorem utf8EncodeChar_of_lt {c : Char} (h : c.toNat < 0x80) :
    String.utf8EncodeChar c = [UInt8.ofNat c.toNat] :=
  if_pos (Nat.le_of_lt_succ h)

theorem brace_notMem {text : String} (h : ∀ c ∈ text.toList, c.toNat < 0x7d) :
    brace ∉ encode text := by
  rw [encode_eq]
  intro hb
  obtain ⟨c, hc, hb⟩ := List.mem_flatMap.mp hb
  have hlt := h c hc
  rw [utf8EncodeChar_of_lt (by omega), List.mem_singleton] at hb
  have hnat := congrArg UInt8.toNat hb
  rw [UInt8.toNat_ofNat', brace, Nat.mod_eq_of_lt (by omega)] at hnat
  exact absurd hnat.symm (by simp; omega)

theorem toString_lt (n : ℤ) : ∀ c ∈ (toString n).toList, c.toNat < 0x7b := by
  have hdigits : ∀ m : ℕ, ∀ c ∈ (toString m).toList, c.toNat < 0x7b := by
    intro m c hc
    have hbounds := isDigit_bounds (toString_isDigit m c hc)
    omega
  intro c hc
  cases n with
  | ofNat m => exact hdigits m c hc
  | negSucc m =>
    rw [show (toString (Int.negSucc m)).toList = '-' :: (toString (m + 1)).toList from
      String.toList_append] at hc
    rcases List.mem_cons.mp hc with rfl | hc
    · decide
    · exact hdigits _ c hc

theorem brace_notMem_toString (n : ℤ) : brace ∉ encode (toString n) :=
  brace_notMem fun c hc => (toString_lt n c hc).trans (by decide)

theorem brace_notMem_signedTime (time : Option ℤ) : brace ∉ encode (Net.signedTime time) := by
  cases time with
  | none => exact brace_notMem (by simp [Net.signedTime])
  | some n =>
    rw [Net.signedTime]
    split
    · exact brace_notMem (by simp)
    · exact brace_notMem_toString n

namespace Authenticity
open Net Transforms

variable {σ : Type}

/-! ## The network -/

/-- What the apps and the executor share: the cryptography, the text of
`json.dumps`, and the keys that nobody else has. -/
structure Fleet where
  crypto : Crypto
  text : Json → String
  secret : String → Prop

structure Message where
  key : String
  body : Bytes
  time : ℤ

/-- A call, the request that it was made for, and the key that validated it. -/
structure Called (σ : Type) where
  key : String
  req : CommRequest
  call : Call σ

structure Network (σ : Type) where
  signed : List Message
  called : List (Called σ)

inductive Move (σ : Type) where
  | sign (message : Message)
  | deliver (runtime : Runtime σ) (handler : AppHandler σ) (method : Method) (req : CommRequest)

section Handler
variable (runtime : Runtime σ) (handler : AppHandler σ)

def callOf (plan : CommRequest → Raising (Plan σ)) (req : CommRequest) : Option (Called σ) :=
  match handler.requestSigningKey runtime req, plan req with
  | .ok (.ok (some key)), .ok (.call call) => some ⟨key, req, call⟩
  | _, _ => none

def calls (req : CommRequest) : Method → Option (Called σ)
  | .post => callOf runtime handler (handler.plan runtime) req
  | .postSync => callOf runtime handler (handler.planSync runtime) req
  | .getSync | .put | .putSync => none

end Handler

/-- Texts of objects, and of the values that `json.dumps` is given. A request is
an object, of which the canonical text has no blank after its first colon. -/
structure Formats (fleet : Fleet) (runtime : Runtime σ) : Prop where
  crypto : runtime.crypto = fleet.crypto
  closed : ∀ body request canonical, runtime.serverRequest body = .ok request →
    canonicalize fleet.crypto body = .ok canonical → ∃ inner, canonical = inner ++ [brace]
  spaced : ∀ body request canonical v, runtime.serverRequest body = .ok request →
    canonicalize fleet.crypto body = .ok canonical → ¬ canonical <+: encode (fleet.text v)

namespace Network
variable (fleet : Fleet) (net : Network σ)

/-- Digests that can be had: of what the executor signed, and of what an app
can have signed in a response. -/
def Known (key : String) (message : Bytes) : Prop :=
  (∃ m ∈ net.signed, ∃ canonical, canonicalize fleet.crypto m.body = .ok canonical ∧
    removeSigningKeyPrefix fleet.crypto m.key = removeSigningKeyPrefix fleet.crypto key ∧
    message = canonical ++ encode (toString m.time)) ∨
  ∃ v time, message = encode (fleet.text v) ++ encode (toString (time : ℤ))

/-- Whoever presents a digest under a secret key has it from somebody who made
it with that key. -/
def Unforged (req : CommRequest) : Prop :=
  ∀ header key message, req.headerDict.lookup HeaderKey.signature.value = some header →
    fleet.secret key → firstOf header "s" =
      some (fleet.crypto.hmac (encode (removeSigningKeyPrefix fleet.crypto key)) message) →
    net.Known fleet key message

end Network

/-- The executor signs objects, and requests without a body. Apps come and go,
with keys among the secret ones. -/
def network (fleet : Fleet) : Transition.Machine (Network σ) (Move σ) where
  init := ⟨[], []⟩
  enabled
    | .sign m, _ => ∃ canonical, canonicalize fleet.crypto m.body = .ok canonical ∧
      (canonical = [] ∨ ∃ inner, canonical = inner ++ [brace])
    | .deliver runtime handler _ req, net =>
      Formats fleet runtime ∧ handler.mode = .cloud ∧ req.isConnect = false ∧
      (∀ key, handler.signingKey = some key ∨ handler.signingKeyFallback = some key →
        fleet.secret key) ∧
      net.Unforged fleet req
  effect
    | .sign m, net => { net with signed := m :: net.signed }
    | .deliver runtime handler method req, net =>
      { net with called := (calls runtime handler req method).toList ++ net.called }

/-! ## What validated -/

section Validated
variable {crypto : Crypto} {body : Bytes} {headers : Dict String}
  {signingKey fallback result : Option String}

theorem validateSig_accepted
    (h : validateSig crypto body headers .cloud signingKey = .ok (.ok result)) :
    ∃ key header time, signingKey = some key ∧ result = some key ∧
      headers.lookup HeaderKey.signature.value = some header ∧ timestamp header = .ok time ∧
      firstOf header "s" = some (digest crypto key body (signedTime time)) := by
  cases hheader : headers.lookup HeaderKey.signature.value with
  | none =>
    rw [validateSig, if_neg (by decide), hheader] at h
    cases h
  | some header =>
    cases ht : timestamp header with
    | error e =>
      rw [validateSig_raises hheader ht] at h
      cases h
    | ok time =>
      rw [validateSig_header hheader ht] at h
      cases signingKey with
      | none => cases h
      | some key =>
        cases hs : firstOf header "s" with
        | none =>
          rw [hs] at h
          cases h
        | some s =>
          simp only [hs] at h
          obtain ⟨same, hsame, hresult⟩ := Raising.map_eq_ok.mp h
          rw [compareDigest] at hsame
          split at hsame
          · obtain rfl := Except.ok.inj hsame
            split at hresult
            · rename_i hdigest
              refine ⟨key, header, time, rfl, (Except.ok.inj hresult).symm, rfl, ht, ?_⟩
              rw [hs, of_decide_eq_true hdigest]
            · cases hresult
          · cases hsame

theorem validateRequestSig_accepted
    (h : validateRequestSig crypto body headers .cloud signingKey fallback = .ok (.ok result)) :
    ∃ canonical key header time, canonicalize crypto body = .ok canonical ∧
      (signingKey = some key ∨ fallback = some key) ∧ result = some key ∧
      headers.lookup HeaderKey.signature.value = some header ∧ timestamp header = .ok time ∧
      firstOf header "s" = some (digest crypto key canonical (signedTime time)) := by
  cases hbody : canonicalize crypto body with
  | error e =>
    rw [validateRequestSig, hbody] at h
    cases h
  | ok canonical =>
    rw [validateRequestSig_canonical hbody] at h
    obtain ⟨first, hfirst, h⟩ := Raising.bind_eq_ok.mp h
    have haccepted : validateSig crypto canonical headers .cloud signingKey = .ok (.ok result) ∨
        ∃ key, fallback = some key ∧
          validateSig crypto canonical headers .cloud (some key) = .ok (.ok result) := by
      cases first with
      | ok key =>
        left
        cases fallback <;> exact hfirst.trans h
      | error e =>
        cases fallback with
        | none => cases h
        | some key => exact .inr ⟨key, rfl, h⟩
    rcases haccepted with haccepted | ⟨key, rfl, haccepted⟩
    · obtain ⟨key, header, time, hkey, hrest⟩ := validateSig_accepted haccepted
      exact ⟨canonical, key, header, time, rfl, .inl hkey, hrest⟩
    · obtain ⟨key', header, time, hkey, hrest⟩ := validateSig_accepted haccepted
      exact ⟨canonical, key', header, time, rfl, .inr hkey, hrest⟩

end Validated

/-! ## What is called -/

section Calls
variable {runtime : Runtime σ} {handler : AppHandler σ} {req : CommRequest} {c : Called σ}
  {plan : CommRequest → Raising (Plan σ)}

theorem planWith_call {fetch : ServerRequest → Raising (MaybeError AppHandler.RunData)}
    {call : Call σ} (h : handler.planWith runtime fetch req = .ok (.call call)) :
    ∃ request, runtime.serverRequest req.body = .ok request := by
  obtain ⟨params, -, h⟩ := Raising.bind_eq_ok.mp h
  split at h
  · cases h
  · split at h
    · cases h
    · split at h
      · cases h
      · cases h
      · exact ⟨_, ‹_›⟩

theorem callOf_eq_some : callOf runtime handler plan req = some c ↔
    handler.requestSigningKey runtime req = .ok (.ok (some c.key)) ∧
      plan req = .ok (.call c.call) ∧ c.req = req := by
  rw [callOf]
  split
  · rename_i key call hkey hplan
    rw [hkey, hplan, Option.some.injEq]
    constructor
    · rintro rfl
      exact ⟨rfl, rfl, rfl⟩
    · rintro ⟨hkey', hcall, rfl⟩
      obtain rfl := Option.some.inj (Except.ok.inj (Except.ok.inj hkey'))
      obtain rfl := Plan.call.inj (Except.ok.inj hcall)
      rfl
  · rename_i hno
    refine iff_of_false (by simp) fun h => hno c.key c.call h.1 h.2.1

theorem calls_eq_some {method : Method} (h : calls runtime handler req method = some c) :
    c.req = req ∧ handler.requestSigningKey runtime req = .ok (.ok (some c.key)) ∧
      ∃ request, runtime.serverRequest req.body = .ok request := by
  cases method with
  | post | postSync =>
    obtain ⟨hkey, hplan, hreq⟩ := callOf_eq_some.mp h
    exact ⟨hreq, hkey, planWith_call hplan⟩
  | getSync | put | putSync => cases h

/-- A request that no call is made of is answered in the same way whatever
functions and hooks do: they would answer it. -/
theorem wrap_of_no_call (hcloud : handler.mode = .cloud) (hhttp : req.isConnect = false)
    (h : callOf runtime handler plan req = none)
    (answer answer' : Exchange → Call σ → Raising Served) :
    handler.wrap runtime true (AppHandler.postWith plan answer req) req =
      handler.wrap runtime true (AppHandler.postWith plan answer' req) req := by
  rw [AppHandler.wrap, AppHandler.wrap]
  cases hkey : handler.requestSigningKey runtime req with
  | error e => rfl
  | ok key =>
    cases key with
    | error e => rfl
    | ok key =>
      obtain ⟨key, rfl⟩ : ∃ k, key = some k := by
        rw [AppHandler.requestSigningKey, hhttp, hcloud] at hkey
        obtain ⟨-, k, -, -, -, -, rfl, -⟩ := validateRequestSig_accepted hkey
        exact ⟨k, rfl⟩
      cases hplan : plan req with
      | error e => simp only [AppHandler.postWith, hplan, bind, Except.bind]
      | ok p =>
        cases p with
        | respond response =>
          simp only [AppHandler.postWith, hplan, bind, Except.bind]
          cases response <;> rfl
        | call call => simp [callOf, hkey, hplan] at h

end Calls

/-! ## Every call -/

/-- The executor signed what the call was made for: the body, in some text of
its JSON value, with the time of the header and the key that validated it. -/
def Vouched (fleet : Fleet) (signed : List Message) (c : Called σ) : Prop :=
  ∃ m ∈ signed, ∃ canonical header, canonicalize fleet.crypto c.req.body = .ok canonical ∧
    canonicalize fleet.crypto m.body = .ok canonical ∧
    removeSigningKeyPrefix fleet.crypto m.key = removeSigningKeyPrefix fleet.crypto c.key ∧
    c.req.headerDict.lookup HeaderKey.signature.value = some header ∧
    claimedTime header = some (toString m.time)

section Runs
variable {fleet : Fleet} {net : Network σ}

/-- What the executor signed is an object, or nothing. -/
def Closed (fleet : Fleet) (net : Network σ) : Prop :=
  ∀ m ∈ net.signed, ∃ canonical, canonicalize fleet.crypto m.body = .ok canonical ∧
    (canonical = [] ∨ ∃ inner, canonical = inner ++ [brace])

theorem known_object (hclosed : Closed fleet net) {key : String} {inner : Bytes}
    {time : Option ℤ} (hspaced : ∀ v, ¬ inner ++ [brace] <+: encode (fleet.text v))
    (h : net.Known fleet key (inner ++ [brace] ++ encode (signedTime time))) :
    ∃ m ∈ net.signed, canonicalize fleet.crypto m.body = .ok (inner ++ [brace]) ∧
      removeSigningKeyPrefix fleet.crypto m.key = removeSigningKeyPrefix fleet.crypto key ∧
      encode (signedTime time) = encode (toString m.time) := by
  rcases h with ⟨m, hm, canonical, hcanonical, hkey, hsame⟩ | ⟨v, n, hsame⟩
  · refine ⟨m, hm, ?_⟩
    obtain ⟨canonical', hcanonical', hshape⟩ := hclosed m hm
    obtain rfl := Except.ok.inj (hcanonical.symm.trans hcanonical')
    rcases hshape with rfl | ⟨inner', rfl⟩
    · have hnil : inner ++ [brace] <+: [] :=
        prefix_of_append_end (brace_notMem_toString m.time) (by simpa using hsame)
      simp at hnil
    · obtain ⟨hinner, htime⟩ := append_end_inj (brace_notMem_signedTime time)
        (brace_notMem_toString m.time) hsame
      exact ⟨hinner ▸ hcanonical, hkey, htime⟩
  · exact absurd (prefix_of_append_end (brace_notMem_toString n) (by simpa using hsame))
      (hspaced v)

theorem claimedTime_of_signed {header : String} {time : Option ℤ} {n : ℤ}
    (ht : timestamp header = .ok time) (h : signedTime time = toString n) :
    claimedTime header = some (toString n) := by
  have hne : toString n ≠ "" := by
    intro h
    have hlist := congrArg String.toList h
    cases n with
    | ofNat m => exact toString_ne_nil m hlist
    | negSucc m =>
      rw [show (toString (Int.negSucc m)).toList = '-' :: (toString (m + 1)).toList from
        String.toList_append] at hlist
      cases hlist
  rw [claimedTime_ok ht]
  cases time with
  | none => exact absurd h.symm hne
  | some k =>
    rw [signedTime] at h
    split at h
    · exact absurd h.symm hne
    · exact congrArg some h

theorem vouched_deliver (hclosed : Closed fleet net) {runtime : Runtime σ}
    {handler : AppHandler σ} {method : Method} {req : CommRequest} {c : Called σ}
    (henabled : (network fleet).enabled (.deliver runtime handler method req) net)
    (h : calls runtime handler req method = some c) : Vouched fleet net.signed c := by
  obtain ⟨hformats, hcloud, hhttp, hsecret, hunforged⟩ := henabled
  obtain ⟨rfl, hkey, request, hrequest⟩ := calls_eq_some h
  rw [AppHandler.requestSigningKey, hhttp, hcloud, hformats.crypto] at hkey
  obtain ⟨canonical, key, header, time, hcanonical, hkeys, hsome, hheader, ht, hs⟩ :=
    validateRequestSig_accepted hkey
  obtain rfl := Option.some.inj hsome
  obtain ⟨inner, rfl⟩ := hformats.closed _ request canonical hrequest hcanonical
  have hknown := hunforged header c.key _ hheader (hsecret c.key hkeys) hs
  obtain ⟨m, hm, hbody, hsame, htime⟩ := known_object hclosed
    (fun v => hformats.spaced _ request _ v hrequest hcanonical) hknown
  exact ⟨m, hm, inner ++ [brace], header, hcanonical, hbody, hsame, hheader,
    claimedTime_of_signed ht (encode_injective htime)⟩

theorem Vouched.mono {signed signed' : List Message} {c : Called σ} (h : Vouched fleet signed c)
    (hsub : signed ⊆ signed') : Vouched fleet signed' c := by
  obtain ⟨m, hm, hrest⟩ := h
  exact ⟨m, hsub hm, hrest⟩

/-- What holds of the network in every run. -/
structure Sound (fleet : Fleet) (net : Network σ) : Prop where
  closed : Closed fleet net
  vouched : ∀ c ∈ net.called, Vouched fleet net.signed c

theorem sound_init (fleet : Fleet) : Sound fleet (network (σ := σ) fleet).init :=
  ⟨fun _ hm => absurd hm List.not_mem_nil, fun _ hc => absurd hc List.not_mem_nil⟩

theorem sound_step (hsound : Sound fleet net) {move : Move σ}
    (henabled : (network fleet).enabled move net) :
    Sound fleet ((network fleet).effect move net) := by
  cases move with
  | sign m =>
    refine ⟨fun m' hm' => ?_, fun c hc => (hsound.vouched c hc).mono (List.subset_cons_self _ _)⟩
    rcases List.mem_cons.mp hm' with rfl | hm'
    · exact henabled
    · exact hsound.closed m' hm'
  | deliver runtime handler method req =>
    refine ⟨hsound.closed, fun c hc => ?_⟩
    rcases List.mem_append.mp hc with hc | hc
    · exact vouched_deliver hsound.closed henabled (Option.mem_toList.mp hc)
    · exact hsound.vouched c hc

/-- In every run of apps in the cloud on a network where anybody sends anything,
functions are called only for bodies that the executor signed. -/
theorem calls_authentic (h : (network fleet).Reachable Transition.Machine.Any net) :
    ∀ c ∈ net.called, Vouched fleet net.signed c :=
  (h.invariant (sound_init fleet) fun _ _ _ hsound he _ => sound_step hsound he).vouched

end Runs

/-! ## A call

The executor signs a request, and it is delivered with the executor's header. -/

def keptSecret : Fleet := ⟨Sample.cryptography, Sample.text, (· = Sample.signingKey)⟩

def server : Runtime Unit := Sample.runtime

def app : AppHandler Unit := Sample.handler .disable [SignedResponses.greet]

def message : Message := ⟨Sample.signingKey, encode Sample.requestText, 1700000000⟩

def received : Network Unit :=
  (network keptSecret).effect (.deliver server app .post SignedResponses.called)
    ((network keptSecret).effect (.sign message) (network keptSecret).init)

theorem requestText_closed : encode Sample.requestText =
    (encode Sample.requestText).dropLast ++ [brace] := by
  decide +kernel

theorem canonicalize_requestText :
    canonicalize Sample.cryptography (encode Sample.requestText) =
      .ok (encode Sample.requestText) :=
  if_neg (by decide +kernel)

/-! The text of a request does not begin as one that `json.dumps` writes: after
the first name and its colon there is a blank in that. -/

theorem escaped_cases (c : Char) :
    (Sample.escaped c = [c] ∧ c ≠ '"' ∧ c.toNat < 0x80) ∨
      ∃ cs, Sample.escaped c = '\\' :: cs := by
  rw [Sample.escaped]
  by_cases hquote : c = '"' ∨ c = '\\'
  · exact .inr ⟨_, if_pos hquote⟩
  rw [if_neg hquote, not_or] at *
  by_cases hplain : 0x20 ≤ c.toNat ∧ c.toNat < 0x7f
  · refine .inl ⟨?_, hquote.1, by omega⟩
    have hne : ∀ d : Char, d.toNat < 0x20 → c ≠ d := fun d hd he => by
      rw [he] at hplain
      omega
    rw [if_neg (hne _ (by decide)), if_neg (hne _ (by decide)), if_neg (hne _ (by decide)),
      if_neg (hne _ (by decide)), if_neg (hne _ (by decide)), if_pos hplain]
  · rw [if_neg hplain]
    right
    split_ifs <;> exact ⟨_, rfl⟩

def written (cs : List Char) : Bytes :=
  (cs.flatMap Sample.escaped).flatMap String.utf8EncodeChar

theorem written_cons (c : Char) (cs : List Char) : ∃ b rest, written (c :: cs) = b :: rest ∧
    b ≠ 0x22 ∧ (b = 0x5c ∨ rest = written cs) := by
  rw [written, List.flatMap_cons, List.flatMap_append]
  rcases escaped_cases c with ⟨he, hquote, hlt⟩ | ⟨ds, he⟩
  · rw [he, List.flatMap_singleton, utf8EncodeChar_of_lt hlt]
    refine ⟨_, _, rfl, fun hb => hquote (Char.toNat_inj.mp ?_), .inr rfl⟩
    have hnat := congrArg UInt8.toNat hb
    rwa [UInt8.toNat_ofNat', Nat.mod_eq_of_lt (by omega)] at hnat
  · rw [he]
    exact ⟨0x5c, _, rfl, by decide, .inl rfl⟩

theorem prefix_written {name : Bytes} (hname : ∀ b ∈ name, b ≠ 0x22 ∧ b ≠ 0x5c)
    {cs : List Char} {s rest : Bytes} (h : name ++ 0x22 :: s <+: written cs ++ 0x22 :: rest) :
    s <+: rest := by
  induction name generalizing cs with
  | nil =>
    cases cs with
    | nil => exact (List.cons_prefix_cons.mp h).2
    | cons c cs =>
      obtain ⟨b, r, hw, hb, -⟩ := written_cons c cs
      rw [hw] at h
      exact absurd (List.cons_prefix_cons.mp h).1.symm hb
  | cons x name ih =>
    cases cs with
    | nil => exact absurd (List.cons_prefix_cons.mp h).1 (hname x List.mem_cons_self).1
    | cons c cs =>
      obtain ⟨b, r, hw, -, hr⟩ := written_cons c cs
      rw [hw] at h
      obtain ⟨rfl, hrest⟩ := List.cons_prefix_cons.mp h
      rcases hr with hslash | rfl
      · exact absurd hslash (hname x List.mem_cons_self).2
      · exact ih (fun b hb => hname b (List.mem_cons_of_mem x hb)) hrest

theorem encode_append (a b : String) : encode (a ++ b) = encode a ++ encode b := by
  rw [encode_eq, encode_eq, encode_eq, String.toList_append, List.flatMap_append]

theorem encode_quoted (name : String) :
    encode (Sample.quoted name) = 0x22 :: (written name.toList ++ [0x22]) := by
  have htext : encode (.ofList (name.toList.flatMap Sample.escaped)) = written name.toList := by
    rw [encode_eq, String.toList_ofList, written]
  rw [Sample.quoted, encode_append, encode_append, htext, show encode "\"" = [0x22] from rfl,
    List.singleton_append, List.cons_append]

theorem encode_obj (name : String) (v : Json) (fields : List (String × Json)) :
    ∃ rest, encode (Sample.text (.obj ((name, v) :: fields))) =
      0x7b :: 0x22 :: (written name.toList ++ 0x22 :: 0x3a :: 0x20 :: rest) := by
  rw [Sample.text, Sample.textFields, String.intercalate_cons_append, encode_append, encode_append,
    encode_append, encode_append, encode_quoted]
  refine ⟨?_, ?_⟩
  rotate_left
  · rw [show encode "\x7b" = [0x7b] from rfl, show encode ": " = [0x3a, 0x20] from rfl]
    simp only [List.cons_append, List.nil_append, List.append_assoc]
    rfl

theorem encode_text {v : Json} {s : Bytes} (h : 0x7b :: 0x22 :: s <+: encode (Sample.text v)) :
    ∃ name x fields, v = .obj ((name, x) :: fields) := by
  have hnumber : ∀ {text : String}, (∀ c ∈ text.toList, c.toNat < 0x7b) →
      ¬ 0x7b :: 0x22 :: s <+: encode text := by
    intro text hlt hp
    rw [encode_eq] at hp
    cases ht : text.toList with
    | nil => simp [ht] at hp
    | cons c cs =>
      have hc := hlt c (ht ▸ List.mem_cons_self)
      rw [ht, List.flatMap_cons, utf8EncodeChar_of_lt (by omega)] at hp
      have hnat := congrArg UInt8.toNat (List.cons_prefix_cons.mp hp).1
      rw [UInt8.toNat_ofNat', Nat.mod_eq_of_lt (by omega)] at hnat
      exact absurd hnat.symm (by simp; omega)
  cases v with
  | null => exact absurd h (hnumber (List.forall_iff_forall_mem.mp (by decide)))
  | bool b => cases b <;> exact absurd h (hnumber (List.forall_iff_forall_mem.mp (by decide)))
  | int n => exact absurd h (hnumber (toString_lt n))
  | float q =>
    refine absurd h (hnumber fun c hc => ?_)
    change c ∈ (toString q).toList at hc
    rw [show toString q = if q.den = 1 then toString q.num else
      toString q.num ++ "/" ++ toString q.den from rfl] at hc
    split at hc
    · exact toString_lt _ c hc
    · rw [String.toList_append, String.toList_append, List.mem_append, List.mem_append] at hc
      rcases hc with (hc | hc) | hc
      · exact toString_lt _ c hc
      · obtain rfl : c = '/' := List.mem_singleton.mp hc
        decide
      · exact toString_lt q.den c hc
  | str t =>
    rw [Sample.text, encode_quoted] at h
    exact absurd (List.cons_prefix_cons.mp h).1 (by decide)
  | arr items =>
    rw [Sample.text, encode_append, encode_append] at h
    exact absurd (List.cons_prefix_cons.mp h).1 (by decide)
  | obj fields =>
    cases fields with
    | nil =>
      rw [show encode (Sample.text (.obj [])) = [0x7b, 0x7d] by decide +kernel] at h
      exact absurd (List.cons_prefix_cons.mp (List.cons_prefix_cons.mp h).2).1 (by decide)
    | cons f fields => exact ⟨f.1, f.2, fields, rfl⟩
  | other repr => exact absurd (List.prefix_nil.mp h) (by simp)

theorem requestText_spaced (v : Json) : ¬ encode Sample.requestText <+: encode (Sample.text v) := by
  obtain ⟨s, hs⟩ : ∃ s, encode Sample.requestText =
      0x7b :: 0x22 :: (encode "ctx" ++ 0x22 :: 0x3a :: 0x7b :: s) :=
    ⟨(encode Sample.requestText).drop 8, by decide +kernel⟩
  rw [hs]
  intro h
  obtain ⟨name, x, fields, rfl⟩ := encode_text h
  obtain ⟨rest, hrest⟩ := encode_obj name x fields
  rw [hrest] at h
  have h := prefix_written (by decide +kernel)
    (List.cons_prefix_cons.mp (List.cons_prefix_cons.mp h).2).2
  exact absurd (List.cons_prefix_cons.mp (List.cons_prefix_cons.mp h).2).1 (by decide)

theorem server_formats : Formats keptSecret server := by
  have hbody : ∀ {body request}, server.serverRequest body = .ok request →
      body = encode Sample.requestText := by
    intro body request h
    by_contra hne
    rw [show server.serverRequest body = .error Sample.unreadable from if_neg hne] at h
    cases h
  refine ⟨rfl, fun body request canonical h hc => ?_, fun body request canonical v h hc => ?_⟩ <;>
    obtain rfl := hbody h <;>
    obtain rfl := Except.ok.inj (canonicalize_requestText.symm.trans hc)
  · exact ⟨_, requestText_closed⟩
  · exact requestText_spaced v

theorem called_signed :
    (SignedResponses.called.headerDict.lookup HeaderKey.signature.value).bind (firstOf · "s") =
      some (Sample.mac (encode (removeSigningKeyPrefix Sample.cryptography Sample.signingKey))
        (encode Sample.requestText ++ encode (toString message.time))) := by
  decide +kernel

theorem reachable_received :
    (network keptSecret).Reachable Transition.Machine.Any received := by
  refine .step _ (.step _ .init ?_ trivial) ?_ trivial
  · exact ⟨_, canonicalize_requestText, .inr ⟨_, requestText_closed⟩⟩
  refine ⟨server_formats, rfl, rfl, fun key hkey => ?_, fun header key m hheader hkey hs => ?_⟩
  · rcases hkey with hkey | hkey
    · exact (Option.some.inj hkey).symm
    · cases hkey
  · obtain rfl : key = Sample.signingKey := hkey
    have hsigned := called_signed
    rw [hheader, Option.bind_some, hs] at hsigned
    exact .inl ⟨message, List.mem_cons_self, _, canonicalize_requestText, rfl,
      Sample.mac_injective _ (Option.some.inj hsigned)⟩

theorem calls_authentic_received :
    received.called.length = 1 ∧ ∀ c ∈ received.called, Vouched keptSecret received.signed c :=
  ⟨by decide +kernel, calls_authentic reachable_received⟩

end Authenticity

end Inngest
