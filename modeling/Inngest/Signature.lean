import Inngest.Dict
import Inngest.Python
import Inngest.ServerLib

/-!
# Signatures

Signing and validating in `net.py`. A header is parsed as a query: the time
`t`, which is signed with the body, and the digest `s`. What the code cannot
read is in part answered and in part raised, so a validation has two ways to
fail.
-/

set_option autoImplicit false

namespace Inngest
open ServerLib Errors Python

abbrev MaybeError (α : Type) := Except PyError α

abbrev Raising (α : Type) := Except PyError α

theorem Raising.bind_eq_ok {α β : Type} {x : Raising α} {f : α → Raising β} {b : β} :
    (x >>= f) = .ok b ↔ ∃ a, x = .ok a ∧ f a = .ok b := by
  cases x <;> simp [bind, Except.bind]

theorem Raising.map_eq_ok {α β : Type} {x : Raising α} {f : α → β} {b : β} :
    Except.map f x = .ok b ↔ ∃ a, x = .ok a ∧ f a = b := by
  cases x <;> simp [Except.map]

theorem Raising.exists_ok {α : Type} {x : Raising α} (h : x.isOk = true) : ∃ a, x = .ok a := by
  cases x with
  | error e => simp [Except.isOk, Except.toBool] at h
  | ok a => exact ⟨a, rfl⟩

/-- Hexadecimal digests, the characters that `\w` matches, and
`jcs.canonicalize(json.loads(value))` with the text of its exception. -/
structure Crypto where
  hmac : (key message : Bytes) → String
  sha256 : Bytes → String
  isWord : Char → Bool
  jcs : Bytes → Except String Bytes
  hmac_hex : ∀ key message, IsHex (hmac key message)
  hmac_ne : ∀ key message, (hmac key message).toList ≠ []

structure Clock where
  seconds : ℕ
  pos : 0 < seconds
  readable : (toString seconds).length ≤ maxStrDigits

variable (crypto : Crypto)

namespace Transforms

def canonicalize (value : Bytes) : MaybeError Bytes :=
  if value = [] then .ok value
  else match crypto.jcs value with
    | .ok value => .ok value
    | .error err => .error (exception "Exception" ("failed to canonicalize: " ++ err))

/-- The prefix is `^signkey-[\w]+-`. -/
def removeSigningKeyPrefix (key : String) : String :=
  match "signkey-".toList.isPrefixOf? key.toList with
  | none => key
  | some rest =>
    match rest.span crypto.isWord with
    | (_ :: _, '-' :: rest) => .ofList rest
    | _ => key

def hashEventKey (key : String) : String := crypto.sha256 (encode key)

def hashSigningKey (key : String) : Raising String :=
  match fromHex (removeSigningKeyPrefix crypto key).toList with
  | some bytes => .ok (crypto.sha256 bytes)
  | none => .error (exception "ValueError" "non-hexadecimal number found in fromhex() arg")

end Transforms

namespace Net
open Transforms

def digest (signingKey : String) (body : Bytes) (time : String) : String :=
  crypto.hmac (encode (removeSigningKeyPrefix crypto signingKey)) (body ++ encode time)

def signResponse (clock : Clock) (body : Bytes) (signingKey : String) : String :=
  "t=" ++ toString clock.seconds ++ "&s=" ++
    digest crypto signingKey body (toString clock.seconds)

def headerMissing : PyError :=
  headerMissingError
    "cannot validate signature in production mode without a x-inngest-signature header"

def signingKeyMissing : PyError :=
  signingKeyMissingError "cannot validate signature in production mode without a signing key"

def headerMalformed : PyError :=
  exception "Exception" "x-inngest-signature header is malformed"

def invalidTimestamp (t : String) : PyError :=
  exception "ValueError" ("invalid literal for int() with base 10: '" ++ t ++ "'")

def compareDigest (a b : String) : Raising Bool :=
  if a.toList.all isAscii ∧ b.toList.all isAscii then .ok (a = b)
  else .error
    (exception "TypeError" "comparing strings with non-ASCII characters is not supported")

def timestamp (header : String) : Raising (Option ℤ) :=
  match firstOf header "t" with
  | none => .ok none
  | some t => (int t).elim (.error (invalidTimestamp t)) fun n => .ok (some n)

def signedTime (time : Option ℤ) : String :=
  match time with
  | none => ""
  | some n => if n = 0 then "" else toString n

def validateSig (body : Bytes) (headers : Dict String) (mode : ServerKind)
    (signingKey : Option String) : Raising (MaybeError (Option String)) :=
  if mode = .devServer then .ok (.ok none)
  else match headers.lookup HeaderKey.signature.value with
    | none => .ok (.error headerMissing)
    | some header => do
      let time ← timestamp header
      match signingKey, firstOf header "s" with
      | none, _ => .ok (.error signingKeyMissing)
      | some _, none => .ok (.error headerMalformed)
      | some key, some signature =>
        if ← compareDigest signature (digest crypto key body (signedTime time)) then
          .ok (.ok (some key))
        else .ok (.error sigVerificationFailedError)

def validateRequestSig (body : Bytes) (headers : Dict String) (mode : ServerKind)
    (signingKey signingKeyFallback : Option String) : Raising (MaybeError (Option String)) :=
  match canonicalize crypto body with
  | .error e => .ok (.error e)
  | .ok canonicalized => do
    match ← validateSig crypto canonicalized headers mode signingKey, signingKeyFallback with
    | .error _, some fallback => validateSig crypto canonicalized headers mode (some fallback)
    | result, _ => .ok result

def validateResponseSig (body : Bytes) (headers : Dict String) (mode : ServerKind)
    (signingKey : String) : Raising (MaybeError (Option String)) :=
  validateSig crypto body headers mode (some signingKey)

/-! ## What validates -/

section Signed
variable {crypto} {clock : Clock} {body : Bytes} {key : String}

theorem digest_hex (time : String) : IsHex (digest crypto key body time) := crypto.hmac_hex _ _

theorem parseQsl_signature {time : String} (htime : Plain time.toList) (hne : time.toList ≠ [])
    (signed : String) : parseQsl ("t=" ++ time ++ "&s=" ++ digest crypto key body signed) =
      [("t", time), ("s", digest crypto key body signed)] := by
  have hplain : ∀ a ∈ [(['t'], time.toList), (['s'], (digest crypto key body signed).toList)],
      Plain a.1 ∧ Plain a.2 ∧ a.2 ≠ [] := by
    have hname : Plain ['t'] ∧ Plain ['s'] := by
      constructor <;> apply plain_of_lt <;> simp
    intro a ha
    rcases List.mem_cons.mp ha with rfl | ha
    · exact ⟨hname.1, htime, hne⟩
    · obtain rfl := List.mem_singleton.mp ha
      refine ⟨hname.2, plain_of_lt fun c hc => ?_, crypto.hmac_ne _ _⟩
      have := (digest_hex _).lt hc
      omega
  have htext : "t=" ++ time ++ "&s=" ++ digest crypto key body signed =
      .ofList (['&'].intercalate ([(['t'], time.toList),
        (['s'], (digest crypto key body signed).toList)].map render)) := by
    rw [← String.toList_inj, String.toList_ofList]
    simp [render, List.intercalate, List.intersperse]
  rw [htext, parseQsl_render (by simp) hplain]
  simp only [List.map_cons, List.map_nil, String.ofList_toList]

theorem parseQsl_signResponse :
    parseQsl (signResponse crypto clock body key) =
      [("t", toString clock.seconds), ("s", digest crypto key body (toString clock.seconds))] :=
  parseQsl_signature (plain_toString clock.seconds) (toString_ne_nil _) _

theorem validateResponseSig_signed {headers : Dict String}
    (h : headers.lookup HeaderKey.signature.value = some (signResponse crypto clock body key))
    (sent : Bytes) :
    validateResponseSig crypto sent headers .cloud key =
      if digest crypto key body (toString clock.seconds) =
          digest crypto key sent (toString clock.seconds)
        then .ok (.ok (some key)) else .ok (.error sigVerificationFailedError) := by
  have ht : firstOf (signResponse crypto clock body key) "t" = some (toString clock.seconds) := by
    simp [firstOf, parseQsl_signResponse]
  have hs : firstOf (signResponse crypto clock body key) "s" =
      some (digest crypto key body (toString clock.seconds)) := by
    simp [firstOf, parseQsl_signResponse]
  have htime : timestamp (signResponse crypto clock body key) = .ok (some clock.seconds) := by
    rw [timestamp, ht]
    simp only
    rw [int_toString clock.readable]
    rfl
  have hsigned : signedTime (some (clock.seconds : ℤ)) = toString clock.seconds := by
    have hpos := clock.pos
    rw [signedTime, if_neg (by omega)]
    rfl
  rw [validateResponseSig, validateSig, if_neg (by decide), h]
  simp only [htime, hs, hsigned, compareDigest, (digest_hex _).isAscii, bind, Except.bind]
  simp

end Signed

end Net

/-! ## A sample

SHA-256 on the messages that the later samples sign, and a MAC without
collisions on the others. -/

namespace Sample

def signingKey : String := "signkey-test-00112233"

def requestText : String :=
  "\x7b\"ctx\":\x7b\"attempt\":0,\"disable_immediate_execution\":false,\"run_id\":\"run\"," ++
  "\"stack\":\x7b\x7d\x7d,\"event\":\x7b\"name\":\"e\"\x7d,\"events\":[],\"steps\":\x7b\x7d," ++
  "\"use_api\":false\x7d"

def digests : List (String × ℕ) :=
  [("1700000000", 0xbc0d01944fc78212f8a7877f1a45c6a872f2db95db27e173659daa2c949a1c75),
    ("null1700000000", 0x1732d77efa10f97cf067a70e754817337886e9da5f9661ab3928e3e50dd302e8),
    (requestText ++ "1700000000",
      0xb36af9b23e7807ab714ae3a8d4262b768b4a6bb4d997aa46e49e679f186b66e6)]

def digestBytes (n : ℕ) : Bytes := (List.range 32).reverse.map fun i => .ofNat (n >>> (8 * i))

/-- What stands for the other digests has one more digit than there are pairs. -/
def mac (key message : Bytes) : String :=
  match digests.find? fun d => key = encode "00112233" ∧ message = encode d.1 with
  | some d => hex (digestBytes d.2)
  | none => "0" ++ hex message

theorem mac_cases (key message : Bytes) :
    (∃ d ∈ digests, message = encode d.1 ∧ mac key message = hex (digestBytes d.2)) ∨
      mac key message = "0" ++ hex message := by
  rw [mac]
  cases hfind : digests.find? fun d => key = encode "00112233" ∧ message = encode d.1 with
  | none => exact .inr rfl
  | some d =>
    have hd := List.find?_some hfind
    simp only [decide_eq_true_eq] at hd
    exact .inl ⟨d, List.mem_of_find?_eq_some hfind, hd.2, rfl⟩

theorem mac_injective (key : Bytes) : Function.Injective (mac key) := by
  intro a b h
  have hdigests : (digests.map fun d => digestBytes d.2).Nodup := by decide
  have hodd : ∀ bs : Bytes, ("0" ++ hex bs).length = 2 * bs.length + 1 := fun bs => by
    rw [String.length_append, length_hex, Nat.add_comm]
    rfl
  have hne : ∀ n message, hex (digestBytes n) ≠ "0" ++ hex message := fun n message h => by
    have hlength := congrArg String.length h
    rw [length_hex, hodd] at hlength
    omega
  rcases mac_cases key a with ⟨d, hd, rfl, ha⟩ | ha <;>
    rcases mac_cases key b with ⟨d', hd', rfl, hb⟩ | hb <;> rw [ha, hb] at h
  · rw [List.inj_on_of_nodup_map hdigests hd hd' (hex_injective h)]
  · exact absurd h (hne _ _)
  · exact absurd h.symm (hne _ _)
  · exact hex_injective (by simpa using h)

def cryptography : Crypto where
  hmac := mac
  sha256 := hex
  isWord c := c.isAlphanum || c = '_'
  jcs := .ok
  hmac_hex key message := by
    rcases mac_cases key message with ⟨d, -, -, h⟩ | h <;> rw [h]
    · exact isHex_hex _
    · intro c hc
      rw [String.toList_append, List.mem_append] at hc
      rcases hc with hc | hc
      · obtain rfl : c = '0' := by simpa using hc
        exact .inl rfl
      · exact isHex_hex _ c hc
  hmac_ne key message := by
    rcases mac_cases key message with ⟨d, -, -, h⟩ | h <;> rw [h]
    · simp [hex, digestBytes, hexByte, List.range_succ]
    · simp

def clock : Clock := ⟨1700000000, by decide, by decide⟩

end Sample

end Inngest
