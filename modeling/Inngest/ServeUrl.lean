import Mathlib.Data.List.Infix
import Inngest.Signature
import Inngest.Url

/-!
# `create_serve_url`

The URL at which the executor reaches an app: that of a request, with what the
code, the environment and the adapter say in the place of its parts. It cannot
be made of a URL or an origin that `urlparse` refuses.
-/

set_option autoImplicit false

namespace Inngest
open ServerLib Errors Python

/-! ## Overrides -/

namespace ConfigLib
variable (environ : String → Option String) (codeValue : Option String)

def override (name : String) : Option String :=
  codeValue <|> (environ name).filter (· ≠ "")

def getServeOrigin : Option String := override environ codeValue "INNGEST_SERVE_ORIGIN"

def getServePath : Option String := override environ codeValue "INNGEST_SERVE_PATH"

end ConfigLib

/-! ## The URL -/

namespace Net
variable (check : List Char → Option PyError) (environ : String → Option String)

def hasScheme (origin : String) : Bool := decide ("://".toList <:+: origin.toList)

def orElse (first second : List Char) : List Char := if first = [] then second else first

def serveLocation (parsedUrl : ParseResult) : Option String → Raising (List Char × List Char)
  | none => .ok (parsedUrl.scheme, parsedUrl.netloc)
  | some serveOrigin =>
    if hasScheme serveOrigin then do
      let parsedOrigin ← urlparse check serveOrigin.toList
      return (orElse parsedOrigin.scheme parsedUrl.scheme,
        orElse parsedOrigin.netloc parsedUrl.netloc)
    else .ok ("https".toList, serveOrigin.toList)

def createServeUrl (publicPath : Option String) (requestUrl : String)
    (serveOrigin servePath : Option String) : Raising String := do
  let serveOrigin := ConfigLib.getServeOrigin environ serveOrigin
  let servePath := ConfigLib.getServePath environ servePath
  let parsedUrl ← urlparse check requestUrl.toList
  let (newScheme, newNetloc) ← serveLocation check parsedUrl serveOrigin
  let newPath := (publicPath <|> servePath).elim parsedUrl.path String.toList
  return String.ofList (urlunparse newScheme newNetloc newPath)

/-! ## Where it is made -/

def Parses (text : String) : Prop := ∃ parsed, urlparse check text.toList = .ok parsed

variable {check environ} {serveOrigin : Option String} {parsedUrl : ParseResult}

theorem serveLocation_isOk :
    (∃ location, serveLocation check parsedUrl serveOrigin = .ok location) ↔
      ∀ origin ∈ serveOrigin, hasScheme origin = true → Parses check origin := by
  cases serveOrigin with
  | none => simp [serveLocation]
  | some origin =>
    by_cases hscheme : hasScheme origin = true
    · simp only [serveLocation, hscheme, if_true, Option.mem_some_iff, forall_eq', true_imp_iff,
        Parses]
      cases urlparse check origin.toList <;> simp [bind, Except.bind, pure, Except.pure]
    · simp [serveLocation, hscheme]

theorem createServeUrl_isOk {publicPath servePath : Option String} {requestUrl : String} :
    (∃ url, createServeUrl check environ publicPath requestUrl serveOrigin servePath = .ok url) ↔
      Parses check requestUrl ∧ ∀ origin ∈ ConfigLib.getServeOrigin environ serveOrigin,
        hasScheme origin = true → Parses check origin := by
  constructor
  · rintro ⟨url, h⟩
    obtain ⟨parsedUrl, hparsed, h⟩ := Raising.bind_eq_ok.mp h
    obtain ⟨location, hlocation, -⟩ := Raising.bind_eq_ok.mp h
    exact ⟨⟨parsedUrl, hparsed⟩, serveLocation_isOk.mp ⟨location, hlocation⟩⟩
  · rintro ⟨⟨parsedUrl, hparsed⟩, horigin⟩
    obtain ⟨location, hlocation⟩ := serveLocation_isOk.mpr horigin
    exact ⟨_, Raising.bind_eq_ok.mpr ⟨parsedUrl, hparsed,
      Raising.bind_eq_ok.mpr ⟨location, hlocation, rfl⟩⟩⟩

/-! An origin without a scheme is served by HTTPS, and the adapter's path counts
for more than the configured one. -/

example : createServeUrl (fun _ => none) (fun _ => none) (some "/public")
    "http://localhost:8000/api?b=1" (some "example.com") (some "/path") =
      .ok "https://example.com/public" := by decide +kernel

end Net

end Inngest
