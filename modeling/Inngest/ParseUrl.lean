import Mathlib.Data.Bool.AllAny
import Inngest.ServerLib
import Inngest.Url

/-!
# `parse_url`

The origin of a server may be given without a scheme. Whether it is usable and
whether it has a scheme are told from its characters, which a host may share
with the schemes.
-/

set_option autoImplicit false

namespace Inngest
open ServerLib Errors Python

/-- `net.parse_url`. `check` is what `urlparse` says of a network location with
brackets or characters outside ASCII. -/
def parseUrl (check : List Char → Option PyError) (url : List Char) (mode : ServerKind) :
    Except PyError (List Char) :=
  if '.' ∉ url ∧ ':' ∉ stripChars "https://".toList (stripChars "http://".toList url) then
    .error (exception "Exception" "invalid URL: no domain or port")
  else
    let url :=
      if "http".toList.isPrefixOf url then url
      else
        match mode with
        | .cloud => "https://".toList ++ url
        | .devServer => "http://".toList ++ url
    match urlparse check url with
    | .error e => .error e
    | .ok parsed =>
      if parsed.netloc = [] then .error (exception "Exception" "invalid URL")
      else .ok parsed.geturl

/-- A host name with a port and a path, each of which may be missing. Without a
port the host has a dot. -/
structure Address where
  host : List Char
  port : Option (List Char)
  path : List Char
  host_ne : host ≠ []
  host_chars : ∀ c ∈ host, (c.isAlphanum || c ∈ ['-', '.']) = true
  port_digits : ∀ digits ∈ port, digits ≠ [] ∧ ∀ c ∈ digits, c.isDigit = true
  path_slash : path = [] ∨ path.head? = some '/'
  named : '.' ∈ host ∨ port.isSome = true

namespace Address
variable (check : List Char → Option PyError) (a : Address)

def netloc : List Char := a.host ++ a.port.elim [] (':' :: ·)

def text : List Char := a.netloc ++ a.path

def scheme : ServerKind → List Char
  | .cloud => "https".toList
  | .devServer => "http".toList

def url (kind : ServerKind) : List Char := scheme kind ++ "://".toList ++ a.text

/-- `urlparse` and `geturl` are inverse on the text behind a scheme. -/
def Inverse : Prop := ∀ kind parsed, urlparse check (a.url kind) = .ok parsed →
  parsed.geturl = a.url kind

/-- `parse_url` adds the scheme of the server kind, leaves a text with a scheme
as it is, and is idempotent. -/
structure Normalized : Prop where
  added : ∀ mode, parseUrl check a.text mode = .ok (a.url mode)
  kept : ∀ kind mode, parseUrl check (a.url kind) mode = .ok (a.url kind)
  idempotent : ∀ mode input, input = a.text ∨ (∃ kind, input = a.url kind) →
    ∀ result, parseUrl check input mode = .ok result → parseUrl check result mode = .ok result

/-- The text is not taken for one with a scheme. -/
def Unprefixed : Prop := ¬ "http".toList <+: a.host

instance : Decidable a.Unprefixed := inferInstanceAs (Decidable (¬ "http".toList <+: a.host))

/-- There is a dot, or a colon is left when the characters of the schemes are
stripped. -/
def Visible : Prop :=
  '.' ∈ a.text ∨ (∃ c ∈ a.host, c ∉ "https://".toList) ∨
    ∃ before after, a.path = before ++ ':' :: after ∧ ∃ c ∈ after, c ∉ "https://".toList

variable {check} {a}

/-! ## The colon that is left -/

theorem not_htps_of_isDigit {c : Char} (h : c.isDigit = true) : c ∉ "https://".toList := by
  intro hm
  simp only [String.reduceToList, List.mem_cons, List.not_mem_nil, or_false] at hm
  rcases hm with rfl | rfl | rfl | rfl | rfl | rfl | rfl | rfl <;> exact absurd h (by decide)

theorem colon_left_iff {front : List Char} (hfront : ∀ c ∈ front, c ∈ "https://".toList)
    (hdot : '.' ∉ a.text) :
    ':' ∈ stripChars "https://".toList (stripChars "http://".toList (front ++ a.text)) ↔
      a.Visible := by
  obtain ⟨digits, hport⟩ := Option.isSome_iff_exists.mp
    (a.named.resolve_left fun h => hdot (by simp [text, netloc, h]))
  obtain ⟨hne, hdigits⟩ := a.port_digits digits hport
  have htext : a.text = a.host ++ ':' :: (digits ++ a.path) := by simp [text, netloc, hport]
  have hdigit : ∃ d ∈ digits, d ∉ "https://".toList := by
    obtain ⟨d, hd⟩ := List.exists_mem_of_ne_nil digits hne
    exact ⟨d, hd, not_htps_of_isDigit (hdigits d hd)⟩
  have hsub : ∀ c ∈ "http://".toList, c ∈ "https://".toList :=
    List.all_iff_forall_prop.mp (by decide)
  rw [mem_strip_strip hsub (by decide), htext]
  constructor
  · rintro ⟨before, after, heq, ⟨c, hc, hkept⟩, ⟨d, hd, hdkept⟩⟩
    by_cases hhost : ∃ c ∈ a.host, c ∉ "https://".toList
    · exact .inr (.inl hhost)
    · right
      right
      have hlead : ∀ c ∈ front ++ a.host, c ∈ "https://".toList := by
        intro c hc
        rcases List.mem_append.mp hc with hc | hc
        · exact hfront c hc
        · exact not_not.mp fun h => hhost ⟨c, hc, h⟩
      rw [← List.append_assoc, List.append_eq_append_iff] at heq
      rcases heq with ⟨m, rfl, hm⟩ | ⟨m, hm, -⟩
      · cases m with
        | nil => exact absurd (hlead c (by simpa using hc)) hkept
        | cons x m =>
          rw [List.cons_append, List.cons.injEq, List.append_eq_append_iff] at hm
          rcases hm.2 with ⟨k, -, hpath⟩ | ⟨k, hk, hafter⟩
          · exact ⟨k, after, hpath, d, hd, hdkept⟩
          · cases k with
            | nil =>
              have hslash := a.path_slash
              rw [← List.nil_append a.path, ← hafter] at hslash
              simp at hslash
            | cons y k =>
              obtain ⟨rfl, -⟩ := List.cons.inj hafter
              exact absurd (hdigits ':' (by simp [hk])) (by decide)
      · exact absurd (hlead c (by simp [hm, hc])) hkept
  · rintro (hin | ⟨c, hc, hkept⟩ | ⟨before, after, hpath, hkept⟩)
    · exact absurd (htext ▸ hin) hdot
    · obtain ⟨d, hd, hdkept⟩ := hdigit
      exact ⟨front ++ a.host, digits ++ a.path, by simp, ⟨c, by simp [hc], hkept⟩,
        ⟨d, by simp [hd], hdkept⟩⟩
    · obtain ⟨d, hd, hdkept⟩ := hdigit
      exact ⟨front ++ a.host ++ ':' :: digits ++ before, after, by simp [hpath],
        ⟨d, by simp [hd], hdkept⟩, hkept⟩

theorem front_scheme (kind : ServerKind) :
    ∀ c ∈ scheme kind ++ "://".toList, c ∈ "https://".toList := by
  cases kind <;> exact List.all_iff_forall_prop.mp (by decide)

/-- Which texts `parse_url` takes to have no domain and no port. -/
theorem passes_iff {front : List Char} (hfront : ∀ c ∈ front, c ∈ "https://".toList) :
    ('.' ∉ front ++ a.text ∧
      ':' ∉ stripChars "https://".toList (stripChars "http://".toList (front ++ a.text))) ↔
      ¬ a.Visible := by
  have hdots : '.' ∈ front ++ a.text ↔ '.' ∈ a.text := by
    rw [List.mem_append]
    exact or_iff_right fun h => absurd (hfront _ h) (by decide)
  rw [hdots]
  by_cases hdot : '.' ∈ a.text
  · simp [hdot, Visible]
  · rw [colon_left_iff hfront hdot]
    simp [hdot]

theorem text_passes_iff : ('.' ∉ a.text ∧
    ':' ∉ stripChars "https://".toList (stripChars "http://".toList a.text)) ↔ ¬ a.Visible :=
  passes_iff (List.forall_mem_nil _)

theorem url_passes_iff (kind : ServerKind) : ('.' ∉ a.url kind ∧
    ':' ∉ stripChars "https://".toList (stripChars "http://".toList (a.url kind))) ↔
      ¬ a.Visible :=
  passes_iff (front_scheme kind)

/-! ## The network location -/

theorem netloc_char {c : Char} (h : (c.isAlphanum || c ∈ ['-', '.', ':']) = true) :
    endsNetloc c = false ∧ isUnsafe c = false ∧ suspicious c = false ∧ c ≠ '/' ∧
      isControlOrSpace c = false := by
  have hnot : ∀ d : Char, (d.isAlphanum || d ∈ ['-', '.', ':']) = false → c ≠ d := by
    rintro d hd rfl
    exact Bool.false_ne_true (hd.symm.trans h)
  have hcode : 0x2d ≤ c.toNat ∧ c.toNat < 0x80 := by
    rcases Bool.or_eq_true _ _ |>.mp h with halnum | hmem
    · have hcode := toNat_of_isAlphanum halnum
      omega
    · simp only [decide_eq_true_eq, List.mem_cons, List.not_mem_nil, or_false] at hmem
      rcases hmem with rfl | rfl | rfl <;> decide
  refine ⟨?_, ?_, ?_, hnot '/' (by decide), ?_⟩
  · simp [endsNetloc, hnot '/' (by decide), hnot '?' (by decide), hnot '#' (by decide)]
  · simp [isUnsafe, hnot '\t' (by decide), hnot '\r' (by decide), hnot '\n' (by decide)]
  · simp [suspicious, hnot '[' (by decide), hnot ']' (by decide), hcode.2]
  · simp only [isControlOrSpace, decide_eq_false_iff_not]
    omega

theorem host_char {c : Char} (h : c ∈ a.host) : (c.isAlphanum || c ∈ ['-', '.', ':']) = true := by
  have hc := a.host_chars c h
  simp only [Bool.or_eq_true, decide_eq_true_eq, List.mem_cons, List.not_mem_nil, or_false] at hc ⊢
  tauto

theorem netloc_chars : ∀ c ∈ a.netloc, endsNetloc c = false ∧ isUnsafe c = false ∧
    suspicious c = false := by
  intro c hc
  have hchar : (c.isAlphanum || c ∈ ['-', '.', ':']) = true := by
    rcases List.mem_append.mp hc with hc | hc
    · exact host_char hc
    · cases hport : a.port with
      | none => simp [hport] at hc
      | some digits =>
        rw [hport, Option.elim_some, List.mem_cons] at hc
        rcases hc with rfl | hc
        · decide
        · simp [Char.isAlphanum, (a.port_digits digits hport).2 c hc]
  obtain ⟨hends, hsafe, hplain, -⟩ := netloc_char hchar
  exact ⟨hends, hsafe, hplain⟩

theorem urlsplit_url (kind : ServerKind) : (urlsplit (a.url kind)).netloc = a.netloc := by
  have hscheme : ∃ c cs, scheme kind = c :: cs ∧ c.isAlpha = true ∧ cs.all isSchemeChar = true := by
    cases kind <;> exact ⟨_, _, rfl, by decide, by decide⟩
  have hchars : ∀ c ∈ a.netloc, endsNetloc c = false ∧ isUnsafe c = false := fun c hc =>
    ⟨(netloc_chars c hc).1, (netloc_chars c hc).2.1⟩
  rw [url, text, ← List.append_assoc, urlsplit_netloc hscheme hchars a.path_slash]

theorem parseUrl_url (hinv : a.Inverse check) (hv : a.Visible) (kind mode : ServerKind) :
    parseUrl check (a.url kind) mode = .ok (a.url kind) := by
  have hstarts : "http".toList.isPrefixOf (a.url kind) = true := by
    cases kind <;> rfl
  have hnetloc := urlsplit_url (a := a) kind
  have hplain : (urlsplit (a.url kind)).netloc.any suspicious = false := by
    rw [hnetloc, List.any_eq_false]
    exact fun c hc => by simp [(netloc_chars c hc).2.2]
  obtain ⟨parsed, hparse, hn, -⟩ := urlparse_ok check hplain
  have hne : parsed.netloc ≠ [] := by
    rw [hn, hnetloc]
    simp [netloc, a.host_ne]
  unfold parseUrl
  rw [if_neg ((url_passes_iff kind).not.mpr (not_not.mpr hv))]
  simp only [hstarts, if_true, hparse, if_neg hne, hinv kind parsed hparse]

/-- Without a scheme there is no network location: what is before the port is
taken for the scheme, or everything for the path. -/
theorem urlsplit_text : (urlsplit a.text).netloc = [] := by
  obtain ⟨c, cs, hhost⟩ := List.exists_cons_of_ne_nil a.host_ne
  obtain ⟨-, -, -, hslash, hprint⟩ := netloc_char (host_char (a := a) (c := c) (by simp [hhost]))
  have hkept : a.netloc.filter (fun c => !isUnsafe c) = a.netloc :=
    List.filter_eq_self.mpr fun c hc => by simp [(netloc_chars c hc).2.1]
  have hclean : cleaned a.text = a.netloc ++ a.path.filter fun c => !isUnsafe c := by
    have hdrop : a.text.dropWhile isControlOrSpace = a.text := by
      rw [text, netloc, hhost]
      exact List.dropWhile_cons_of_neg (by simp [hprint])
    rw [cleaned, hdrop, text, List.filter_append, hkept]
  have hpath : (a.path.filter fun c => !isUnsafe c) = [] ∨
      ∃ p, (a.path.filter fun c => !isUnsafe c) = '/' :: p := by
    rcases a.path_slash with hnil | hhead
    · exact .inl (by rw [hnil]; rfl)
    · obtain ⟨p, hp⟩ := List.head?_eq_some_iff.mp hhead
      exact .inr ⟨p.filter fun c => !isUnsafe c, by rw [hp]; rfl⟩
  have hrest : ∀ rest, (splitScheme (cleaned a.text)).2 ≠ '/' :: '/' :: rest := by
    intro rest heq
    by_cases hs : (splitScheme (cleaned a.text)).1 = []
    · rw [splitScheme_none hs, hclean, netloc, hhost] at heq
      exact hslash (List.cons.inj heq).1
    · obtain ⟨d, ds, hd, hds, hsplit⟩ := eq_of_splitScheme hs
      rw [heq, hclean, List.append_eq_append_iff] at hsplit
      have hcolon : ':' ∉ a.host := fun h => absurd (a.host_chars _ h) (by decide)
      have hscheme : ∀ x ∈ d :: ds, isSchemeChar x = true := by
        intro x hx
        rcases List.mem_cons.mp hx with rfl | hx
        · simp [isSchemeChar, Char.isAlphanum, hd]
        · exact List.all_eq_true.mp hds x hx
      rcases hsplit with ⟨m, hm, hpath'⟩ | ⟨m, hm, hpath'⟩
      · rcases hpath with hnil | ⟨p, hp⟩
        · simp [hnil] at hpath'
        · cases m with
          | nil => simp [hp] at hpath'
          | cons x m =>
            rw [hp, List.cons_append, List.cons.injEq] at hpath'
            exact absurd (hscheme x (by simp [hm])) (by rw [← hpath'.1]; decide)
      · cases m with
        | nil => rcases hpath with hnil | ⟨p, hp⟩ <;> simp_all
        | cons x m =>
          obtain ⟨rfl, hm'⟩ := List.cons.inj hpath'
          cases hport : a.port with
          | none =>
            refine hcolon ?_
            have hhost : a.host = d :: ds ++ ':' :: m := by simpa [netloc, hport] using hm
            simp [hhost]
          | some digits =>
            have hcut := cut_append hcolon digits
            have heq : a.host ++ ':' :: digits = d :: ds ++ ':' :: m := by
              simpa [netloc, hport] using hm
            rw [heq, cut_append fun h => absurd (hscheme ':' h) (by decide)] at hcut
            obtain ⟨hne, hdigits⟩ := a.port_digits digits hport
            obtain ⟨x, xs, rfl⟩ := List.exists_cons_of_ne_nil hne
            rw [(Prod.mk.inj hcut).2] at hm'
            obtain ⟨hx, -⟩ := List.cons.inj hm'
            exact absurd (hdigits x (.head _)) (by rw [← hx]; decide)
  rw [urlsplit]
  simp only [splitNetloc_none hrest]

theorem prefix_text : "http".toList <+: a.text ↔ ¬ a.Unprefixed := by
  rw [Unprefixed, not_not]
  constructor
  · rintro ⟨rest, h⟩
    rw [text, netloc, List.append_assoc, List.append_eq_append_iff] at h
    rcases h with ⟨m, hm, -⟩ | ⟨m, hm, hrest⟩
    · exact ⟨m, hm.symm⟩
    · cases m with
      | nil => exact ⟨[], by simpa using hm⟩
      | cons x m =>
        have hx : x ∈ "http".toList := by simp [hm]
        have hsep : x = ':' ∨ x = '/' := by
          cases hport : a.port with
          | some digits =>
            rw [hport] at hrest
            exact .inl (List.cons.inj hrest).1.symm
          | none =>
            rw [hport, Option.elim_none, List.nil_append] at hrest
            have hslash := a.path_slash
            rw [hrest] at hslash
            exact .inr (by simpa using hslash)
        rcases hsep with rfl | rfl
        · exact absurd hx (by decide)
        · exact absurd hx (by decide)
  · intro h
    exact h.trans ⟨a.port.elim [] (':' :: ·) ++ a.path, by simp [text, netloc]⟩

theorem parseUrl_prefixed (h : ¬ a.Unprefixed) (mode : ServerKind) :
    ∃ e, parseUrl check a.text mode = .error e := by
  have hstarts : "http".toList.isPrefixOf a.text = true :=
    List.isPrefixOf_iff_prefix.mpr (prefix_text.mpr h)
  have hplain : (urlsplit a.text).netloc.any suspicious = false := by
    rw [urlsplit_text]
    rfl
  obtain ⟨parsed, hparse, hn, -⟩ := urlparse_ok check hplain
  rw [urlsplit_text] at hn
  unfold parseUrl
  rw [if_pos hstarts]
  split
  · exact ⟨_, rfl⟩
  · simp only [hparse, hn, if_true]
    exact ⟨_, rfl⟩

theorem parseUrl_text (hp : a.Unprefixed) (hv : a.Visible) (mode : ServerKind) :
    parseUrl check a.text mode = parseUrl check (a.url mode) mode := by
  have hstarts : "http".toList.isPrefixOf a.text = false := by
    rw [← Bool.not_eq_true, List.isPrefixOf_iff_prefix, prefix_text]
    exact not_not.mpr hp
  have hstarts' : "http".toList.isPrefixOf (a.url mode) = true := by
    cases mode <;> rfl
  unfold parseUrl
  rw [if_neg (text_passes_iff.not.mpr (not_not.mpr hv)),
    if_neg ((url_passes_iff mode).not.mpr (not_not.mpr hv))]
  simp only [hstarts, hstarts', if_true, Bool.false_eq_true, if_false]
  cases mode <;> rfl

/-- The assumption on `urlparse` and `geturl` is met by a path that has no
query, fragment or parameters behind it. -/
theorem inverse_of_plain (h : ∀ c ∈ a.path, c ∉ ['?', '#', ';'] ∧ isUnsafe c = false) :
    a.Inverse check := by
  intro kind parsed hparse
  have hscheme : ∃ c cs, scheme kind = c :: cs ∧ c.isAlpha = true ∧ cs.all isSchemeChar = true := by
    cases kind <;> exact ⟨_, _, rfl, by decide, by decide⟩
  have hlower : (scheme kind).map Char.toLower = scheme kind := by
    cases kind <;> decide
  have hchars : ∀ c ∈ a.netloc, endsNetloc c = false ∧ isUnsafe c = false := fun c hc =>
    ⟨(netloc_chars c hc).1, (netloc_chars c hc).2.1⟩
  have hplain : a.netloc.any suspicious = false := by
    rw [List.any_eq_false]
    exact fun c hc => by simp [(netloc_chars c hc).2.2]
  have hround := geturl_urlparse hscheme hchars a.path_slash check hlower h hplain
  have hurl : scheme kind ++ "://".toList ++ a.netloc ++ a.path = a.url kind := by
    rw [url, text, ← List.append_assoc]
  rw [hurl, hparse] at hround
  exact Except.ok.inj hround

/-! ## Three hosts -/

def httpbin : Address where
  host := "httpbin.org".toList
  port := none
  path := []
  host_ne := by decide
  host_chars := List.all_iff_forall_prop.mp (by decide)
  port_digits := by simp
  path_slash := .inl rfl
  named := by decide

def tps : Address where
  host := "tps".toList
  port := some "8080".toList
  path := []
  host_ne := by decide
  host_chars := List.all_iff_forall_prop.mp (by decide)
  port_digits := by
    rintro digits ⟨rfl⟩
    exact ⟨by decide, List.all_iff_forall_prop.mp (by decide)⟩
  path_slash := .inl rfl
  named := by decide

def localhost : Address where
  host := "localhost".toList
  port := some "8288".toList
  path := "/api".toList
  host_ne := by decide
  host_chars := List.all_iff_forall_prop.mp (by decide)
  port_digits := by
    rintro digits ⟨rfl⟩
    exact ⟨by decide, List.all_iff_forall_prop.mp (by decide)⟩
  path_slash := by decide
  named := by decide

end Address

/-- `parse_url` refuses the first host without a scheme, since it begins with
`http`, and the second one with a scheme too, since nothing of it is left when
the characters of the schemes are stripped. -/
theorem hosts_not_normalized :
    (Address.httpbin.Inverse fun _ => none) ∧ ¬ (Address.httpbin.Normalized fun _ => none) ∧
      (Address.tps.Inverse fun _ => none) ∧ ¬ (Address.tps.Normalized fun _ => none) := by
  refine ⟨Address.inverse_of_plain (List.forall_mem_nil _), fun h => ?_,
    Address.inverse_of_plain (List.forall_mem_nil _), fun h => ?_⟩
  · obtain ⟨e, he⟩ := Address.parseUrl_prefixed (a := Address.httpbin) (by decide) .cloud
    have hadded := h.added .cloud
    rw [he] at hadded
    cases hadded
  · have hrefused : parseUrl (fun _ => none) (Address.tps.url .cloud) .cloud =
        .error (exception "Exception" "invalid URL: no domain or port") := by decide
    have hkept := h.kept .cloud .cloud
    rw [hrefused] at hkept
    cases hkept

/-- When `parse_url` gives the URL that a host, port and path stand for. -/
theorem parseUrl_normalized_iff {check : List Char → Option PyError} {a : Address}
    (hinv : a.Inverse check) : a.Normalized check ↔ a.Unprefixed ∧ a.Visible := by
  constructor
  · intro h
    constructor
    · by_contra hp
      have hadded := h.added .cloud
      obtain ⟨e, he⟩ := Address.parseUrl_prefixed (a := a) hp .cloud
      rw [he] at hadded
      cases hadded
    · by_contra hv
      have hadded := h.added .cloud
      unfold parseUrl at hadded
      rw [if_pos (Address.text_passes_iff.mpr hv)] at hadded
      simp at hadded
  · rintro ⟨hp, hv⟩
    have hurl := Address.parseUrl_url hinv hv
    have htext (mode : ServerKind) : parseUrl check a.text mode = .ok (a.url mode) := by
      rw [Address.parseUrl_text hp hv, hurl]
    refine ⟨htext, hurl, ?_⟩
    rintro mode input (rfl | ⟨kind, rfl⟩) result hresult
    · obtain rfl := Except.ok.inj ((htext mode).symm.trans hresult)
      exact hurl mode mode
    · obtain rfl := Except.ok.inj ((hurl kind mode).symm.trans hresult)
      exact hurl kind mode

theorem parseUrl_normalized_localhost : Address.localhost.Normalized fun _ => none :=
  (parseUrl_normalized_iff
      (Address.inverse_of_plain (List.all_iff_forall_prop.mp (by decide)))).mpr
    ⟨by decide, .inr (.inl ⟨'l', by decide, by decide⟩)⟩

end Inngest
