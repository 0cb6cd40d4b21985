import Mathlib.Data.List.DropRight
import Mathlib.Data.List.TakeWhile
import Inngest.Python

/-!
# `urllib.parse.urlparse`

The parts of a URL, on the characters of its text, and the text that they are
put together to. Only a network location outside ASCII or with brackets is
checked; what that check says is given.
-/

set_option autoImplicit false

namespace Python

def isControlOrSpace (c : Char) : Bool := c.toNat ≤ 0x20

def isUnsafe (c : Char) : Bool := c ∈ ['\t', '\r', '\n']

def isSchemeChar (c : Char) : Bool := c.isAlphanum || c ∈ ['+', '-', '.']

/-- `text.split(separator, 1)`, with nothing behind a separator that is not there. -/
def cut (separator : Char) (cs : List Char) : List Char × List Char :=
  ((cs.takeWhile (· ≠ separator)), (cs.dropWhile (· ≠ separator)).tail)

def cleaned (text : List Char) : List Char :=
  (text.dropWhile isControlOrSpace).filter fun c => !isUnsafe c

structure SplitResult where
  scheme : List Char
  netloc : List Char
  path : List Char
  query : List Char
  fragment : List Char
  deriving DecidableEq, Repr

def splitScheme (url : List Char) : List Char × List Char :=
  match url.span (· ≠ ':') with
  | (c :: cs, _ :: rest) =>
    if c.isAlpha ∧ cs.all isSchemeChar then ((c :: cs).map Char.toLower, rest) else ([], url)
  | _ => ([], url)

def endsNetloc (c : Char) : Bool := c ∈ ['/', '?', '#']

def splitNetloc : List Char → List Char × List Char
  | '/' :: '/' :: rest => rest.span fun c => !endsNetloc c
  | url => ([], url)

def urlsplit (text : List Char) : SplitResult :=
  let (scheme, url) := splitScheme (cleaned text)
  let (netloc, url) := splitNetloc url
  let (url, fragment) := cut '#' url
  let (path, query) := cut '?' url
  ⟨scheme, netloc, path, query, fragment⟩

example : urlsplit " wss://a.b:80/c?d=/e#f?g".toList =
    ⟨"wss".toList, "a.b:80".toList, "/c".toList, "d=/e".toList, "f?g".toList⟩ := by decide

def suspicious (c : Char) : Bool := c ∈ ['[', ']'] || 0x80 ≤ c.toNat

structure ParseResult extends SplitResult where
  params : List Char

def usesParams : List String :=
  ["", "ftp", "hdl", "prospero", "http", "https", "shttp", "rtsp", "rtsps", "rtspu", "sip", "sips",
    "mms", "sftp", "tel"]

/-- `_splitparams`: what is behind a semicolon in the last segment. -/
def splitParams (url : List Char) : List Char × List Char :=
  let (segment, params) := cut ';' (url.rtakeWhile (· ≠ '/'))
  (url.rdropWhile (· ≠ '/') ++ segment, params)

def urlparse {ε : Type} (check : List Char → Option ε) (text : List Char) :
    Except ε ParseResult :=
  let parts := urlsplit text
  match if parts.netloc.any suspicious then check parts.netloc else none with
  | some e => .error e
  | none =>
    let (path, params) :=
      if String.ofList parts.scheme ∈ usesParams ∧ ';' ∈ parts.path then splitParams parts.path
      else (parts.path, [])
    .ok { parts with path := path, params := params }

def ParseResult.geturl (parts : ParseResult) : List Char :=
  let url := if parts.params = [] then parts.path else parts.path ++ ';' :: parts.params
  let url := if url ≠ [] ∧ url.head? ≠ some '/' then '/' :: url else url
  let url := '/' :: '/' :: parts.netloc ++ url
  let url := if parts.scheme = [] then url else parts.scheme ++ ':' :: url
  let url := if parts.query = [] then url else url ++ '?' :: parts.query
  if parts.fragment = [] then url else url ++ '#' :: parts.fragment

def usesNetloc : List String :=
  ["", "ftp", "http", "gopher", "nntp", "telnet", "imap", "wais", "file", "mms", "https", "shttp",
    "snews", "prospero", "rtsp", "rtspu", "rsync", "svn", "svn+ssh", "sftp", "nfs", "git",
    "git+ssh", "ws", "wss"]

/-- `urlunparse` without parameters, query and fragment. What it does without a
network location is not the same in all versions; this is that of 3.10. -/
def urlunparse (scheme netloc url : List Char) : List Char :=
  let url :=
    if netloc ≠ [] ∨ scheme ≠ [] ∧ String.ofList scheme ∈ usesNetloc ∧ url.take 2 ≠ ['/', '/'] then
      '/' :: '/' :: netloc ++ if url ≠ [] ∧ url.head? ≠ some '/' then '/' :: url else url
    else url
  if scheme = [] then url else scheme ++ ':' :: url

/-! ## The parts of a text that is put together -/

section Parts
variable {url cs scheme : List Char} {c separator : Char}

theorem span_stopped {p : Char → Bool} (hc : p c = false) (cs rest : List Char) :
    (cs ++ c :: rest).span p = ((cs.span p).1, (cs.span p).2 ++ c :: rest) := by
  simp only [List.span_eq_takeWhile_dropWhile]
  induction cs with
  | nil => simp [hc]
  | cons d cs ih =>
    by_cases hd : p d = true
    · simpa [hd] using ih
    · simp [hd]

theorem span_append {p : Char → Bool} (h : ∀ a ∈ cs, p a = true) (hc : p c = false)
    (rest : List Char) : (cs ++ c :: rest).span p = (cs, c :: rest) := by
  rw [span_stopped hc, List.span_eq_takeWhile_dropWhile, List.takeWhile_eq_self_iff.mpr h,
    List.dropWhile_eq_nil_iff.mpr h]
  rfl

theorem cut_append (h : separator ∉ url) (rest : List Char) :
    cut separator (url ++ separator :: rest) = (url, rest) := by
  have hurl : ∀ c ∈ url, decide (c ≠ separator) = true := by
    intro c hc
    simpa using fun heq : c = separator => h (heq ▸ hc)
  rw [cut, List.takeWhile_append_of_pos hurl, List.dropWhile_append_of_pos hurl]
  simp

theorem cut_none (h : separator ∉ url) : cut separator url = (url, []) := by
  have hurl : ∀ c ∈ url, decide (c ≠ separator) = true := by
    intro c hc
    simpa using fun heq : c = separator => h (heq ▸ hc)
  rw [cut, List.takeWhile_eq_self_iff.mpr hurl, List.dropWhile_eq_nil_iff.mpr hurl]
  rfl

theorem splitScheme_append (hc : c.isAlpha = true) (hcs : cs.all isSchemeChar = true)
    (rest : List Char) :
    splitScheme (c :: cs ++ ':' :: rest) = ((c :: cs).map Char.toLower, rest) := by
  have hcolon : ∀ a ∈ c :: cs, decide (a ≠ ':') = true := by
    intro a ha
    simp only [decide_eq_true_eq]
    rintro rfl
    rcases List.mem_cons.mp ha with rfl | ha
    · exact absurd hc (by decide)
    · exact absurd (List.all_eq_true.mp hcs _ ha) (by decide)
  rw [splitScheme, span_append hcolon (by decide)]
  exact if_pos ⟨hc, hcs⟩

theorem eq_of_splitScheme (h : (splitScheme url).1 ≠ []) :
    ∃ c cs, c.isAlpha = true ∧ cs.all isSchemeChar = true ∧
      url = c :: cs ++ ':' :: (splitScheme url).2 := by
  have hurl := List.takeWhile_append_dropWhile (p := fun a => decide (a ≠ ':')) (l := url)
  rw [splitScheme, List.span_eq_takeWhile_dropWhile] at h ⊢
  cases htake : url.takeWhile (fun a => decide (a ≠ ':')) with
  | nil =>
    rw [htake] at h
    exact absurd rfl h
  | cons c cs =>
    cases hdrop : url.dropWhile (fun a => decide (a ≠ ':')) with
    | nil =>
      rw [htake, hdrop] at h
      exact absurd rfl h
    | cons d rest =>
      have hd : d = ':' := by
        have hhead := List.head?_dropWhile_not (fun a => decide (a ≠ ':')) url
        rw [hdrop] at hhead
        simpa using hhead
      simp only [htake, hdrop] at h ⊢
      split at h
      · rename_i hscheme
        rw [if_pos hscheme]
        exact ⟨c, cs, hscheme.1, hscheme.2, by rw [← hurl, htake, hdrop, hd]⟩
      · simp at h

theorem splitScheme_none (h : (splitScheme url).1 = []) : splitScheme url = ([], url) := by
  unfold splitScheme at h ⊢
  split
  · rename_i c cs d rest hspan
    rw [hspan] at h
    dsimp only at h
    split at h
    · simp at h
    · rw [if_neg ‹_›]
  · rfl

theorem splitNetloc_none (h : ∀ rest, url ≠ '/' :: '/' :: rest) : splitNetloc url = ([], url) := by
  rw [splitNetloc]
  exact h

theorem splitNetloc_append (hc : endsNetloc c = true) (hne : c ≠ '/') (url rest : List Char) :
    splitNetloc (url ++ c :: rest) = ((splitNetloc url).1, (splitNetloc url).2 ++ c :: rest) := by
  by_cases hslash : ∃ cs, url = '/' :: '/' :: cs
  · obtain ⟨cs, rfl⟩ := hslash
    exact span_stopped (by simp [hc]) cs rest
  · rw [not_exists] at hslash
    rw [splitNetloc_none hslash, splitNetloc_none]
    intro cs heq
    rcases url with - | ⟨a, - | ⟨b, url⟩⟩
    · exact hne (List.cons.inj heq).1
    · simp only [List.singleton_append, List.cons.injEq] at heq
      exact hne heq.2.1
    · simp only [List.cons_append, List.cons.injEq] at heq
      exact hslash url (by rw [heq.1, heq.2.1])

theorem mem_splitNetloc (hc : endsNetloc c = true) (hne : c ≠ '/') (h : c ∈ url) :
    c ∈ (splitNetloc url).2 := by
  by_cases hslash : ∃ cs, url = '/' :: '/' :: cs
  · obtain ⟨cs, rfl⟩ := hslash
    have hcs : c ∈ cs.takeWhile (fun a => !endsNetloc a) ++
        cs.dropWhile (fun a => !endsNetloc a) := by
      rw [List.takeWhile_append_dropWhile]
      simpa [hne] using h
    rw [splitNetloc, List.span_eq_takeWhile_dropWhile]
    refine (List.mem_append.mp hcs).resolve_left fun htake => ?_
    have := List.mem_takeWhile_imp htake
    simp [hc] at this
  · rwa [splitNetloc_none (not_exists.mp hslash)]

theorem splitNetloc_suffix (url : List Char) : (splitNetloc url).2 ⊆ url := by
  by_cases hslash : ∃ cs, url = '/' :: '/' :: cs
  · obtain ⟨cs, rfl⟩ := hslash
    rw [splitNetloc, List.span_eq_takeWhile_dropWhile]
    exact fun a ha => by simp [(List.dropWhile_sublist _).subset ha]
  · rw [splitNetloc_none (not_exists.mp hslash)]
    exact List.Subset.refl url

end Parts

theorem urlparse_ok {ε : Type} (check : List Char → Option ε) {text : List Char}
    (h : (urlsplit text).netloc.any suspicious = false) : ∃ parts, urlparse check text = .ok parts ∧
      parts.netloc = (urlsplit text).netloc ∧
      (';' ∉ (urlsplit text).path → parts = { urlsplit text with params := [] }) := by
  rw [urlparse, h]
  by_cases hparams : String.ofList (urlsplit text).scheme ∈ usesParams ∧ ';' ∈ (urlsplit text).path
  · simp [hparams]
  · simp [hparams]

/-! ## A network location behind a scheme -/

theorem safe_of_schemeChar {c : Char} (h : isSchemeChar c = true) : isUnsafe c = false := by
  cases hbad : isUnsafe c with
  | false => rfl
  | true =>
    have hmem : c ∈ ['\t', '\r', '\n'] := of_decide_eq_true hbad
    simp only [List.mem_cons, List.not_mem_nil, or_false] at hmem
    rcases hmem with rfl | rfl | rfl <;> exact absurd h (by decide)

theorem printable_of_isAlpha {c : Char} (h : c.isAlpha = true) : isControlOrSpace c = false := by
  have hcode := toNat_of_isAlpha h
  simp only [isControlOrSpace, decide_eq_false_iff_not]
  omega

section Netloc
variable {scheme netloc path : List Char}
  (hscheme : ∃ c cs, scheme = c :: cs ∧ c.isAlpha = true ∧ cs.all isSchemeChar = true)
  (hnetloc : ∀ c ∈ netloc, endsNetloc c = false ∧ isUnsafe c = false)
  (hpath : path = [] ∨ path.head? = some '/')
include hscheme hnetloc hpath

theorem urlsplit_netloc : urlsplit (scheme ++ "://".toList ++ netloc ++ path) =
    ⟨scheme.map Char.toLower, netloc,
      (cut '?' (cut '#' (path.filter fun c => !isUnsafe c)).1).1,
      (cut '?' (cut '#' (path.filter fun c => !isUnsafe c)).1).2,
      (cut '#' (path.filter fun c => !isUnsafe c)).2⟩ := by
  obtain ⟨c, cs, rfl, hc, hcs⟩ := hscheme
  have hsafe : ∀ {l : List Char}, (∀ a ∈ l, isUnsafe a = false) →
      l.filter (fun a => !isUnsafe a) = l := by
    intro l hl
    exact List.filter_eq_self.mpr fun a ha => by simp [hl a ha]
  have hclean : cleaned (c :: cs ++ "://".toList ++ netloc ++ path) =
      c :: cs ++ ':' :: '/' :: '/' :: (netloc ++ path.filter fun a => !isUnsafe a) := by
    have hhead : isUnsafe c = false :=
      safe_of_schemeChar (by simp [isSchemeChar, Char.isAlphanum, hc])
    have htail : ∀ a ∈ cs, isUnsafe a = false := fun a ha =>
      safe_of_schemeChar (List.all_eq_true.mp hcs a ha)
    rw [cleaned, List.append_assoc, List.append_assoc, List.cons_append,
      List.dropWhile_cons_of_neg (by simp [printable_of_isAlpha hc])]
    simp only [List.filter_cons, List.filter_append, hhead, hsafe htail,
      hsafe fun a ha => (hnetloc a ha).2]
    rfl
  have hspan : (netloc ++ path.filter fun a => !isUnsafe a).span (fun a => !endsNetloc a) =
      (netloc, path.filter fun a => !isUnsafe a) := by
    have hends : ∀ a ∈ netloc, (!endsNetloc a) = true := fun a ha => by simp [(hnetloc a ha).1]
    rcases path with - | ⟨a, path⟩
    · rw [List.filter_nil, List.append_nil, List.span_eq_takeWhile_dropWhile,
        List.takeWhile_eq_self_iff.mpr hends, List.dropWhile_eq_nil_iff.mpr hends]
    · obtain rfl : a = '/' := by simpa using hpath
      exact span_append hends (by decide) _
  rw [urlsplit, hclean, splitScheme_append hc hcs]
  simp only [splitNetloc, hspan]

variable {ε : Type} (check : List Char → Option ε)

theorem geturl_urlparse (hlower : scheme.map Char.toLower = scheme)
    (hplain : ∀ c ∈ path, c ∉ ['?', '#', ';'] ∧ isUnsafe c = false)
    (hcheck : netloc.any suspicious = false) :
    (urlparse check (scheme ++ "://".toList ++ netloc ++ path)).map ParseResult.geturl =
      .ok (scheme ++ "://".toList ++ netloc ++ path) := by
  have hfilter : path.filter (fun c => !isUnsafe c) = path :=
    List.filter_eq_self.mpr fun c hc => by simp [(hplain c hc).2]
  have hsep : '?' ∉ path ∧ '#' ∉ path ∧ ';' ∉ path := by
    refine ⟨fun h => ?_, fun h => ?_, fun h => ?_⟩ <;> simpa using (hplain _ h).1
  have hsplit := urlsplit_netloc hscheme hnetloc hpath
  rw [hfilter, cut_none hsep.2.1, cut_none hsep.1, hlower] at hsplit
  have hcheck' : (urlsplit (scheme ++ "://".toList ++ netloc ++ path)).netloc.any suspicious =
      false := by rw [hsplit]; exact hcheck
  obtain ⟨parts, hparse, -, hparts⟩ := urlparse_ok check hcheck'
  rw [hsplit] at hparts
  have hscheme' : scheme ≠ [] := by
    obtain ⟨c, cs, rfl, -⟩ := hscheme
    simp
  rw [hparse, hparts hsep.2.2]
  simp only [Except.map, ParseResult.geturl, if_neg hscheme', if_true]
  have hslash : ¬ (path ≠ [] ∧ path.head? ≠ some '/') := by
    rintro ⟨hp, hh⟩
    exact hpath.elim hp hh
  rw [if_neg hslash]
  simp

end Netloc

/-! ## Characters stripped from both ends -/

def stripChars (chars cs : List Char) : List Char :=
  (cs.dropWhile (· ∈ chars)).rdropWhile (· ∈ chars)

section Strip
variable {chars chars' cs : List Char} {c : Char}

theorem stripChars_append {before after : List Char} (hb : ∃ a ∈ before, a ∉ chars)
    (ha : ∃ a ∈ after, a ∉ chars) : stripChars chars (before ++ c :: after) =
      before.dropWhile (· ∈ chars) ++ c :: after.rdropWhile (· ∈ chars) := by
  have hdrop : ∀ {front : List Char}, (∃ a ∈ front, a ∉ chars) → ∀ back,
      (front ++ back).dropWhile (· ∈ chars) = front.dropWhile (· ∈ chars) ++ back := by
    rintro front ⟨a, hmem, hkept⟩ back
    rw [List.dropWhile_append, if_neg]
    rw [List.isEmpty_iff, List.dropWhile_eq_nil_iff]
    exact fun h => hkept (by simpa using h a hmem)
  have hreverse : ∃ a ∈ after.reverse, a ∉ chars := by simpa using ha
  rw [stripChars, hdrop hb, List.rdropWhile, List.reverse_append, List.reverse_cons,
    List.append_assoc, hdrop hreverse, List.reverse_append]
  simp [List.rdropWhile]

theorem stripChars_within (chars cs : List Char) : stripChars chars cs <:+: cs := by
  have hdrop : cs.dropWhile (· ∈ chars) <:+ cs := List.dropWhile_suffix _
  have hstripped := List.rdropWhile_prefix (· ∈ chars) (cs.dropWhile (· ∈ chars))
  exact hstripped.isInfix.trans hdrop.isInfix

theorem kept_around {before after : List Char} (hc : c ∈ chars)
    (h : stripChars chars cs = before ++ c :: after) :
    (∃ a ∈ before, a ∉ chars) ∧ ∃ a ∈ after, a ∉ chars := by
  constructor
  · cases before with
    | nil =>
      have hstarts : c :: after <+: cs.dropWhile (· ∈ chars) := by
        rw [← List.nil_append (c :: after), ← h]
        exact List.rdropWhile_prefix _ _
      obtain ⟨rest, hrest⟩ := hstarts
      have hhead := List.head?_dropWhile_not (fun a => decide (a ∈ chars)) cs
      rw [← hrest] at hhead
      simp [hc] at hhead
    | cons a before =>
      refine ⟨a, .head _, fun ha => ?_⟩
      have hstarts : a :: before ++ c :: after <+: cs.dropWhile (· ∈ chars) := by
        rw [← h]
        exact List.rdropWhile_prefix _ _
      obtain ⟨rest, hrest⟩ := hstarts
      have hhead := List.head?_dropWhile_not (fun a => decide (a ∈ chars)) cs
      rw [← hrest] at hhead
      simp [ha] at hhead
  · have hne : stripChars chars cs ≠ [] := by simp [h]
    have hlast : (stripChars chars cs).getLast hne ∉ chars := fun hm =>
      List.rdropWhile_last_not (fun a => decide (a ∈ chars)) _ hne (decide_eq_true hm)
    simp only [h] at hlast
    rcases List.eq_nil_or_concat after with rfl | ⟨front, a, rfl⟩
    · simp [hc] at hlast
    · refine ⟨a, by simp, fun ha => ?_⟩
      simp [ha] at hlast

theorem mem_dropWhile_kept {a : Char} (h : a ∈ cs) (hk : a ∉ chars) :
    a ∈ cs.dropWhile (· ∈ chars) := by
  rw [← List.takeWhile_append_dropWhile (p := (· ∈ chars)) (l := cs), List.mem_append] at h
  refine h.resolve_left fun htake => hk ?_
  simpa using List.mem_takeWhile_imp htake

theorem mem_strip_strip (hsub : ∀ a ∈ chars, a ∈ chars') (hc : c ∈ chars) :
    c ∈ stripChars chars' (stripChars chars cs) ↔
      ∃ before after, cs = before ++ c :: after ∧ (∃ a ∈ before, a ∉ chars') ∧
        ∃ a ∈ after, a ∉ chars' := by
  constructor
  · intro h
    obtain ⟨before, after, heq⟩ := List.append_of_mem h
    obtain ⟨⟨a, ha, hak⟩, ⟨b, hb, hbk⟩⟩ := kept_around (hsub c hc) heq
    obtain ⟨front, back, hcs⟩ := (stripChars_within chars' _).trans (stripChars_within chars cs)
    refine ⟨front ++ before, after ++ back, ?_, ⟨a, by simp [ha], hak⟩, ⟨b, by simp [hb], hbk⟩⟩
    rw [← hcs, heq]
    simp
  · rintro ⟨before, after, rfl, ⟨a, ha, hak⟩, ⟨b, hb, hbk⟩⟩
    have hdrop := mem_dropWhile_kept ha fun h => hak (hsub a h)
    have hrdrop : b ∈ after.rdropWhile (· ∈ chars) := by
      rw [List.rdropWhile, List.mem_reverse]
      exact mem_dropWhile_kept (by simpa using hb) fun h => hbk (hsub b h)
    rw [stripChars_append ⟨a, ha, fun h => hak (hsub a h)⟩ ⟨b, hb, fun h => hbk (hsub b h)⟩,
      stripChars_append ⟨a, hdrop, hak⟩ ⟨b, hrdrop, hbk⟩]
    simp

end Strip

/-! ## A query behind a URL -/

theorem dropWhile_stopped {p : Char → Bool} {c : Char} (hc : p c = false) (cs rest : List Char) :
    (cs ++ c :: rest).dropWhile p = cs.dropWhile p ++ c :: rest := by
  have h := congrArg Prod.snd (span_stopped hc cs rest)
  simpa only [List.span_eq_takeWhile_dropWhile] using h

theorem cleaned_append {c : Char} {rest : List Char} (hc : isControlOrSpace c = false)
    (h : ∀ a ∈ c :: rest, isUnsafe a = false) (url : List Char) :
    cleaned (url ++ c :: rest) = cleaned url ++ c :: rest := by
  have hrest : (c :: rest).filter (fun a => !isUnsafe a) = c :: rest :=
    List.filter_eq_self.mpr fun a ha => by simp [h a ha]
  rw [cleaned, dropWhile_stopped hc, List.filter_append, hrest]
  rfl

theorem mem_of_mem_cleaned {url : List Char} {c : Char} (h : c ∈ cleaned url) : c ∈ url :=
  (List.dropWhile_sublist _).subset (List.mem_filter.mp h).1

theorem mem_cleaned {url : List Char} {c : Char} (hc : isControlOrSpace c = false)
    (hplain : isUnsafe c = false) (h : c ∈ url) : c ∈ cleaned url := by
  rw [← List.takeWhile_append_dropWhile (p := isControlOrSpace) (l := url), List.mem_append] at h
  refine List.mem_filter.mpr ⟨h.resolve_left fun htake => ?_, by simp [hplain]⟩
  have := List.mem_takeWhile_imp htake
  simp [hc] at this

section Query
variable {url query : List Char} (hscheme : (urlsplit url).scheme ≠ []) (hurl : '?' ∉ url)
  (hplain : ∀ c ∈ query, isUnsafe c = false)
include hscheme hurl hplain

theorem exists_tail : ∃ tail, '?' ∉ tail ∧ ('#' ∈ tail ↔ '#' ∈ url) ∧
    (urlsplit (url ++ '?' :: query)).query = (cut '?' (cut '#' (tail ++ '?' :: query)).1).2 := by
  obtain ⟨c, cs, hc, hcs, heq⟩ := eq_of_splitScheme hscheme
  generalize (splitScheme (cleaned url)).2 = rest at heq
  have hrest : rest ⊆ url := fun a ha => mem_of_mem_cleaned (by simp [heq, ha])
  have hclean : cleaned (url ++ '?' :: query) = c :: cs ++ ':' :: (rest ++ '?' :: query) := by
    rw [cleaned_append (by decide) (List.forall_mem_cons.mpr ⟨by decide, hplain⟩), heq]
    simp
  refine ⟨(splitNetloc rest).2, fun h => hurl (hrest (splitNetloc_suffix _ h)),
    ⟨fun h => hrest (splitNetloc_suffix _ h), fun h => ?_⟩, ?_⟩
  · refine mem_splitNetloc (by decide) (by decide) ?_
    have hmem := mem_cleaned (by decide) (by decide) h
    rw [heq, List.cons_append, List.mem_cons, List.mem_append, List.mem_cons] at hmem
    rcases hmem with rfl | hm | hm | hm
    · exact absurd hc (by decide)
    · exact absurd (List.all_eq_true.mp hcs _ hm) (by decide)
    · exact absurd hm (by decide)
    · exact hm
  · rw [urlsplit, hclean, splitScheme_append hc hcs]
    simp only
    rw [splitNetloc_append (by decide) (by decide)]

theorem urlsplit_query (hfragment : '#' ∉ url) (hquery : '#' ∉ query) :
    (urlsplit (url ++ '?' :: query)).query = query := by
  obtain ⟨tail, htail, hsame, h⟩ := exists_tail hscheme hurl hplain
  have hnone : '#' ∉ tail ++ '?' :: query := by
    simp [hsame, hfragment, hquery]
  rw [h, cut_none hnone, cut_append htail]

theorem urlsplit_fragment (hfragment : '#' ∈ url) :
    (urlsplit (url ++ '?' :: query)).query = [] := by
  obtain ⟨tail, htail, hsame, h⟩ := exists_tail hscheme hurl hplain
  obtain ⟨before, after, rfl, hbefore⟩ := List.eq_append_cons_of_mem (hsame.mpr hfragment)
  have hnone : '?' ∉ before := fun hm => htail (by simp [hm])
  rw [h, List.append_assoc, List.cons_append, cut_append hbefore, cut_none hnone]

end Query

end Python
