import Inngest.Dispatch
import Inngest.Url
import Inngest.UrlEncoding

/-!
# Runtime URLs

Each configuration of a function says where its step is run: the app's URL with
a query behind it. The query is written in one module and read in another, and
the protocol is told from the beginning of the text, for the function itself.
-/

set_option autoImplicit false

namespace Inngest
open ServerLib Errors Python

/-- `urllib.parse.parse_qs`: the values of each argument, in their order. -/
def parseQs (qs : String) : Dict QueryValue :=
  (parseQsl qs).foldl (fun d a => d.insert a.1 (match d.lookup a.1 with
    | some (.many values) => .many (values ++ [a.2])
    | _ => .many [a.2])) ∅

namespace RuntimeUrls

def queryOf (url : String) : String := .ofList (urlsplit url.toList).query

def schemeOf (url : String) : String := .ofList (urlsplit url.toList).scheme

variable {σ : Type} (f : AppFunction σ) (appUrl : String)

/-- A request to the URL is for the function, and for nothing else. -/
structure Addresses (config : FunctionConfig) : Prop where
  parsed : parseQueryParams (parseQs (queryOf config.url)) =
    .ok (.ok ⟨some config.id, false, none, none⟩)
  runtime : config.runtimeType = .ws ↔ schemeOf appUrl = "wss"

def Addressed : Prop :=
  ∀ config, config = (f.getConfig appUrl).1 ∨ (f.getConfig appUrl).2 = some config →
    Addresses appUrl config

def schemes : List String := ["http", "https", "wss"]

variable {f appUrl}

/-! ## What is read back -/

theorem stepUrl_toList (fnId : String) : (AppFunction.stepUrl appUrl fnId).toList =
    appUrl.toList ++ '?' :: (urlencode [("fnId", fnId), ("stepId", rootStepId)]).toList := by
  simp [AppFunction.stepUrl]

theorem scheme_ne_nil (hscheme : schemeOf appUrl ∈ schemes) :
    (urlsplit appUrl.toList).scheme ≠ [] := by
  intro hnil
  rw [schemeOf, hnil] at hscheme
  exact absurd hscheme (by decide)

theorem queryOf_stepUrl (hscheme : schemeOf appUrl ∈ schemes) (hquery : '?' ∉ appUrl.toList)
    (fnId : String) : queryOf (AppFunction.stepUrl appUrl fnId) =
      if '#' ∈ appUrl.toList then "" else urlencode [("fnId", fnId), ("stepId", rootStepId)] := by
  have hkept : ∀ c ∈ (urlencode [("fnId", fnId), ("stepId", rootStepId)]).toList,
      isUnsafe c = false := by
    intro c hc
    rcases mem_urlencode hc with rfl | rfl | hquoted
    · rfl
    · rfl
    · cases hbad : isUnsafe c with
      | false => rfl
      | true =>
        have hmem : c ∈ ['\t', '\r', '\n'] := of_decide_eq_true hbad
        simp only [List.mem_cons, List.not_mem_nil, or_false] at hmem
        rcases hmem with rfl | rfl | rfl <;> exact absurd hquoted (by decide)
  rw [queryOf, stepUrl_toList]
  split
  · rename_i hfragment
    rw [urlsplit_fragment (scheme_ne_nil hscheme) hquery hkept hfragment]
  · rename_i hfragment
    have hnone : '#' ∉ (urlencode [("fnId", fnId), ("stepId", rootStepId)]).toList := fun hm => by
      rcases mem_urlencode hm with h | h | h <;> exact absurd h (by decide)
    rw [urlsplit_query (scheme_ne_nil hscheme) hquery hkept hfragment hnone,
      String.ofList_toList]

theorem parse_stepUrl (hscheme : schemeOf appUrl ∈ schemes) (hquery : '?' ∉ appUrl.toList)
    {fnId : String} (hne : fnId ≠ "") :
    parseQueryParams (parseQs (queryOf (AppFunction.stepUrl appUrl fnId))) =
      .ok (.ok ⟨if '#' ∈ appUrl.toList then none else some fnId, false, none, none⟩) := by
  rw [queryOf_stepUrl hscheme hquery]
  split
  · rfl
  · have hvalues : ∀ a ∈ [("fnId", fnId), ("stepId", rootStepId)], a.2 ≠ "" := by
      simpa [rootStepId] using hne
    rw [parseQs, parseQsl_urlencode (by simp) hvalues]
    rfl

theorem id_ne_empty (f : AppFunction σ) : f.id ≠ "" := by
  simp [AppFunction.id]

/-! ## The protocol -/

theorem schemeOf_wss (h : "wss://".isPrefixOf appUrl = true) : schemeOf appUrl = "wss" := by
  obtain ⟨rest, hrest⟩ := String.startsWith_string_iff.mp h
  have hclean : cleaned appUrl.toList =
      'w' :: "ss".toList ++ ':' :: '/' :: '/' :: rest.filter fun c => !isUnsafe c := by
    rw [← hrest]
    rfl
  rw [schemeOf, urlsplit, hclean, splitScheme_append (by decide) (by decide)]
  rfl

theorem prefix_of_prefix_append {p cs rest : List Char} {c : Char} (hc : c ∉ p)
    (h : p <+: cs ++ c :: rest) : p <+: cs := by
  rcases List.prefix_or_prefix_of_prefix h (List.prefix_append cs (c :: rest)) with hp | ⟨tail, rfl⟩
  · exact hp
  · cases tail with
    | nil => simp
    | cons d tail =>
      obtain ⟨rfl, -⟩ := List.cons_prefix_cons.mp ((List.prefix_append_right_inj cs).mp h)
      exact absurd (by simp) hc

theorem isPrefixOf_stepUrl (fnId : String) :
    "wss://".isPrefixOf (AppFunction.stepUrl appUrl fnId) = "wss://".isPrefixOf appUrl := by
  rw [Bool.eq_iff_iff, String.isPrefixOf, String.isPrefixOf, String.startsWith_string_iff,
    String.startsWith_string_iff, stepUrl_toList]
  constructor
  · exact prefix_of_prefix_append (by decide)
  · exact fun h => h.trans (List.prefix_append _ _)

variable (hscheme : schemeOf appUrl ∈ schemes) (hquery : '?' ∉ appUrl.toList)
include hscheme hquery

theorem addresses_main : Addresses appUrl (f.getConfig appUrl).1 ↔ '#' ∉ appUrl.toList ∧
    (schemeOf appUrl = "wss" → "wss://".isPrefixOf appUrl = true) := by
  have hparsed := parse_stepUrl hscheme hquery (id_ne_empty f)
  have hruntime : (f.getConfig appUrl).1.runtimeType = .ws ↔
      "wss://".isPrefixOf appUrl = true := by
    rw [← isPrefixOf_stepUrl f.id]
    simp [AppFunction.getConfig, AppFunction.mainConfig]
  constructor
  · intro h
    refine ⟨fun hfragment => ?_, fun hwss => hruntime.mp (h.runtime.mpr hwss)⟩
    have := hparsed.symm.trans h.parsed
    simp [hfragment] at this
  · rintro ⟨hfragment, hwss⟩
    refine ⟨?_, hruntime.trans ⟨schemeOf_wss, hwss⟩⟩
    rw [if_neg hfragment] at hparsed
    exact hparsed

theorem addresses_onFailure {config : FunctionConfig}
    (hconfig : (f.getConfig appUrl).2 = some config)
    (hfragment : '#' ∉ appUrl.toList) : Addresses appUrl config ↔ schemeOf appUrl ≠ "wss" := by
  obtain ⟨fnId, hfnId, rfl⟩ := Option.map_eq_some_iff.mp hconfig
  have hne : fnId ≠ "" := by
    obtain ⟨-, rfl⟩ := Dispatch.onFailureFnId_eq_some.mp hfnId
    simp
  have hparsed := parse_stepUrl hscheme hquery hne
  rw [if_neg hfragment] at hparsed
  constructor
  · intro h hwss
    cases h.runtime.mpr hwss
  · intro hwss
    exact ⟨hparsed, by simp [AppFunction.onFailureConfig, hwss]⟩

theorem addressed_iff :
    Addressed f appUrl ↔ '#' ∉ appUrl.toList ∧
      (schemeOf appUrl = "wss" → "wss://".isPrefixOf appUrl = true ∧ f.opts.onFailure = none) := by
  constructor
  · intro h
    obtain ⟨hfragment, hmain⟩ := (addresses_main hscheme hquery).mp (h _ (.inl rfl))
    refine ⟨hfragment, fun hwss => ⟨hmain hwss, ?_⟩⟩
    by_contra hfailure
    have hid := Dispatch.onFailureFnId_eq_some.mpr
      ⟨Option.isSome_iff_ne_none.mpr hfailure, rfl⟩
    have hconfig : (f.getConfig appUrl).2 =
        some (f.onFailureConfig appUrl (f.id ++ "-failure")) := by
      rw [AppFunction.getConfig, hid]
      rfl
    exact (addresses_onFailure hscheme hquery hconfig hfragment).mp (h _ (.inr hconfig)) hwss
  · rintro ⟨hfragment, hwss⟩ config (rfl | hconfig)
    · exact (addresses_main hscheme hquery).mpr ⟨hfragment, fun h => (hwss h).1⟩
    · refine (addresses_onFailure hscheme hquery hconfig hfragment).mpr fun h => ?_
      obtain ⟨fnId, hfnId, -⟩ := Option.map_eq_some_iff.mp hconfig
      have hsome := (Dispatch.onFailureFnId_eq_some.mp hfnId).1
      rw [(hwss h).2] at hsome
      cases hsome

omit hscheme hquery

/-! ## A function with a handler for failures -/

def failing : AppFunction Unit := ⟨"app", Dispatch.failing⟩

/-- Connect registers it for both protocols. -/
theorem worker_not_addressed : ¬ Addressed failing "wss://connect" := by
  intro h
  cases (h _ (.inr rfl)).runtime.mpr (by decide)

theorem addressed_iff_served : Addressed failing "https://example.com/api/inngest" :=
  (addressed_iff (by decide) (by decide)).mpr ⟨by decide, fun h => absurd h (by decide)⟩

end RuntimeUrls
end Inngest
