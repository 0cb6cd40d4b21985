import Inngest.StepLib

/-!
# Raw memos

A raw memo is a wrapper around data or an error, or something else that is the
data itself. Which it is, is found out by validation, and a string is taken for
JSON text before that.
-/

set_option autoImplicit false

namespace Inngest.StepLib

/-! ## What a raw memo stands for -/

/-- The value of a memoized error; other keys may be there. -/
def Describes (v : Json) (e : MemoizedError) : Prop :=
  ∃ fields, v = .obj fields ∧ Json.field fields "message" = some (.str e.message) ∧
    Json.field fields "name" = some (.str e.name) ∧
    (Json.field fields "stack" = e.stack.map .str ∨
      Json.field fields "stack" = some .null ∧ e.stack = none)

/-- All the keys of an object are those of a wrapper. -/
def OnlyWrapperKeys (fields : List (String × Json)) : Prop :=
  ∀ f ∈ fields, f.1 = "data" ∨ f.1 = "error"

inductive StandsFor : Json → Output → Prop where
  | data (v : Json) : StandsFor (.obj [("data", v)]) ⟨v, none⟩
  | error {v : Json} {e : MemoizedError} : Describes v e →
      StandsFor (.obj [("error", v)]) ⟨.null, some e⟩
  | errorLast {v : Json} {e : MemoizedError} : Describes v e →
      StandsFor (.obj [("data", .null), ("error", v)]) ⟨.null, some e⟩
  | errorFirst {v : Json} {e : MemoizedError} : Describes v e →
      StandsFor (.obj [("error", v), ("data", .null)]) ⟨.null, some e⟩
  | other {w : Json} : (∀ fields, w = .obj fields → ¬ OnlyWrapperKeys fields) →
      StandsFor w ⟨w, none⟩

/-- Each raw memo is mapped to what it stands for. -/
def Exact (loads : String → Option Json) (raw : Dict Json) : Prop :=
  ∀ k w output, raw.lookup k = some w → StandsFor w output →
    (StepMemos.fromRaw loads raw).lookup k = some output

def IsWrapper (v : Json) : Prop :=
  ∃ fields, v = .obj fields ∧ OnlyWrapperKeys fields ∧
    ∀ error, Json.field fields "error" = some error → error = .null ∨ ∃ e, Describes error e

/-! ## Validation -/

theorem validate_describes {v : Json} {e : MemoizedError} (h : Describes v e) :
    MemoizedError.validate v = some e := by
  obtain ⟨fields, rfl, hmessage, hname, hstack⟩ := h
  rw [MemoizedError.validate, hmessage, hname]
  obtain ⟨message, name, stack⟩ := e
  rcases hstack with hstack | ⟨hstack, rfl⟩
  · rw [hstack]
    cases stack <;> rfl
  · rw [hstack]

theorem describes_of_validate {v : Json} {e : MemoizedError}
    (h : MemoizedError.validate v = some e) : Describes v e := by
  cases v with
  | obj fields =>
    refine ⟨fields, rfl, ?_⟩
    rw [MemoizedError.validate] at h
    split at h
    · rename_i hmessage hname hstack
      obtain rfl := Option.some.inj h
      exact ⟨hmessage, hname, .inl hstack⟩
    · rename_i hmessage hname hstack
      obtain rfl := Option.some.inj h
      exact ⟨hmessage, hname, .inr ⟨hstack, rfl⟩⟩
    · rename_i hmessage hname hstack
      obtain rfl := Option.some.inj h
      exact ⟨hmessage, hname, .inl hstack⟩
    · cases h
  | _ => cases h

variable {fields : List (String × Json)}

theorem validate_keys (h : ¬ OnlyWrapperKeys fields) : Output.validate (.obj fields) = none :=
  if_neg (by simpa [OnlyWrapperKeys] using h)

theorem validate_fields (h : OnlyWrapperKeys fields) : Output.validate (.obj fields) =
    if (Json.field fields "error").getD .null = .null then
      some ⟨(Json.field fields "data").getD .null, none⟩
    else (MemoizedError.validate ((Json.field fields "error").getD .null)).map fun e =>
      ⟨(Json.field fields "data").getD .null, some e⟩ := by
  rw [Output.validate, if_pos (by simpa [OnlyWrapperKeys] using h)]
  cases (Json.field fields "error").getD .null <;> rfl

theorem validate_error (h : OnlyWrapperKeys fields) {v : Json} {e : MemoizedError}
    (hv : Describes v e) (herror : Json.field fields "error" = some v) :
    Output.validate (.obj fields) = some ⟨(Json.field fields "data").getD .null, some e⟩ := by
  have hne : v ≠ .null := by
    obtain ⟨_, rfl, -⟩ := hv
    simp
  rw [validate_fields h, herror, Option.getD_some, if_neg hne, validate_describes hv]
  rfl

theorem data_of_validate {output : Output} (h : Output.validate (.obj fields) = some output) :
    output.data = (Json.field fields "data").getD .null := by
  by_cases hkeys : OnlyWrapperKeys fields
  · rw [validate_fields hkeys] at h
    split at h
    · obtain rfl := Option.some.inj h
      rfl
    · obtain ⟨e, -, rfl⟩ := Option.map_eq_some_iff.mp h
      rfl
  · rw [validate_keys hkeys] at h
    cases h

theorem isSome_validate {v : Json} : (Output.validate v).isSome = true ↔ IsWrapper v := by
  constructor
  · intro h
    cases v with
    | obj fields =>
      have hkeys : OnlyWrapperKeys fields := by
        by_contra hkeys
        rw [validate_keys hkeys] at h
        cases h
      refine ⟨fields, rfl, hkeys, fun error herror => ?_⟩
      rw [validate_fields hkeys, herror, Option.getD_some] at h
      split at h
      · exact .inl (by assumption)
      · obtain ⟨e, he⟩ := Option.isSome_iff_exists.mp (Option.isSome_map ▸ h)
        exact .inr ⟨e, describes_of_validate he⟩
    | _ => cases h
  · rintro ⟨fields, rfl, hkeys, herror⟩
    cases hfield : Json.field fields "error" with
    | none =>
      rw [validate_fields hkeys, hfield]
      rfl
    | some error =>
      rcases herror error hfield with rfl | ⟨e, he⟩
      · rw [validate_fields hkeys, hfield]
        rfl
      · rw [validate_error hkeys he hfield]
        rfl

/-! ## Decoding -/

section Decoding
variable {loads : String → Option Json} {raw : Dict Json}

theorem fromRaw_other {w : Json} (h : ∀ fields, w = .obj fields → ¬ OnlyWrapperKeys fields)
    (hstr : ∀ s v, w = .str s → loads s = some v → ¬ IsWrapper v) :
    Output.fromRaw loads w = none := by
  cases w with
  | str s =>
    rw [Output.fromRaw, Option.bind_eq_none_iff]
    intro v hv
    exact Option.not_isSome_iff_eq_none.mp fun hsome => hstr s v rfl hv (isSome_validate.mp hsome)
  | obj fields => exact validate_keys (h fields rfl)
  | _ => rfl

theorem memo_standsFor {w : Json} {output : Output} (h : StandsFor w output)
    (hstr : ∀ s v, w = .str s → loads s = some v → ¬ IsWrapper v) :
    StepMemos.memo loads w = output := by
  have hwrapped : ∀ {fields : List (String × Json)} {output : Output},
      Output.validate (.obj fields) = some output →
        StepMemos.memo loads (.obj fields) = output := by
    intro fields output h
    rw [StepMemos.memo, Output.fromRaw, h]
    · rfl
    · intro s hs
      cases hs
  cases h with
  | data v => exact StepMemos.memo_data loads v
  | error he => exact hwrapped (validate_error (by simp [OnlyWrapperKeys]) he rfl)
  | errorLast he => exact hwrapped (validate_error (by simp [OnlyWrapperKeys]) he rfl)
  | errorFirst he => exact hwrapped (validate_error (by simp [OnlyWrapperKeys]) he rfl)
  | other hother => rw [StepMemos.memo, fromRaw_other hother hstr, Option.getD_none]

/-- The decoder is exact but for strings that hold a wrapper as JSON text. -/
theorem memos_exact_iff
    (hloads : ∀ s fields, loads s = some (.obj fields) → Json.field fields "data" ≠ some (.str s)) :
    Exact loads raw ↔
      ∀ k s v, raw.lookup k = some (.str s) → loads s = some v → ¬ IsWrapper v := by
  constructor
  · intro h k s v hk hv hwrapper
    have hmemo := h k (.str s) ⟨.str s, none⟩ hk (.other nofun)
    rw [StepMemos.lookup_fromRaw, hk] at hmemo
    obtain ⟨output, houtput⟩ := Option.isSome_iff_exists.mp (isSome_validate.mpr hwrapper)
    obtain ⟨fields, rfl, -⟩ := hwrapper
    have hdata := data_of_validate houtput
    have heq : StepMemos.memo loads (.str s) = output := by
      rw [StepMemos.memo, Output.fromRaw, hv, Option.bind_some, houtput, Option.getD_some]
    rw [Option.map_some, heq] at hmemo
    obtain rfl := Option.some.inj hmemo
    cases hfield : Json.field fields "data" with
    | none => simp [hfield] at hdata
    | some data =>
      rw [hfield, Option.getD_some] at hdata
      obtain rfl : Json.str s = data := hdata
      exact hloads s fields hv hfield
  · intro h k w output hk hw
    rw [StepMemos.lookup_fromRaw, hk, Option.map_some,
      memo_standsFor hw fun s v hs => h k s v (hs ▸ hk)]

end Decoding

/-! ## A memo that is text -/

def wrapperText : String := "\x7b\"data\": 1\x7d"

def loadsText (s : String) : Option Json :=
  if s = wrapperText then some (.obj [("data", .int 1)]) else none

/-- The string is decoded to the number in it. -/
theorem text_not_exact : ¬ Exact loadsText (AList.singleton "a" (.str wrapperText)) := by
  intro h
  have := h "a" _ ⟨.str wrapperText, none⟩ rfl (.other nofun)
  exact absurd this (by decide)

/-- The event of a `wait_for_event` is not wrapped. -/
def event : Json := .obj [("name", .str "test"), ("data", .obj [])]

theorem memos_exact_iff_event : Exact loadsText (AList.singleton "a" event) := by
  refine (memos_exact_iff fun s fields h => ?_).mpr fun k s v hk => ?_
  · rw [loadsText] at h
    split at h
    · obtain rfl : [("data", Json.int 1)] = fields := by simpa using h
      simp [Json.field]
    · cases h
  · rw [← AList.insert_empty] at hk
    by_cases hid : k = "a"
    · rw [hid, AList.lookup_insert] at hk
      cases hk
    · rw [AList.lookup_insert_ne hid, AList.lookup_empty] at hk
      cases hk

end Inngest.StepLib
