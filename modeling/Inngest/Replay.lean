import Mathlib.Data.List.Sublists

/-!
# Replayed code

Code asks questions and goes on with the answers: one question at a time, or
in a group of lines that do not wait for each other. It is replayed from its
beginning with the answers that are known, and pauses where one is missing.
Answers that are right for the direct run lead along it, however many are known.
-/

set_option autoImplicit false

namespace Inngest.Replay

inductive Line (κ α β : Type) where
  | ret (b : β)
  | ask (q : κ) (next : α → Line κ α β)

inductive Code (κ α β γ μ : Type) where
  | ret (c : γ)
  | ask (q : κ) (next : α → Code κ α β γ μ)
  | group (mode : μ) (lines : List (Line κ α β)) (next : List β → Code κ α β γ μ)

/-- Where a replay pauses: at a question, or at the end of a group that has
lines with open questions. -/
inductive Pause (κ μ : Type) where
  | one (q : κ)
  | group (mode : μ) (qs : List κ)
  deriving DecidableEq, Repr

variable {κ α β γ μ : Type}

def Pause.questions : Pause κ μ → List κ
  | .one q => [q]
  | .group _ qs => qs

/-! ## The direct run

All questions are answered, each by `ω`. -/

section Direct
variable (ω : κ → α)

def Line.direct : Line κ α β → β
  | .ret b => b
  | .ask q next => direct (next (ω q))

def Line.asked : Line κ α β → List κ
  | .ret _ => []
  | .ask q next => q :: asked (next (ω q))

def Code.direct : Code κ α β γ μ → γ
  | .ret c => c
  | .ask q next => direct (next (ω q))
  | .group _ lines next => direct (next (lines.map (Line.direct ω)))

/-- The questions of the direct run, in the order of the program. -/
def Code.asked : Code κ α β γ μ → List κ
  | .ret _ => []
  | .ask q next => q :: asked (next (ω q))
  | .group _ lines next =>
    lines.flatMap (Line.asked ω) ++ asked (next (lines.map (Line.direct ω)))

end Direct

/-! ## The replay -/

section Replay
variable (f : κ → Option α)

def Line.replay : Line κ α β → Except κ β
  | .ret b => .ok b
  | .ask q next =>
    match f q with
    | some a => replay (next a)
    | none => .error q

def Line.value? (l : Line κ α β) : Option β := (l.replay f).toOption

def Line.open? (l : Line κ α β) : Option κ :=
  match l.replay f with
  | .ok _ => none
  | .error q => some q

def Code.replay : Code κ α β γ μ → Except (Pause κ μ) γ
  | .ret c => .ok c
  | .ask q next =>
    match f q with
    | some a => replay (next a)
    | none => .error (.one q)
  | .group mode lines next =>
    match lines.filterMap (Line.open? f) with
    | [] => replay (next (lines.filterMap (Line.value? f)))
    | q :: qs => .error (.group mode (q :: qs))

end Replay

def Known (ω : κ → α) (f : κ → Option α) (qs : List κ) : Prop :=
  ∀ q ∈ qs, f q = none ∨ f q = some (ω q)

section Known
variable {ω : κ → α} {f f' : κ → Option α} {qs qs' : List κ} {q : κ}

theorem Known.mono (h : Known ω f qs) (hsub : qs' ⊆ qs) : Known ω f qs' :=
  fun q hq => h q (hsub hq)

theorem Known.eq {a : α} (h : Known ω f qs) (hq : q ∈ qs) (ha : f q = some a) : a = ω q := by
  rcases h q hq with hn | hs
  · rw [hn] at ha
    cases ha
  · exact Option.some.inj (ha.symm.trans hs)

end Known

/-! ## Lines -/

namespace Line
variable {ω : κ → α} {f f' : κ → Option α} {l : Line κ α β} {lines : List (Line κ α β)} {q : κ}

theorem replay_cases (h : Known ω f (l.asked ω)) :
    (l.replay f = .ok (l.direct ω) ∧ ∀ q ∈ l.asked ω, f q = some (ω q)) ∨
      ∃ before q after, l.replay f = .error q ∧ l.asked ω = before ++ q :: after ∧
        (∀ p ∈ before, f p = some (ω p)) ∧ f q = none := by
  induction l with
  | ret b => exact .inl ⟨rfl, by simp [asked]⟩
  | ask q next ih =>
    rcases h q (by simp [asked]) with hq | hq
    · exact .inr ⟨[], q, _, by rw [replay, hq], by rw [asked]; rfl, by simp, hq⟩
    · rw [replay, hq, asked, direct]
      rcases ih (ω q) (h.mono (by rw [asked]; exact List.subset_cons_self _ _)) with
        ⟨hr, hall⟩ | ⟨before, p, after, hr, ha, hall, hp⟩
      · exact .inl ⟨hr, List.forall_mem_cons.mpr ⟨hq, hall⟩⟩
      · exact .inr ⟨q :: before, p, after, hr, by rw [ha]; rfl,
          List.forall_mem_cons.mpr ⟨hq, hall⟩, hp⟩

theorem open?_eq_some : l.open? f = some q ↔ l.replay f = .error q := by
  rw [open?]
  cases l.replay f <;> simp

theorem open?_eq_none : l.open? f = none ↔ ∃ b, l.replay f = .ok b := by
  rw [open?]
  cases l.replay f <;> simp

theorem mem_of_open (h : Known ω f (l.asked ω)) (hq : l.open? f = some q) :
    q ∈ l.asked ω ∧ f q = none := by
  rw [open?_eq_some] at hq
  rcases replay_cases h with ⟨hr, -⟩ | ⟨before, p, after, hr, ha, -, hp⟩
  · rw [hr] at hq
    cases hq
  · rw [hr] at hq
    cases hq
    exact ⟨by simp [ha], hp⟩

theorem of_not_open (h : Known ω f (l.asked ω)) (hn : l.open? f = none) :
    l.replay f = .ok (l.direct ω) ∧ ∀ q ∈ l.asked ω, f q = some (ω q) := by
  obtain ⟨b, hb⟩ := open?_eq_none.mp hn
  rcases replay_cases h with hr | ⟨before, p, after, hr, -⟩
  · exact hr
  · rw [hb] at hr
    cases hr

theorem not_open (h : ∀ q ∈ l.asked ω, f q = some (ω q)) : l.open? f = none := by
  cases ho : l.open? f with
  | none => rfl
  | some q =>
    obtain ⟨hq, hn⟩ := mem_of_open (fun q hq => .inr (h q hq)) ho
    rw [h q hq] at hn
    cases hn

theorem open_mono (h : Known ω f (l.asked ω)) (h' : Known ω f' (l.asked ω))
    (hsub : ∀ q ∈ l.asked ω, f q ≠ none → f' q ≠ none) (hq : l.open? f = some q)
    (hn : f' q = none) : l.open? f' = some q := by
  induction l with
  | ret b => cases hq
  | ask p next ih =>
    rw [open?_eq_some] at hq ⊢
    cases hp : f p with
    | none =>
      rw [replay, hp] at hq
      cases hq
      rw [replay, hn]
    | some a =>
      obtain rfl := h.eq (by simp [asked]) hp
      rw [replay, hp] at hq
      have hp' : f' p = some (ω p) :=
        (h' p (by simp [asked])).resolve_left (hsub p (by simp [asked]) (by simp [hp]))
      rw [replay, hp']
      have hrest : (next (ω p)).asked ω ⊆ (Line.ask p next).asked ω := by
        rw [asked]
        exact List.subset_cons_self _ _
      exact open?_eq_some.mp (ih _ (h.mono hrest) (h'.mono hrest)
        (fun q hq => hsub q (hrest hq)) (open?_eq_some.mpr hq))

theorem values_of_not_open (h : Known ω f (lines.flatMap (asked ω)))
    (hn : lines.filterMap (open? f) = []) :
    lines.filterMap (value? f) = lines.map (direct ω) ∧
      ∀ q ∈ lines.flatMap (asked ω), f q = some (ω q) := by
  rw [List.filterMap_eq_nil_iff] at hn
  have hlines : ∀ l ∈ lines, l.replay f = .ok (l.direct ω) ∧
      ∀ q ∈ l.asked ω, f q = some (ω q) := fun l hl =>
    of_not_open (h.mono fun q hq => List.mem_flatMap.mpr ⟨l, hl, hq⟩) (hn l hl)
  constructor
  · rw [← List.filterMap_eq_map]
    exact List.filterMap_congr fun l hl => by rw [value?, (hlines l hl).1]; rfl
  · intro q hq
    obtain ⟨l, hl, hq⟩ := List.mem_flatMap.mp hq
    exact (hlines l hl).2 q hq

theorem opens_sublist (h : Known ω f (lines.flatMap (asked ω))) :
    (lines.filterMap (open? f)).Sublist (lines.flatMap (asked ω)) := by
  induction lines with
  | nil => exact List.Sublist.refl _
  | cons l lines ih =>
    rw [List.flatMap_cons] at h ⊢
    have hline := h.mono (List.subset_append_left _ _)
    have hrest := ih (h.mono (List.subset_append_right _ _))
    cases ho : l.open? f with
    | none =>
      rw [List.filterMap_cons_none ho]
      exact hrest.trans (List.sublist_append_right _ _)
    | some q =>
      rw [List.filterMap_cons_some ho]
      exact (List.singleton_sublist.mpr (mem_of_open hline ho).1).append hrest

end Line

/-! ## Code -/

namespace Code
variable {ω : κ → α} {f f' : κ → Option α} {code : Code κ α β γ μ} {q : κ}

theorem asked_group {mode : μ} {lines : List (Line κ α β)} {next : List β → Code κ α β γ μ} :
    (Code.group mode lines next).asked ω =
      lines.flatMap (Line.asked ω) ++ (next (lines.map (Line.direct ω))).asked ω := rfl

theorem replay_open (mode : μ) {lines : List (Line κ α β)} (next : List β → Code κ α β γ μ)
    (h : lines.filterMap (Line.open? f) ≠ []) :
    (Code.group mode lines next).replay f =
      .error (.group mode (lines.filterMap (Line.open? f))) := by
  rw [replay]
  split
  · exact absurd ‹_› h
  · rename_i hcons
    rw [hcons]

theorem replay_closed {mode : μ} {lines : List (Line κ α β)} {next : List β → Code κ α β γ μ}
    (hk : Known ω f (lines.flatMap (Line.asked ω))) (h : lines.filterMap (Line.open? f) = []) :
    (Code.group mode lines next).replay f = (next (lines.map (Line.direct ω))).replay f := by
  rw [replay, h, (Line.values_of_not_open hk h).1]

/-- The replay ends as the direct run does when all of its questions have
answers, and otherwise pauses at some that have none. -/
theorem replay_cases (h : Known ω f (code.asked ω)) :
    (code.replay f = .ok (code.direct ω) ∧ ∀ q ∈ code.asked ω, f q = some (ω q)) ∨
      ∃ pause, code.replay f = .error pause ∧ pause.questions ≠ [] ∧
        pause.questions.Sublist (code.asked ω) ∧ ∀ q ∈ pause.questions, f q = none := by
  induction code with
  | ret c => exact .inl ⟨rfl, by simp [asked]⟩
  | ask q next ih =>
    rcases h q (by simp [asked]) with hq | hq
    · refine .inr ⟨.one q, by rw [replay, hq], by simp [Pause.questions], ?_, ?_⟩
      · rw [asked]
        exact List.singleton_sublist.mpr (by simp)
      · intro p hp
        rwa [List.mem_singleton.mp hp]
    · rw [replay, hq, asked, direct]
      rcases ih (ω q) (h.mono (by rw [asked]; exact List.subset_cons_self _ _)) with
        ⟨hr, hall⟩ | ⟨pause, hr, hne, hsub, hn⟩
      · exact .inl ⟨hr, List.forall_mem_cons.mpr ⟨hq, hall⟩⟩
      · exact .inr ⟨pause, hr, hne, hsub.trans (List.sublist_cons_self _ _), hn⟩
  | group mode lines next ih =>
    rw [asked_group] at h ⊢
    have hlines := h.mono (List.subset_append_left _ _)
    by_cases ho : lines.filterMap (Line.open? f) = []
    · rw [replay_closed hlines ho, direct]
      have hall := (Line.values_of_not_open hlines ho).2
      rcases ih _ (h.mono (List.subset_append_right _ _)) with
        ⟨hr, hrest⟩ | ⟨pause, hr, hne, hsub, hn⟩
      · exact .inl ⟨hr, List.forall_mem_append.mpr ⟨hall, hrest⟩⟩
      · exact .inr ⟨pause, hr, hne, hsub.trans (List.sublist_append_right _ _), hn⟩
    · refine .inr ⟨_, replay_open mode next ho, ho, ?_, fun q hq => ?_⟩
      · exact (Line.opens_sublist hlines).trans (List.sublist_append_left _ _)
      · obtain ⟨l, hl, hq⟩ := List.mem_filterMap.mp hq
        exact (Line.mem_of_open
          (hlines.mono fun q hq => List.mem_flatMap.mpr ⟨l, hl, hq⟩) hq).2

/-- A replay with more answers pauses at every question at which the one with
fewer pauses and that still has none. -/
theorem replay_mono (h : Known ω f (code.asked ω)) (h' : Known ω f' (code.asked ω))
    (hsub : ∀ q ∈ code.asked ω, f q ≠ none → f' q ≠ none) {pause : Pause κ μ}
    (hr : code.replay f = .error pause) (hq : q ∈ pause.questions) (hn : f' q = none) :
    ∃ pause', code.replay f' = .error pause' ∧ q ∈ pause'.questions := by
  induction code with
  | ret c => cases hr
  | ask p next ih =>
    cases hp : f p with
    | none =>
      rw [replay, hp] at hr
      cases hr
      obtain rfl := List.mem_singleton.mp hq
      exact ⟨.one q, by rw [replay, hn], hq⟩
    | some a =>
      obtain rfl := h.eq (by simp [asked]) hp
      rw [replay, hp] at hr
      have hp' : f' p = some (ω p) :=
        (h' p (by simp [asked])).resolve_left (hsub p (by simp [asked]) (by simp [hp]))
      rw [replay, hp']
      have hrest : (next (ω p)).asked ω ⊆ (Code.ask p next).asked ω := by
        rw [asked]
        exact List.subset_cons_self _ _
      exact ih _ (h.mono hrest) (h'.mono hrest) (fun q hq => hsub q (hrest hq)) hr
  | group mode lines next ih =>
    have hleft : lines.flatMap (Line.asked ω) ⊆ (Code.group mode lines next).asked ω :=
      List.subset_append_left _ _
    have hright : (next (lines.map (Line.direct ω))).asked ω ⊆
        (Code.group mode lines next).asked ω := List.subset_append_right _ _
    by_cases ho : lines.filterMap (Line.open? f) = []
    · have hall := (Line.values_of_not_open (h.mono hleft) ho).2
      have ho' : lines.filterMap (Line.open? f') = [] := by
        rw [List.filterMap_eq_nil_iff]
        intro l hl
        refine Line.not_open (ω := ω) fun q hq => ?_
        have hmem : q ∈ lines.flatMap (Line.asked ω) := List.mem_flatMap.mpr ⟨l, hl, hq⟩
        exact (h' q (hleft hmem)).resolve_left (hsub q (hleft hmem) (by simp [hall q hmem]))
      rw [replay_closed (h.mono hleft) ho] at hr
      rw [replay_closed (h'.mono hleft) ho']
      exact ih _ (h.mono hright) (h'.mono hright) (fun q hq => hsub q (hright hq)) hr
    · rw [replay_open mode next ho] at hr
      cases hr
      obtain ⟨l, hl, hq⟩ := List.mem_filterMap.mp hq
      have hline : l.asked ω ⊆ (Code.group mode lines next).asked ω := fun q hq =>
        hleft (List.mem_flatMap.mpr ⟨l, hl, hq⟩)
      have hopen := Line.open_mono (h.mono hline) (h'.mono hline)
        (fun q hq => hsub q (hline hq)) hq hn
      have hmem : q ∈ lines.filterMap (Line.open? f') := List.mem_filterMap.mpr ⟨l, hl, hopen⟩
      exact ⟨_, replay_open mode next (List.ne_nil_of_mem hmem), hmem⟩

end Code

end Inngest.Replay
