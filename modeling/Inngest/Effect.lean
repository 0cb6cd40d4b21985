import Mathlib.Data.List.Basic
import Mathlib.Data.List.Forall2

/-!
# Computations with a scope, a state, a history and interrupts

A computation runs in a dynamic scope, may change a state and leaves marks
in a history. It ends with a value, with an exception, which the code after
it may handle, or with an interrupt, which that code cannot see. Nothing
here depends on what the states, the marks or the interrupts are.
-/

set_option autoImplicit false

namespace Inngest.Effect

/-! ## Traversals that may fail -/

section Traversals
variable {α β ε : Type} {f : α → Except ε β} {xs : List α}

theorem forall₂_of_mapM {ys : List β} (h : xs.mapM f = .ok ys) :
    List.Forall₂ (fun x y => f x = .ok y) xs ys := by
  induction xs generalizing ys with
  | nil =>
    obtain rfl := Except.ok.inj h
    exact .nil
  | cons x xs ih =>
    simp only [List.mapM_cons, bind, Except.bind, pure, Except.pure] at h
    split at h
    · simp at h
    · rename_i y hy
      split at h
      · simp at h
      · rename_i ys' hys
        obtain rfl := Except.ok.inj h
        exact .cons hy (ih hys)

theorem exists_mapM_iff : (∃ ys, xs.mapM f = .ok ys) ↔ ∀ x ∈ xs, ∃ y, f x = .ok y := by
  constructor
  · rintro ⟨ys, h⟩ x hx
    obtain ⟨i, hi, rfl⟩ := List.getElem_of_mem hx
    have hall := forall₂_of_mapM h
    exact ⟨_, hall.get hi (hall.length_eq ▸ hi)⟩
  · intro h
    induction xs with
    | nil => exact ⟨[], rfl⟩
    | cons x xs ih =>
      obtain ⟨y, hy⟩ := h x (by simp)
      obtain ⟨ys, hys⟩ := ih fun x' hx' => h x' (by simp [hx'])
      exact ⟨y :: ys, by simp [List.mapM_cons, bind, Except.bind, pure, Except.pure, hy, hys]⟩

end Traversals

/-! ## Computations -/

inductive Outcome (ε ι α : Type) where
  | ok (value : α)
  | exc (error : ε)
  | intr (interrupt : ι)
  deriving DecidableEq, Repr

def Outcome.escape {ε ι α : Type} : Outcome ε ι α → Option ι
  | .intr i => some i
  | _ => none

def Outcome.ofExcept {ε ι α : Type} : Except ε α → Outcome ε ι α
  | .ok a => .ok a
  | .error e => .exc e

@[simp] theorem Outcome.escape_ofExcept {ε ι α : Type} (x : Except ε α) :
    (Outcome.ofExcept x : Outcome ε ι α).escape = none := by
  cases x <;> rfl

@[simp] theorem Outcome.escape_ok {ε ι α : Type} (a : α) :
    (Outcome.ok a : Outcome ε ι α).escape = none := rfl

@[simp] theorem Outcome.escape_exc {ε ι α : Type} (e : ε) :
    (Outcome.exc e : Outcome ε ι α).escape = none := rfl

@[simp] theorem Outcome.escape_intr {ε ι α : Type} (i : ι) :
    (Outcome.intr i : Outcome ε ι α).escape = some i := rfl

structure Done (σ η ε ι α : Type) where
  outcome : Outcome ε ι α
  state : σ
  log : List η

/-- The same end, with marks that were left before. -/
def Done.after {σ η ε ι α : Type} (l : List η) (d : Done σ η ε ι α) : Done σ η ε ι α :=
  ⟨d.outcome, d.state, l ++ d.log⟩

section After
variable {σ η ε ι α : Type} (l l' : List η) (d : Done σ η ε ι α)

@[simp] theorem Done.after_outcome : (d.after l).outcome = d.outcome := rfl
@[simp] theorem Done.after_state : (d.after l).state = d.state := rfl
@[simp] theorem Done.after_log : (d.after l).log = l ++ d.log := rfl
@[simp] theorem Done.after_nil : d.after [] = d := rfl

@[simp] theorem Done.after_after : (d.after l').after l = d.after (l ++ l') := by
  simp [Done.after]

end After

def Comp (ρ σ η ε ι α : Type) := ρ → σ → Done σ η ε ι α

variable {ρ σ η ε ι α β δ : Type}

namespace Comp

def done (a : α) : Comp ρ σ η ε ι α := fun _ s => ⟨.ok a, s, []⟩

def raise (e : ε) : Comp ρ σ η ε ι α := fun _ s => ⟨.exc e, s, []⟩

def interrupt (i : ι) : Comp ρ σ η ε ι α := fun _ s => ⟨.intr i, s, []⟩

def ask : Comp ρ σ η ε ι ρ := fun r s => ⟨.ok r, s, []⟩

def get : Comp ρ σ η ε ι σ := fun _ s => ⟨.ok s, s, []⟩

def modify (f : σ → σ) : Comp ρ σ η ε ι Unit := fun _ s => ⟨.ok (), f s, []⟩

def mark (m : η) : Comp ρ σ η ε ι Unit := fun _ s => ⟨.ok (), s, [m]⟩

/-- Runs the computation in a changed scope; the scope of the caller is back
in force afterwards, however the computation ends. -/
def within (f : ρ → ρ) (m : Comp ρ σ η ε ι α) : Comp ρ σ η ε ι α := fun r s => m (f r) s

/-- Sequencing that lets the continuation see an exception. An interrupt
passes it by. -/
def andThen (m : Comp ρ σ η ε ι α) (k : Except ε α → Comp ρ σ η ε ι β) : Comp ρ σ η ε ι β :=
  fun r s =>
    let d := m r s
    match d.outcome with
    | .ok a => (k (.ok a) r d.state).after d.log
    | .exc e => (k (.error e) r d.state).after d.log
    | .intr i => ⟨.intr i, d.state, d.log⟩

def bind (m : Comp ρ σ η ε ι α) (k : α → Comp ρ σ η ε ι β) : Comp ρ σ η ε ι β :=
  andThen m (fun
    | .ok a => k a
    | .error e => raise e)

/-- Runs the computation and hands its end, of whichever kind, to `k`. -/
def afterwards (m : Comp ρ σ η ε ι α) (k : Outcome ε ι α → Comp ρ σ η ε ι β) :
    Comp ρ σ η ε ι β := fun r s =>
  let d := m r s
  (k d.outcome r d.state).after d.log

def ofExcept : Except ε α → Comp ρ σ η ε ι α
  | .ok a => done a
  | .error e => raise e

end Comp

instance : Monad (Comp ρ σ η ε ι) where
  pure := Comp.done
  bind := Comp.bind

namespace Comp

section Run
variable (r : ρ) (s : σ)

@[simp] theorem pure_run (a : α) : (pure a : Comp ρ σ η ε ι α) r s = ⟨.ok a, s, []⟩ := rfl

@[simp] theorem done_run (a : α) : (done a : Comp ρ σ η ε ι α) r s = ⟨.ok a, s, []⟩ := rfl

@[simp] theorem raise_run (e : ε) : (raise e : Comp ρ σ η ε ι α) r s = ⟨.exc e, s, []⟩ := rfl

@[simp] theorem interrupt_run (i : ι) :
    (interrupt i : Comp ρ σ η ε ι α) r s = ⟨.intr i, s, []⟩ := rfl

@[simp] theorem ofExcept_run (x : Except ε α) :
    (ofExcept x : Comp ρ σ η ε ι α) r s = ⟨Outcome.ofExcept x, s, []⟩ := by
  cases x <;> rfl

@[simp] theorem within_run (f : ρ → ρ) (m : Comp ρ σ η ε ι α) : within f m r s = m (f r) s := rfl

@[simp] theorem afterwards_run (m : Comp ρ σ η ε ι α)
    (k : Outcome ε ι α → Comp ρ σ η ε ι β) :
    afterwards m k r s = (k (m r s).outcome r (m r s).state).after (m r s).log := rfl

@[simp] theorem pure_bind (a : α) (k : α → Comp ρ σ η ε ι β) :
    (pure a >>= k) r s = k a r s := rfl

@[simp] theorem done_bind (a : α) (k : α → Comp ρ σ η ε ι β) :
    (done a >>= k) r s = k a r s := rfl

@[simp] theorem raise_bind (e : ε) (k : α → Comp ρ σ η ε ι β) :
    (raise e >>= k) r s = ⟨.exc e, s, []⟩ := rfl

@[simp] theorem interrupt_bind (i : ι) (k : α → Comp ρ σ η ε ι β) :
    (interrupt i >>= k) r s = ⟨.intr i, s, []⟩ := rfl

@[simp] theorem ask_bind (k : ρ → Comp ρ σ η ε ι β) : (ask >>= k) r s = k r r s := rfl

@[simp] theorem get_bind (k : σ → Comp ρ σ η ε ι β) : (get >>= k) r s = k s r s := rfl

@[simp] theorem modify_bind (f : σ → σ) (k : Unit → Comp ρ σ η ε ι β) :
    (modify f >>= k) r s = k () r (f s) := rfl

@[simp] theorem mark_bind (m : η) (k : Unit → Comp ρ σ η ε ι β) :
    (mark m >>= k) r s = (k () r s).after [m] := rfl

end Run

section Sequencing
variable {m : Comp ρ σ η ε ι α} {k : Except ε α → Comp ρ σ η ε ι β}
  {f : α → Comp ρ σ η ε ι β} {r : ρ} {s : σ}

theorem andThen_ok {a : α} (h : (m r s).outcome = .ok a) :
    andThen m k r s = (k (.ok a) r (m r s).state).after (m r s).log := by
  simp only [andThen, h]

theorem andThen_exc {e : ε} (h : (m r s).outcome = .exc e) :
    andThen m k r s = (k (.error e) r (m r s).state).after (m r s).log := by
  simp only [andThen, h]

theorem andThen_intr {i : ι} (h : (m r s).outcome = .intr i) :
    andThen m k r s = ⟨.intr i, (m r s).state, (m r s).log⟩ := by
  simp only [andThen, h]

theorem bind_ok {a : α} (h : (m r s).outcome = .ok a) :
    (m >>= f) r s = (f a r (m r s).state).after (m r s).log := by
  change Comp.bind m f r s = _
  rw [Comp.bind, andThen_ok h]

theorem bind_exc {e : ε} (h : (m r s).outcome = .exc e) :
    (m >>= f) r s = ⟨.exc e, (m r s).state, (m r s).log⟩ := by
  change Comp.bind m f r s = _
  rw [Comp.bind, andThen_exc h]
  simp [Done.after]

theorem bind_intr {i : ι} (h : (m r s).outcome = .intr i) :
    (m >>= f) r s = ⟨.intr i, (m r s).state, (m r s).log⟩ := by
  change Comp.bind m f r s = _
  rw [Comp.bind, andThen_intr h]

theorem bind_state (hf : ∀ a s, (f a r s).state = s) : ((m >>= f) r s).state = (m r s).state := by
  cases h : (m r s).outcome with
  | ok a =>
    rw [bind_ok h]
    exact hf a _
  | exc e => rw [bind_exc h]
  | intr i => rw [bind_intr h]

theorem bind_assoc (m : Comp ρ σ η ε ι α) (f : α → Comp ρ σ η ε ι β)
    (g : β → Comp ρ σ η ε ι δ) : (m >>= f) >>= g = m >>= fun a => f a >>= g := by
  funext r s
  cases hm : (m r s).outcome with
  | ok a =>
    have hmf := bind_ok (f := f) hm
    rw [bind_ok (f := fun a => f a >>= g) hm]
    cases hf : (f a r (m r s).state).outcome with
    | ok b =>
      rw [bind_ok (by rw [hmf]; exact hf), hmf, bind_ok hf]
      simp
    | exc e =>
      rw [bind_exc (by rw [hmf]; exact hf), hmf, bind_exc hf]
      rfl
    | intr i =>
      rw [bind_intr (by rw [hmf]; exact hf), hmf, bind_intr hf]
      rfl
  | exc e =>
    have hmf := bind_exc (f := f) hm
    rw [bind_exc hm, bind_exc (by rw [hmf]), hmf]
  | intr i =>
    have hmf := bind_intr (f := f) hm
    rw [bind_intr hm, bind_intr (by rw [hmf]), hmf]

end Sequencing

end Comp

/-! ## Guarantees

`Guar R m` says what a whole run of `m` does to the state and the history:
`R` relates the scope, the state before, the marks left, the state after and
the interrupt that escaped, if one did. -/

def Guar (R : ρ → σ → List η → σ → Option ι → Prop) (m : Comp ρ σ η ε ι α) : Prop :=
  ∀ r s, R r s (m r s).log (m r s).state (m r s).outcome.escape

structure Chain (R : ρ → σ → List η → σ → Option ι → Prop) : Prop where
  nil : ∀ r s, R r s [] s none
  append : ∀ {r s l₁ s₁ l₂ s₂ o}, R r s l₁ s₁ none → R r s₁ l₂ s₂ o → R r s (l₁ ++ l₂) s₂ o

section Rules
variable {R : ρ → σ → List η → σ → Option ι → Prop}

theorem guar_done (hR : Chain R) (a : α) : Guar R (Comp.done a : Comp ρ σ η ε ι α) :=
  fun r s => hR.nil r s

theorem guar_raise (hR : Chain R) (e : ε) : Guar R (Comp.raise e : Comp ρ σ η ε ι α) :=
  fun r s => hR.nil r s

theorem guar_andThen (hR : Chain R) {m : Comp ρ σ η ε ι α} {k : Except ε α → Comp ρ σ η ε ι β}
    (hm : Guar R m) (hk : ∀ x, Guar R (k x)) : Guar R (m.andThen k) := by
  intro r s
  have h := hm r s
  cases ho : (m r s).outcome with
  | ok a =>
    rw [ho] at h
    rw [Comp.andThen_ok ho]
    exact hR.append h (hk _ r _)
  | exc e =>
    rw [ho] at h
    rw [Comp.andThen_exc ho]
    exact hR.append h (hk _ r _)
  | intr i =>
    rw [ho] at h
    rw [Comp.andThen_intr ho]
    exact h

end Rules

/-! ## Running computations one after the other

`collect absorb left` runs a list of computations in order and gathers their
values. An interrupt that `absorb` knows does not stop it: what it carries
is gathered too. Any other interrupt, and every exception, stops it, and the
marks `left` of what had been gathered are left in the history. -/

def collect (absorb : ι → Option (List δ)) (left : List δ → List η) :
    List (Comp ρ σ η ε ι α) → List α → List δ → Comp ρ σ η ε ι (List α × List δ)
  | [], as, ds => Comp.done (as, ds)
  | m :: ms, as, ds => fun r s =>
    let d := m r s
    match d.outcome with
    | .ok a => (collect absorb left ms (as ++ [a]) ds r d.state).after d.log
    | .exc e => ⟨.exc e, d.state, d.log ++ left ds⟩
    | .intr i =>
      match absorb i with
      | some new => (collect absorb left ms as (ds ++ new) r d.state).after d.log
      | none => ⟨.intr i, d.state, d.log ++ left ds⟩

section Collect
variable {absorb : ι → Option (List δ)} {left : List δ → List η} {m : Comp ρ σ η ε ι α}
  {ms : List (Comp ρ σ η ε ι α)} {as : List α} {ds : List δ} {r : ρ} {s : σ}

theorem collect_ok {a : α} (h : (m r s).outcome = .ok a) :
    collect absorb left (m :: ms) as ds r s =
      (collect absorb left ms (as ++ [a]) ds r (m r s).state).after (m r s).log := by
  simp only [collect, h]

theorem collect_exc {e : ε} (h : (m r s).outcome = .exc e) :
    collect absorb left (m :: ms) as ds r s =
      ⟨.exc e, (m r s).state, (m r s).log ++ left ds⟩ := by
  simp only [collect, h]

theorem collect_absorbed {i : ι} {new : List δ} (h : (m r s).outcome = .intr i)
    (ha : absorb i = some new) :
    collect absorb left (m :: ms) as ds r s =
      (collect absorb left ms as (ds ++ new) r (m r s).state).after (m r s).log := by
  simp only [collect, h, ha]

theorem collect_escaped {i : ι} (h : (m r s).outcome = .intr i) (ha : absorb i = none) :
    collect absorb left (m :: ms) as ds r s =
      ⟨.intr i, (m r s).state, (m r s).log ++ left ds⟩ := by
  simp only [collect, h, ha]

theorem collect_intr {i : ι} (h : (collect absorb left ms as ds r s).outcome = .intr i) :
    absorb i = none := by
  induction ms generalizing as ds s with
  | nil => simp [collect] at h
  | cons m ms ih =>
    cases ho : (m r s).outcome with
    | ok a => exact ih (by simpa [collect_ok ho] using h)
    | exc e => simp [collect_exc ho] at h
    | intr j =>
      cases ha : absorb j with
      | some new => exact ih (by simpa [collect_absorbed ho ha] using h)
      | none =>
        rw [collect_escaped ho ha] at h
        rw [← (Outcome.intr.inj h), ha]

theorem collect_length {x : List α × List δ}
    (h : (collect absorb left ms as ds r s).outcome = .ok x) :
    x.1.length ≤ as.length + ms.length := by
  induction ms generalizing as ds s with
  | nil =>
    simp only [collect, Comp.done, Outcome.ok.injEq] at h
    simp [← h]
  | cons m ms ih =>
    cases ho : (m r s).outcome with
    | ok a =>
      rw [collect_ok ho] at h
      have := ih h
      simp only [List.length_append, List.length_cons, List.length_nil] at this ⊢
      omega
    | exc e => simp [collect_exc ho] at h
    | intr i =>
      cases ha : absorb i with
      | some new =>
        rw [collect_absorbed ho ha] at h
        have := ih h
        simp only [List.length_cons]
        omega
      | none => simp [collect_escaped ho ha] at h

def runs (absorb : ι → Option (List δ)) :
    List (Comp ρ σ η ε ι α) → ρ → σ → List (Done σ η ε ι α)
  | [], _, _ => []
  | m :: ms, r, s =>
    let d := m r s
    d :: match d.outcome with
      | .ok _ => runs absorb ms r d.state
      | .exc _ => []
      | .intr i => if (absorb i).isSome then runs absorb ms r d.state else []

def Outcome.stops (absorb : ι → Option (List δ)) : Outcome ε ι α → Prop
  | .ok _ => False
  | .exc _ => True
  | .intr i => absorb i = none

def Outcome.value? : Outcome ε ι α → Option α
  | .ok a => some a
  | _ => none

def Outcome.gathered (absorb : ι → Option (List δ)) : Outcome ε ι α → List δ
  | .intr i => (absorb i).getD []
  | _ => []

theorem map_outcome_of_ok {ds : List (Done σ η ε ι α)} (h : ∀ d ∈ ds, ∃ a, d.outcome = .ok a) :
    ds.map (·.outcome) = (ds.filterMap (·.outcome.value?)).map .ok := by
  induction ds with
  | nil => rfl
  | cons d ds ih =>
    obtain ⟨a, ha⟩ := h d (by simp)
    simp [ha, Outcome.value?, ih fun d' hd' => h d' (by simp [hd'])]

theorem mem_runs {d : Done σ η ε ι α} (h : d ∈ runs absorb ms r s) :
    ∃ m ∈ ms, ∃ t, d = m r t := by
  induction ms generalizing s with
  | nil => simp [runs] at h
  | cons m ms ih =>
    rcases List.mem_cons.mp h with rfl | h
    · exact ⟨m, by simp, s, rfl⟩
    · have hrec : d ∈ runs absorb ms r (m r s).state := by
        cases ho : (m r s).outcome with
        | ok a => simpa [ho] using h
        | exc e => simp [ho] at h
        | intr i =>
          simp only [ho] at h
          split at h
          · exact h
          · simp at h
      obtain ⟨m', hm', t, rfl⟩ := ih hrec
      exact ⟨m', by simp [hm'], t, rfl⟩

theorem runs_length (h : ∀ d ∈ runs absorb ms r s, ¬ d.outcome.stops absorb) :
    (runs absorb ms r s).length = ms.length := by
  induction ms generalizing s with
  | nil => rfl
  | cons m ms ih =>
    have hm := h (m r s) (by simp [runs])
    cases ho : (m r s).outcome with
    | ok a =>
      have := ih (s := (m r s).state) fun d hd => h d (by simp [runs, ho, hd])
      simp [runs, ho, this]
    | exc e => simp [ho, Outcome.stops] at hm
    | intr i =>
      cases ha : absorb i with
      | some new =>
        have := ih (s := (m r s).state) fun d hd => h d (by simp [runs, ho, ha, hd])
        simp [runs, ho, ha, this]
      | none => simp [ho, ha, Outcome.stops] at hm

theorem collect_returns (h : ∀ d ∈ runs absorb ms r s, ¬ d.outcome.stops absorb) :
    (collect absorb left ms as ds r s).outcome =
      .ok (as ++ (runs absorb ms r s).filterMap (·.outcome.value?),
        ds ++ (runs absorb ms r s).flatMap (·.outcome.gathered absorb)) := by
  induction ms generalizing as ds s with
  | nil => simp [collect, runs]
  | cons m ms ih =>
    cases ho : (m r s).outcome with
    | ok a =>
      rw [collect_ok ho, Done.after_outcome, ih fun d hd => h d (by simp [runs, ho, hd])]
      simp [runs, ho, Outcome.value?, Outcome.gathered]
    | exc e => exact absurd trivial (by simpa [ho, Outcome.stops] using h (m r s) (by simp [runs]))
    | intr i =>
      cases ha : absorb i with
      | some new =>
        rw [collect_absorbed ho ha, Done.after_outcome,
          ih fun d hd => h d (by simp [runs, ho, ha, hd])]
        simp [runs, ho, ha, Outcome.value?, Outcome.gathered]
      | none => exact absurd ha (by simpa [ho, Outcome.stops] using h (m r s) (by simp [runs]))

theorem collect_stopped {d : Done σ η ε ι α} (hd : d ∈ runs absorb ms r s)
    (h : d.outcome.stops absorb) (x : List α × List δ) :
    (collect absorb left ms as ds r s).outcome ≠ .ok x := by
  induction ms generalizing as ds s with
  | nil => simp [runs] at hd
  | cons m ms ih =>
    cases ho : (m r s).outcome with
    | ok a =>
      have hne : d ≠ m r s := by
        rintro rfl
        simp [ho, Outcome.stops] at h
      rw [collect_ok ho]
      exact ih (by simpa [ho] using (List.mem_cons.mp hd).resolve_left hne)
    | exc e => simp [collect_exc ho]
    | intr i =>
      cases ha : absorb i with
      | some new =>
        have hne : d ≠ m r s := by
          rintro rfl
          simp [ho, ha, Outcome.stops] at h
        rw [collect_absorbed ho ha]
        exact ih (by simpa [ho, ha] using (List.mem_cons.mp hd).resolve_left hne)
      | none => simp [collect_escaped ho ha]

theorem mem_collect_log {d : Done σ η ε ι α} {x : η} (hd : d ∈ runs absorb ms r s)
    (hx : x ∈ d.log) : x ∈ (collect absorb left ms as ds r s).log := by
  induction ms generalizing as ds s with
  | nil => simp [runs] at hd
  | cons m ms ih =>
    rcases List.mem_cons.mp hd with rfl | hd
    · cases ho : (m r s).outcome with
      | ok a => simp [collect_ok ho, hx]
      | exc e => simp [collect_exc ho, hx]
      | intr i =>
        cases ha : absorb i with
        | some new => simp [collect_absorbed ho ha, hx]
        | none => simp [collect_escaped ho ha, hx]
    · cases ho : (m r s).outcome with
      | ok a =>
        rw [collect_ok ho, Done.after_log]
        exact List.mem_append_right _ (ih (by simpa [ho] using hd))
      | exc e => simp [ho] at hd
      | intr i =>
        cases ha : absorb i with
        | some new =>
          rw [collect_absorbed ho ha, Done.after_log]
          exact List.mem_append_right _ (ih (by simpa [ho, ha] using hd))
        | none => simp [ho, ha] at hd

/-- What a loop in scope `r` must keep: `G` holds between its turns, with what
was gathered so far. -/
structure Loop (R : ρ → σ → List η → σ → Option ι → Prop)
    (G : ρ → σ → List η → σ → List δ → Prop) (absorb : ι → Option (List δ))
    (left : List δ → List η) (r : ρ) : Prop where
  start : ∀ s, G r s [] s []
  ok : ∀ {s l₁ s₁ ds l₂ s₂}, G r s l₁ s₁ ds → R r s₁ l₂ s₂ none → G r s (l₁ ++ l₂) s₂ ds
  absorbed : ∀ {s l₁ s₁ ds l₂ s₂ i new}, G r s l₁ s₁ ds → R r s₁ l₂ s₂ (some i) →
    absorb i = some new → G r s (l₁ ++ l₂) s₂ (ds ++ new)
  raised : ∀ {s l₁ s₁ ds l₂ s₂}, G r s l₁ s₁ ds → R r s₁ l₂ s₂ none →
    R r s (l₁ ++ l₂ ++ left ds) s₂ none
  escaped : ∀ {s l₁ s₁ ds l₂ s₂ i}, G r s l₁ s₁ ds → R r s₁ l₂ s₂ (some i) →
    absorb i = none → R r s (l₁ ++ l₂ ++ left ds) s₂ (some i)

def LoopDone (R : ρ → σ → List η → σ → Option ι → Prop)
    (G : ρ → σ → List η → σ → List δ → Prop) (r : ρ) (s : σ) (l : List η)
    (d : Done σ η ε ι (List α × List δ)) : Prop :=
  match d.outcome with
  | .ok x => G r s (l ++ d.log) d.state x.2
  | o => R r s (l ++ d.log) d.state o.escape

theorem LoopDone.after {R : ρ → σ → List η → σ → Option ι → Prop}
    {G : ρ → σ → List η → σ → List δ → Prop} {r : ρ} {s : σ} {l l' : List η}
    {d : Done σ η ε ι (List α × List δ)} (h : LoopDone R G r s (l ++ l') d) :
    LoopDone R G r s l (d.after l') := by
  simpa [LoopDone] using h

theorem loop_collect {R : ρ → σ → List η → σ → Option ι → Prop}
    {G : ρ → σ → List η → σ → List δ → Prop} {s₀ : σ} {l : List η}
    (hL : Loop R G absorb left r) (hG : G r s₀ l s ds)
    (hms : ∀ m ∈ ms, ∀ s, R r s (m r s).log (m r s).state (m r s).outcome.escape) :
    LoopDone R G r s₀ l (collect absorb left ms as ds r s) := by
  induction ms generalizing as ds s l with
  | nil => simpa [LoopDone, collect] using hG
  | cons m ms ih =>
    have hm := hms m (by simp) s
    have hrest := fun m' hm' => hms m' (List.mem_cons_of_mem _ hm')
    cases ho : (m r s).outcome with
    | ok a =>
      rw [ho] at hm
      rw [collect_ok ho]
      exact (ih (hL.ok hG hm) hrest).after
    | exc e =>
      rw [ho] at hm
      rw [collect_exc ho]
      simpa [LoopDone] using hL.raised hG hm
    | intr i =>
      rw [ho] at hm
      cases ha : absorb i with
      | some new =>
        rw [collect_absorbed ho ha]
        exact (ih (hL.absorbed hG hm ha) hrest).after
      | none =>
        rw [collect_escaped ho ha]
        simpa [LoopDone] using hL.escaped hG hm ha

theorem guar_collect {R : ρ → σ → List η → σ → Option ι → Prop}
    {G : ρ → σ → List η → σ → List δ → Prop} (hL : Loop R G absorb left r)
    (hms : ∀ m ∈ ms, ∀ s, R r s (m r s).log (m r s).state (m r s).outcome.escape) :
    LoopDone R G r s [] (collect absorb left ms as [] r s) :=
  loop_collect hL (hL.start s) hms

end Collect

/-! ## The exceptions that leave a computation -/

def Outcome.mapExc (f : ε → ε) : Outcome ε ι α → Outcome ε ι α
  | .ok a => .ok a
  | .exc e => .exc (f e)
  | .intr i => .intr i

namespace Comp

def ofOutcome : Outcome ε ι α → Comp ρ σ η ε ι α
  | .ok a => done a
  | .exc e => raise e
  | .intr i => interrupt i

@[simp] theorem ofOutcome_run (o : Outcome ε ι α) (r : ρ) (s : σ) :
    (ofOutcome o : Comp ρ σ η ε ι α) r s = ⟨o, s, []⟩ := by
  cases o <;> rfl

def mapExc (f : ε → ε) (m : Comp ρ σ η ε ι α) : Comp ρ σ η ε ι α := fun r s =>
  let d := m r s
  ⟨d.outcome.mapExc f, d.state, d.log⟩

end Comp

def Raises (P : ε → Prop) (m : Comp ρ σ η ε ι α) : Prop :=
  ∀ r s e, (m r s).outcome = .exc e → P e

section Raises
variable {P : ε → Prop} {f : ε → ε}

theorem Comp.mapExc_eq {m : Comp ρ σ η ε ι α} (hf : ∀ e, P e → f e = e) (hm : Raises P m) :
    m.mapExc f = m := by
  funext r s
  have h := hm r s
  rw [Comp.mapExc]
  cases ho : (m r s).outcome with
  | ok a => rw [Outcome.mapExc, ← ho]
  | exc e => rw [Outcome.mapExc, hf e (h e ho), ← ho]
  | intr i => rw [Outcome.mapExc, ← ho]

theorem raises_done (a : α) : Raises P (Comp.done a : Comp ρ σ η ε ι α) := by
  intro r s e h
  simp at h

theorem raises_pure (a : α) : Raises P (pure a : Comp ρ σ η ε ι α) := raises_done a

theorem raises_raise {e : ε} (h : P e) : Raises P (Comp.raise e : Comp ρ σ η ε ι α) := by
  intro r s e' he
  simp only [Comp.raise_run, Outcome.exc.injEq] at he
  exact he ▸ h

theorem raises_interrupt (i : ι) : Raises P (Comp.interrupt i : Comp ρ σ η ε ι α) := by
  intro r s e h
  simp at h

theorem raises_get : Raises P (Comp.get : Comp ρ σ η ε ι σ) := by
  intro r s e h
  simp [Comp.get] at h

theorem raises_modify (g : σ → σ) : Raises P (Comp.modify g : Comp ρ σ η ε ι Unit) := by
  intro r s e h
  simp [Comp.modify] at h

theorem raises_mark (m : η) : Raises P (Comp.mark m : Comp ρ σ η ε ι Unit) := by
  intro r s e h
  simp [Comp.mark] at h

theorem raises_ofExcept {x : Except ε α} (h : ∀ e, x = .error e → P e) :
    Raises P (Comp.ofExcept x : Comp ρ σ η ε ι α) := by
  cases x with
  | ok a => exact raises_done a
  | error e => exact raises_raise (h e rfl)

theorem raises_within {m : Comp ρ σ η ε ι α} (g : ρ → ρ) (h : Raises P m) :
    Raises P (Comp.within g m) := fun r s => h (g r) s

theorem raises_andThen {m : Comp ρ σ η ε ι α} {k : Except ε α → Comp ρ σ η ε ι β}
    (hm : Raises P m) (hk : ∀ x, (∀ e, x = .error e → P e) → Raises P (k x)) :
    Raises P (m.andThen k) := by
  intro r s e h
  cases ho : (m r s).outcome with
  | ok a =>
    rw [Comp.andThen_ok ho] at h
    exact hk _ (by simp) r _ e h
  | exc e' =>
    rw [Comp.andThen_exc ho] at h
    exact hk _ (fun e he => Except.error.inj he ▸ hm r s e' ho) r _ e h
  | intr i =>
    rw [Comp.andThen_intr ho] at h
    cases h

theorem andThen_congr {m : Comp ρ σ η ε ι α} {k k' : Except ε α → Comp ρ σ η ε ι β}
    (hm : Raises P m) (hk : ∀ x, (∀ e, x = .error e → P e) → k x = k' x) :
    m.andThen k = m.andThen k' := by
  funext r s
  cases ho : (m r s).outcome with
  | ok a => rw [Comp.andThen_ok ho, Comp.andThen_ok ho, hk _ (by simp)]
  | exc e =>
    have he : ∀ e', (.error e : Except ε α) = .error e' → P e' :=
      fun e' he => Except.error.inj he ▸ hm r s e ho
    rw [Comp.andThen_exc ho, Comp.andThen_exc ho, hk _ he]
  | intr i => rw [Comp.andThen_intr ho, Comp.andThen_intr ho]

theorem raises_bind_ok {m : Comp ρ σ η ε ι α} {k : α → Comp ρ σ η ε ι β} (hm : Raises P m)
    (hk : ∀ a, (∃ r s, (m r s).outcome = .ok a) → Raises P (k a)) : Raises P (m >>= k) := by
  intro r s e h
  cases ho : (m r s).outcome with
  | ok a =>
    rw [Comp.bind_ok ho] at h
    exact hk a ⟨r, s, ho⟩ r _ e h
  | exc e' =>
    rw [Comp.bind_exc ho, Outcome.exc.injEq] at h
    exact h ▸ hm r s e' ho
  | intr i =>
    rw [Comp.bind_intr ho] at h
    cases h

theorem raises_bind {m : Comp ρ σ η ε ι α} {k : α → Comp ρ σ η ε ι β} (hm : Raises P m)
    (hk : ∀ a, Raises P (k a)) : Raises P (m >>= k) :=
  raises_bind_ok hm fun a _ => hk a

theorem raises_afterwards {m : Comp ρ σ η ε ι α} {k : Outcome ε ι α → Comp ρ σ η ε ι β}
    (hk : ∀ o, Raises P (k o)) : Raises P (Comp.afterwards m k) :=
  fun r _ e h => hk _ r _ e h

theorem raises_collect {absorb : ι → Option (List δ)} {left : List δ → List η}
    {ms : List (Comp ρ σ η ε ι α)} {as : List α} {ds : List δ} (h : ∀ m ∈ ms, Raises P m) :
    Raises P (collect absorb left ms as ds) := by
  induction ms generalizing as ds with
  | nil => exact raises_done _
  | cons m ms ih =>
    have hrest := fun m' hm' => h m' (List.mem_cons_of_mem _ hm')
    intro r s e he
    cases ho : (m r s).outcome with
    | ok a =>
      rw [collect_ok ho] at he
      exact ih hrest r _ e he
    | exc e' =>
      rw [collect_exc ho, Outcome.exc.injEq] at he
      exact he ▸ h m (by simp) r s e' ho
    | intr i =>
      cases ha : absorb i with
      | some new =>
        rw [collect_absorbed ho ha] at he
        exact ih hrest r _ e he
      | none =>
        rw [collect_escaped ho ha] at he
        cases he

end Raises

end Inngest.Effect
