import Inngest.Effect

/-!
# Computations that agree while it is quiet

A second computation follows the first when it does the same wherever the
first leaves no loud mark. The rules build such pairs along the syntax.
-/

set_option autoImplicit false

namespace Inngest.Effect

variable {ρ σ η ε ι α β δ : Type} {loud : η → Prop}

def Quiet (loud : η → Prop) (l : List η) : Prop := ∀ x ∈ l, ¬ loud x

theorem quiet_append {l l' : List η} : Quiet loud (l ++ l') ↔ Quiet loud l ∧ Quiet loud l' := by
  simp [Quiet, or_imp, forall_and]

theorem quiet_after {l : List η} {d : Done σ η ε ι α} :
    Quiet loud (d.after l).log ↔ Quiet loud l ∧ Quiet loud d.log := quiet_append

def Follows (loud : η → Prop) (m m' : Comp ρ σ η ε ι α) : Prop :=
  ∀ r s, Quiet loud (m r s).log → m' r s = m r s

variable {m m' : Comp ρ σ η ε ι α}

theorem follows_refl (m : Comp ρ σ η ε ι α) : Follows loud m m := fun _ _ _ => rfl

theorem follows_within {f : ρ → ρ} (h : Follows loud m m') :
    Follows loud (m.within f) (m'.within f) := fun r s hq => h (f r) s hq

theorem follows_andThen {k k' : Except ε α → Comp ρ σ η ε ι β} (hm : Follows loud m m')
    (hk : ∀ x, Follows loud (k x) (k' x)) : Follows loud (m.andThen k) (m'.andThen k') := by
  intro r s hq
  cases ho : (m r s).outcome with
  | ok a =>
    rw [Comp.andThen_ok ho] at hq ⊢
    obtain ⟨hq, hqk⟩ := quiet_after.mp hq
    have hms := hm r s hq
    rw [Comp.andThen_ok (by rw [hms, ho]), hms, hk _ r _ hqk]
  | exc e =>
    rw [Comp.andThen_exc ho] at hq ⊢
    obtain ⟨hq, hqk⟩ := quiet_after.mp hq
    have hms := hm r s hq
    rw [Comp.andThen_exc (by rw [hms, ho]), hms, hk _ r _ hqk]
  | intr i =>
    rw [Comp.andThen_intr ho] at hq ⊢
    have hms := hm r s hq
    rw [Comp.andThen_intr (by rw [hms, ho]), hms]

theorem follows_bind {k k' : α → Comp ρ σ η ε ι β} (hm : Follows loud m m')
    (hk : ∀ a, Follows loud (k a) (k' a)) : Follows loud (m >>= k) (m' >>= k') := by
  change Follows loud (Comp.bind m k) (Comp.bind m' k')
  refine follows_andThen hm fun x => ?_
  cases x with
  | ok a => exact hk a
  | error e => exact follows_refl _

theorem follows_afterwards {k k' : Outcome ε ι α → Comp ρ σ η ε ι β} (hm : Follows loud m m')
    (hk : ∀ o, Follows loud (k o) (k' o)) : Follows loud (m.afterwards k) (m'.afterwards k') := by
  intro r s hq
  rw [Comp.afterwards_run] at hq ⊢
  obtain ⟨hq, hqk⟩ := quiet_after.mp hq
  rw [Comp.afterwards_run, hm r s hq, hk _ r _ hqk]

theorem follows_collect {absorb : ι → Option (List δ)} {left : List δ → List η}
    {ms ms' : List (Comp ρ σ η ε ι α)} (h : List.Forall₂ (Follows loud) ms ms')
    (as : List α) (ds : List δ) :
    Follows loud (collect absorb left ms as ds) (collect absorb left ms' as ds) := by
  induction h generalizing as ds with
  | nil => exact follows_refl _
  | @cons m m' ms ms' hm _ ih =>
    intro r s hq
    cases ho : (m r s).outcome with
    | ok a =>
      rw [collect_ok ho] at hq ⊢
      obtain ⟨hq, hqk⟩ := quiet_after.mp hq
      have hms := hm r s hq
      rw [collect_ok (by rw [hms, ho]), hms, ih _ _ r _ hqk]
    | exc e =>
      rw [collect_exc ho] at hq ⊢
      have hms := hm r s (quiet_append.mp hq).1
      rw [collect_exc (by rw [hms, ho]), hms]
    | intr i =>
      cases ha : absorb i with
      | some new =>
        rw [collect_absorbed ho ha] at hq ⊢
        obtain ⟨hq, hqk⟩ := quiet_after.mp hq
        have hms := hm r s hq
        rw [collect_absorbed (by rw [hms, ho]) ha, hms, ih _ _ r _ hqk]
      | none =>
        rw [collect_escaped ho ha] at hq ⊢
        have hms := hm r s (quiet_append.mp hq).1
        rw [collect_escaped (by rw [hms, ho]) ha, hms]

end Inngest.Effect
