import Mathlib.Data.Int.Log
import Mathlib.Data.Rat.Floor
import Mathlib.Tactic.Linarith
import Mathlib.Tactic.Positivity
import Mathlib.Tactic.NormNum

/-!
# Rounding to binary64

To the nearest significand of 53 bits, and of two to the even one. Exponents
are not bounded; the values that are rounded are far from both bounds.
-/

set_option autoImplicit false

namespace Binary64

def roundEven (q : ℚ) : ℤ :=
  if q - ⌊q⌋ < 1 / 2 then ⌊q⌋
  else if 1 / 2 < q - ⌊q⌋ then ⌊q⌋ + 1
  else if ⌊q⌋ % 2 = 0 then ⌊q⌋
  else ⌊q⌋ + 1

def round (q : ℚ) : ℚ :=
  let ulp := (2 : ℚ) ^ (Int.log 2 |q| - 52)
  roundEven (q / ulp) * ulp

def truncate (q : ℚ) : ℤ := if 0 ≤ q then ⌊q⌋ else ⌈q⌉

variable {q : ℚ} {n m d : ℤ}

theorem roundEven_le_iff :
    roundEven q ≤ n ↔ q < n + 1 / 2 ∨ q = n + 1 / 2 ∧ n % 2 = 0 := by
  have hlow := Int.floor_le q
  have hup := Int.lt_floor_add_one q
  unfold roundEven
  generalize ⌊q⌋ = f at hlow hup
  rcases lt_trichotomy n f with hlt | rfl | hgt
  · have hcast : (n : ℚ) + 1 ≤ f := by exact_mod_cast hlt
    have hright : ¬ (q < n + 1 / 2 ∨ q = n + 1 / 2 ∧ n % 2 = 0) := by
      rintro (h | ⟨h, -⟩) <;> linarith
    simp only [hright, iff_false]
    split_ifs <;> omega
  · split_ifs with hless hmore heven
    · simp only [le_refl, true_iff]
      exact .inl (by linarith)
    · have hright : ¬ (q < n + 1 / 2 ∨ q = n + 1 / 2 ∧ n % 2 = 0) := by
        rintro (h | ⟨h, -⟩) <;> linarith
      simp only [hright, iff_false]
      omega
    · simp only [le_refl, true_iff]
      exact .inr ⟨by linarith, heven⟩
    · have hright : ¬ (q < n + 1 / 2 ∨ q = n + 1 / 2 ∧ n % 2 = 0) := by
        rintro (h | ⟨-, h⟩)
        · exact hless (by linarith)
        · exact heven h
      simp only [hright, iff_false]
      omega
  · have hcast : (f : ℚ) + 1 ≤ n := by exact_mod_cast hgt
    have hright : q < n + 1 / 2 := by linarith
    simp only [hright, true_or, iff_true]
    split_ifs <;> omega

/-- The rounded quotient of two integers, in integers. -/
theorem roundEven_div_le_iff (hd : 0 < d) :
    roundEven (m / d) ≤ n ↔ 2 * m < (2 * n + 1) * d ∨ 2 * m = (2 * n + 1) * d ∧ n % 2 = 0 := by
  have hd' : (0 : ℚ) < d := by exact_mod_cast hd
  have hmid : ((n : ℚ) + 1 / 2) * d = ((2 * n + 1) * d : ℤ) / 2 := by
    push_cast
    ring
  have hlt : (m : ℚ) / d < n + 1 / 2 ↔ 2 * m < (2 * n + 1) * d := by
    rw [div_lt_iff₀ hd', hmid, lt_div_iff₀ (by norm_num)]
    norm_cast
    rw [mul_comm]
  have heq : (m : ℚ) / d = n + 1 / 2 ↔ 2 * m = (2 * n + 1) * d := by
    rw [div_eq_iff hd'.ne', hmid, eq_div_iff (by norm_num)]
    norm_cast
    rw [mul_comm]
  rw [roundEven_le_iff, hlt, heq]

theorem round_eq {e : ℤ} (hlow : (2 : ℚ) ^ e ≤ q) (hup : q < (2 : ℚ) ^ (e + 1)) :
    round q = roundEven (q / (2 : ℚ) ^ (e - 52)) * (2 : ℚ) ^ (e - 52) := by
  have hpos : 0 < q := lt_of_lt_of_le (zpow_pos (by norm_num) _) hlow
  have hlog : Int.log 2 q = e := by
    apply le_antisymm
    · have := (Int.lt_zpow_iff_log_lt (b := 2) (by norm_num) hpos).mp (by exact_mod_cast hup)
      omega
    · exact (Int.zpow_le_iff_le_log (b := 2) (by norm_num) hpos).mp (by exact_mod_cast hlow)
  rw [round, abs_of_pos hpos, hlog]

theorem roundEven_le_half (q : ℚ) : (roundEven q : ℚ) ≤ q + 1 / 2 := by
  by_contra h
  have hle : roundEven q ≤ roundEven q - 1 := by
    rw [roundEven_le_iff]
    push_cast
    exact .inl (by linarith)
  omega

theorem round_nonpos (h : q ≤ 0) : round q ≤ 0 := by
  have hulp : (0 : ℚ) < 2 ^ (Int.log 2 |q| - 52) := zpow_pos (by norm_num) _
  have hle : roundEven (q / 2 ^ (Int.log 2 |q| - 52)) ≤ 0 := by
    rw [roundEven_le_iff]
    have := div_nonpos_of_nonpos_of_nonneg h hulp.le
    exact .inl (by push_cast; linarith)
  exact mul_nonpos_of_nonpos_of_nonneg (by exact_mod_cast hle) hulp.le

theorem round_nonneg (h : 0 ≤ q) : 0 ≤ round q := by
  have hulp : (0 : ℚ) < 2 ^ (Int.log 2 |q| - 52) := zpow_pos (by norm_num) _
  have hle : 0 ≤ roundEven (q / 2 ^ (Int.log 2 |q| - 52)) := by
    by_contra hneg
    have hlt : roundEven (q / 2 ^ (Int.log 2 |q| - 52)) ≤ -1 := by omega
    have hdiv := div_nonneg h hulp.le
    rw [roundEven_le_iff] at hlt
    push_cast at hlt
    rcases hlt with hlt | ⟨heq, -⟩ <;> linarith
  exact mul_nonneg (by exact_mod_cast hle) hulp.le

theorem round_le (h : 0 < q) : round q ≤ q * (1 + 1 / 2 ^ 53) := by
  have hulp : (0 : ℚ) < 2 ^ (Int.log 2 |q| - 52) := zpow_pos (by norm_num) _
  have hsmall : (2 : ℚ) ^ (Int.log 2 |q| - 52) ≤ q / 2 ^ 52 := by
    have hlog := Int.zpow_log_le_self (b := 2) (R := ℚ) (by norm_num) h
    rw [abs_of_pos h, zpow_sub₀ (by norm_num)]
    exact div_le_div_of_nonneg_right (by exact_mod_cast hlog) (by positivity)
  have hhalf := roundEven_le_half (q / 2 ^ (Int.log 2 |q| - 52))
  calc round q ≤ (q / 2 ^ (Int.log 2 |q| - 52) + 1 / 2) * 2 ^ (Int.log 2 |q| - 52) :=
        mul_le_mul_of_nonneg_right hhalf hulp.le
    _ = q + 1 / 2 * 2 ^ (Int.log 2 |q| - 52) := by
        rw [add_mul, div_mul_cancel₀ _ hulp.ne']
    _ ≤ q * (1 + 1 / 2 ^ 53) := by linarith

/-! ## Order -/

theorem roundEven_mono {p q : ℚ} (h : p ≤ q) : roundEven p ≤ roundEven q := by
  rw [roundEven_le_iff]
  rcases roundEven_le_iff.mp (le_refl (roundEven q)) with hlt | ⟨heq, heven⟩
  · exact .inl (h.trans_lt hlt)
  · rcases h.lt_or_eq with hlt | rfl
    · exact .inl (hlt.trans_eq heq)
    · exact .inr ⟨heq, heven⟩

theorem roundEven_intCast (n : ℤ) : roundEven n = n := by
  simp [roundEven]

theorem roundEven_neg (q : ℚ) : roundEven (-q) = -roundEven q := by
  have hiff : ∀ n : ℤ, roundEven (-q) ≤ n ↔ -roundEven q ≤ n := by
    intro n
    have hnot : -roundEven q ≤ n ↔ ¬ roundEven q ≤ -n - 1 := by omega
    have hparity : (-n - 1) % 2 = 0 ↔ ¬ n % 2 = 0 := by omega
    rw [hnot, roundEven_le_iff, roundEven_le_iff, hparity]
    push_cast
    rcases lt_trichotomy q (-n - 1 / 2) with h | h | h
    · exact iff_of_false (by rintro (h' | ⟨h', -⟩) <;> linarith)
        (not_not.mpr (.inl (by linarith)))
    · constructor
      · rintro (h' | ⟨-, heven⟩) (h'' | ⟨-, hodd⟩)
        · linarith
        · linarith
        · linarith
        · exact hodd heven
      · intro h'
        exact .inr ⟨by linarith, by_contra fun hodd => h' (.inr ⟨by linarith, hodd⟩)⟩
    · exact iff_of_true (.inl (by linarith)) (by rintro (h' | ⟨h', -⟩) <;> linarith)
  exact le_antisymm ((hiff _).mpr le_rfl) ((hiff _).mp le_rfl)

theorem round_neg (q : ℚ) : round (-q) = -round q := by
  rw [round, round, abs_neg, neg_div, roundEven_neg]
  push_cast
  ring

theorem round_binade (h : 0 < q) :
    (2 : ℚ) ^ Int.log 2 q ≤ round q ∧ round q ≤ 2 ^ (Int.log 2 q + 1) := by
  have hlow : (2 : ℚ) ^ Int.log 2 q ≤ q := by
    exact_mod_cast Int.zpow_log_le_self (b := 2) (R := ℚ) (by norm_num) h
  have hup : q < (2 : ℚ) ^ (Int.log 2 q + 1) := by
    exact_mod_cast Int.lt_zpow_succ_log_self (b := 2) (R := ℚ) (by norm_num) q
  rw [round_eq hlow hup]
  generalize Int.log 2 q = e at hlow hup
  have hulp : (0 : ℚ) < 2 ^ (e - 52) := zpow_pos (by norm_num) _
  have hscale : ∀ k : ℕ, (((2 : ℤ) ^ k : ℤ) : ℚ) * 2 ^ (e - 52) = 2 ^ (e - 52 + k) := by
    intro k
    rw [zpow_add₀ (by norm_num), mul_comm]
    push_cast
    rfl
  constructor
  · have hquot : (((2 : ℤ) ^ 52 : ℤ) : ℚ) ≤ q / 2 ^ (e - 52) := by
      rw [le_div_iff₀ hulp, hscale]
      simpa using hlow
    have hint := roundEven_mono hquot
    rw [roundEven_intCast] at hint
    calc (2 : ℚ) ^ e = (((2 : ℤ) ^ 52 : ℤ) : ℚ) * 2 ^ (e - 52) := by rw [hscale]; simp
      _ ≤ roundEven (q / 2 ^ (e - 52)) * 2 ^ (e - 52) :=
        mul_le_mul_of_nonneg_right (by exact_mod_cast hint) hulp.le
  · have hexp : e - 52 + ((53 : ℕ) : ℤ) = e + 1 := by
      push_cast
      ring
    have hquot : q / 2 ^ (e - 52) ≤ (((2 : ℤ) ^ 53 : ℤ) : ℚ) := by
      rw [div_le_iff₀ hulp, hscale, hexp]
      exact hup.le
    have hint := roundEven_mono hquot
    rw [roundEven_intCast] at hint
    calc (roundEven (q / 2 ^ (e - 52)) : ℚ) * 2 ^ (e - 52)
        ≤ (((2 : ℤ) ^ 53 : ℤ) : ℚ) * 2 ^ (e - 52) :=
        mul_le_mul_of_nonneg_right (by exact_mod_cast hint) hulp.le
      _ = 2 ^ (e + 1) := by rw [hscale, hexp]

theorem round_mono_pos {p q : ℚ} (hp : 0 < p) (h : p ≤ q) : round p ≤ round q := by
  have hq : 0 < q := hp.trans_le h
  rcases (Int.log_mono_right (b := 2) hp h).lt_or_eq with hlt | heq
  · calc round p ≤ 2 ^ (Int.log 2 p + 1) := (round_binade hp).2
      _ ≤ 2 ^ Int.log 2 q := zpow_le_zpow_right₀ (by norm_num) (by omega)
      _ ≤ round q := (round_binade hq).1
  · have hulp : (0 : ℚ) < 2 ^ (Int.log 2 q - 52) := zpow_pos (by norm_num) _
    rw [round, round, abs_of_pos hp, abs_of_pos hq, heq]
    have hint := roundEven_mono (div_le_div_of_nonneg_right h hulp.le)
    exact mul_le_mul_of_nonneg_right (by exact_mod_cast hint) hulp.le

theorem round_mono {p q : ℚ} (h : p ≤ q) : round p ≤ round q := by
  rcases lt_or_ge 0 p with hp | hp
  · exact round_mono_pos hp h
  · rcases lt_or_ge q 0 with hq | hq
    · have hneg := round_mono_pos (neg_pos.mpr hq) (neg_le_neg h)
      rw [round_neg, round_neg] at hneg
      exact neg_le_neg_iff.mp hneg
    · exact (round_nonpos hp).trans (round_nonneg hq)

/-- Only to the value that it rounds to can a difference come too close. -/
theorem le_round_iff {t : ℚ} (ht : round t = t) :
    t ≤ round q ↔ t ≤ q ∨ t = round q := by
  constructor
  · intro h
    rcases le_or_gt t q with hle | hgt
    · exact .inl hle
    · have hround := round_mono hgt.le
      rw [ht] at hround
      exact .inr (le_antisymm h hround)
  · rintro (h | h)
    · exact ht.symm.trans_le (round_mono h)
    · exact h.le

theorem truncate_lt (hn : 0 < n) (h : q < n) : truncate q < n := by
  rw [truncate]
  split
  · exact Int.floor_lt.mpr h
  · rename_i hneg
    have hle : ⌈q⌉ ≤ 0 := Int.ceil_le.mpr (by push_cast; linarith)
    omega

end Binary64
