import Mathlib.Tactic.IntervalCases
import Mathlib.Tactic.Ring
import Inngest.Binary64
import Inngest.Signing

/-!
# Duration strings

A duration is a number of milliseconds, or a `timedelta`, whose milliseconds go
through two roundings and a truncation. The string is exact where they leave a
whole number of seconds as it is, and anything else no whole number of seconds.
-/

set_option autoImplicit false

namespace Inngest
open ServerLib Errors Python

/-- `datetime.timedelta`, between `timedelta.min` and `timedelta.max`. -/
structure Timedelta where
  microseconds : ℤ
  min_le : -86399999913600000000 ≤ microseconds
  le_max : microseconds ≤ 86399999999999999999

def Timedelta.totalSeconds (td : Timedelta) : ℚ := Binary64.round (td.microseconds / 1000000)

inductive Duration where
  | ms (n : ℤ)
  | timedelta (td : Timedelta)

namespace Duration
open Transforms

def toMs : Duration → ℤ
  | .ms n => n
  | .timedelta td => Binary64.truncate (Binary64.round (td.totalSeconds * 1000))

def toDurationStr (d : Duration) : Raising (Except PyError String) :=
  if d.toMs < second then
    .ok (.error (functionConfigInvalidError "duration must be at least 1 second"))
  else
    match durationUnits.find? (fun u => d.toMs % u.1 = 0) with
    | some (unit, suffix) => (Net.decimal (d.toMs / unit)).map fun count => .ok (count ++ suffix)
    | none =>
      .ok (.error (functionConfigInvalidError "duration must be a whole number of seconds"))

/-! ## What an exact string is -/

def seconds : Duration → ℚ
  | .ms n => n / 1000
  | .timedelta td => td.microseconds / 1000000

def units : List (String × ℕ) := [("w", 604800), ("d", 86400), ("h", 3600), ("m", 60), ("s", 1)]

/-- The text stands for `n` seconds, in the largest unit that divides them. -/
def Denotes (text : String) (n : ℕ) : Prop :=
  ∃ count suffix size, (suffix, size) ∈ units ∧ text = toString count ++ suffix ∧
    count * size = n ∧ ∀ unit ∈ units, unit.2 ∣ n → unit.2 ≤ size

/-- The string of a whole number of seconds denotes it; of any other duration
there is none. -/
structure Exact (d : Duration) : Prop where
  whole : ∀ n : ℕ, 1 ≤ n → d.seconds = n →
    ∃ text, d.toDurationStr = .ok (.ok text) ∧ Denotes text n
  refused : (∀ n : ℕ, 1 ≤ n → d.seconds ≠ n) → ∃ e, d.toDurationStr = .ok (.error e)

/-! ## Where the conversion is exact -/

/-- For the seconds of a `timedelta`: their milliseconds are a binary64 number. -/
def Representable (n : ℕ) : Prop := n ≤ 72057594037927 ∨ n % 2 = 0

/-- Between `j` seconds and the next whole number there are `2 ^ precision j`
steps of binary64. -/
def precision (j : ℕ) : ℕ := 52 - Nat.log 2 j

def slack (j : ℕ) : ℕ := if 2 ^ (Nat.log 2 j + 10) < 1000 * j then 64 else 32

/-- `u` microseconds beyond `j` seconds are lost. -/
def RoundsDown (j u : ℕ) : Prop :=
  ∃ steps : ℕ, 125 * steps < max 1 (2 ^ (precision j - 3) - slack j) ∧
    2 ^ (precision j + 1) * u < (2 * steps + 1) * 1000000

/-- `u` microseconds beyond `j` seconds are taken for a second. -/
def RoundsUp (j u : ℕ) : Prop := 2 ^ (precision j + 1) * (1000000 - u) < 1000000

def Lossless : Duration → Prop
  | .ms n => 1000 ≤ n → 1000 ∣ n →
    ∃ unit ∈ units, 1000 * (unit.2 : ℤ) ∣ n ∧ n < 1000 * unit.2 * 10 ^ maxStrDigits
  | .timedelta td =>
    let j := td.microseconds.toNat / 1000000
    let u := td.microseconds.toNat % 1000000
    1 ≤ j → if u = 0 then Representable j
      else ¬ (Representable j ∧ RoundsDown j u) ∧ ¬ (Representable (j + 1) ∧ RoundsUp j u)

variable {d : Duration} {n : ℕ}

/-! ## The string of a number of milliseconds -/

theorem exists_unit (n : ℕ) : ∃ suffix size, (suffix, size) ∈ units ∧
    durationUnits.find? (fun u => (1000 * (n : ℤ)) % u.1 = 0) = some (1000 * (size : ℤ), suffix) ∧
    size ∣ n ∧ 0 < size ∧ ∀ unit ∈ units, unit.2 ∣ n → unit.2 ≤ size := by
  have hmod (size : ℕ) : (1000 * (n : ℤ)) % (1000 * size) = 0 ↔ size ∣ n := by
    rw [← Int.dvd_iff_emod_eq_zero, Int.mul_dvd_mul_iff_left (by norm_num)]
    exact Int.natCast_dvd_natCast
  have hunits : durationUnits = units.map fun unit => (1000 * (unit.2 : ℤ), unit.1) := by
    decide
  rw [hunits, List.find?_map]
  have hfind : units.find? ((fun u => decide ((1000 * (n : ℤ)) % u.1 = 0)) ∘
      fun unit => (1000 * (unit.2 : ℤ), unit.1)) = units.find? fun unit => unit.2 ∣ n := by
    congr 1
    funext unit
    exact decide_eq_decide.mpr (hmod unit.2)
  have hsome : (units.find? fun unit => unit.2 ∣ n).isSome := by
    rw [List.find?_isSome]
    exact ⟨("s", 1), by decide, by simp⟩
  obtain ⟨unit, hunit⟩ := Option.isSome_iff_exists.mp hsome
  obtain ⟨hdvd, before, after, heq, hbefore⟩ := List.find?_eq_some_iff_append.mp hunit
  have hsorted : units.Pairwise fun a b => b.2 ≤ a.2 := by decide
  have hpos : ∀ unit ∈ units, 0 < unit.2 := by decide
  have hmem : unit ∈ units := List.mem_of_find?_eq_some hunit
  refine ⟨unit.1, unit.2, hmem, ?_, by simpa using hdvd, hpos unit hmem, ?_⟩
  · rw [hfind, hunit]
    rfl
  · intro unit' hunit' hdvd'
    rw [heq, List.mem_append, List.mem_cons] at hunit'
    rw [heq, List.pairwise_append, List.pairwise_cons] at hsorted
    rcases hunit' with hb | rfl | ha
    · exact absurd hdvd' (by simpa using hbefore unit' hb)
    · exact le_refl _
    · exact hsorted.2.1.1 unit' ha

theorem length_toString_le_iff {m : ℕ} :
    (toString m).length ≤ maxStrDigits ↔ m < 10 ^ maxStrDigits := by
  have hlength : (toString m).length = (Nat.toDigits 10 m).length := by
    rw [← String.length_toList, show (toString m).toList = Nat.toDigits 10 m from Nat.toList_repr]
  rw [hlength]
  exact Nat.length_toDigits_le_iff (by decide) (by decide)

theorem refused_of_lt (h : d.toMs < 1000) : ∃ e, d.toDurationStr = .ok (.error e) := by
  have hlt : d.toMs < second := h
  rw [toDurationStr, if_pos hlt]
  exact ⟨_, rfl⟩

theorem refused_of_not_dvd (h : ¬ 1000 ∣ d.toMs) : ∃ e, d.toDurationStr = .ok (.error e) := by
  have hnone : durationUnits.find? (fun u => d.toMs % u.1 = 0) = none := by
    rw [List.find?_eq_none]
    intro unit hunit
    have hthousand : ∀ unit ∈ durationUnits, 1000 ∣ unit.1 := by decide
    simp only [decide_eq_true_eq]
    exact fun hzero => h ((hthousand unit hunit).trans (Int.dvd_of_emod_eq_zero hzero))
  rw [toDurationStr, hnone]
  split
  · exact ⟨_, rfl⟩
  · exact ⟨_, rfl⟩

theorem string_of_toMs (hn : 1 ≤ n) (h : d.toMs = 1000 * n) :
    (∃ text, d.toDurationStr = .ok (.ok text) ∧ Denotes text n) ∧
        (∃ unit ∈ units, unit.2 ∣ n ∧ n < unit.2 * 10 ^ maxStrDigits) ∨
      (∃ e, d.toDurationStr = .error e) ∧
        ¬ ∃ unit ∈ units, unit.2 ∣ n ∧ n < unit.2 * 10 ^ maxStrDigits := by
  obtain ⟨suffix, size, hmem, hfind, ⟨count, rfl⟩, hpos, hlargest⟩ := exists_unit n
  have hquotient : d.toMs / (1000 * (size : ℤ)) = count := by
    rw [h, Nat.cast_mul, ← mul_assoc]
    exact Int.mul_ediv_cancel_left _ (by omega)
  have hms : ¬ d.toMs < second := by
    rw [h, second]
    omega
  have hstr : d.toDurationStr = (Net.decimal count).map fun text => .ok (text ++ suffix) := by
    rw [toDurationStr, if_neg hms, h, hfind, ← h]
    simp only [hquotient]
  have hfits : (∃ unit ∈ units, unit.2 ∣ size * count ∧ size * count < unit.2 * 10 ^ maxStrDigits) ↔
      (toString count).length ≤ maxStrDigits := by
    rw [length_toString_le_iff]
    constructor
    · rintro ⟨unit, hunit, hdvd, hlt⟩
      have hle := Nat.mul_le_mul_right (10 ^ maxStrDigits) (hlargest unit hunit hdvd)
      exact lt_of_mul_lt_mul_left (lt_of_lt_of_le hlt hle) (Nat.zero_le size)
    · intro hlt
      exact ⟨(suffix, size), hmem, Nat.dvd_mul_right _ _, Nat.mul_lt_mul_of_pos_left hlt hpos⟩
  rw [hstr, Net.decimal, hfits]
  by_cases hlength : (toString count).length ≤ maxStrDigits
  · left
    rw [if_pos (by simpa using hlength)]
    exact ⟨⟨toString count ++ suffix, rfl, count, suffix, size, hmem, rfl, mul_comm _ _, hlargest⟩,
      hlength⟩
  · right
    rw [if_neg (by simpa using hlength)]
    exact ⟨⟨_, rfl⟩, hlength⟩

/-! ## The milliseconds, in steps of binary64

The seconds are `a` steps of `2 ^ -D`. Their product with 1000 has steps of
`2 ^ (9 - D)` below a power of two, and of `2 ^ (10 - D)` from it on; `h` is 32
or 64 accordingly. -/

section Steps
variable {a h m : ℤ} {D i : ℕ}

theorem fine_steps (hh : h = 32 ∨ h = 64) :
    Binary64.roundEven ((125 * a : ℤ) / (2 * h : ℤ)) / (2 : ℤ) ^ i = 1000 * m ↔
      16 * (m * 2 ^ i * h) ≤ a ∧ 125 * (a - 16 * (m * 2 ^ i * h)) < 2 * 2 ^ i * h - h := by
  have hd : 0 < 2 * h := by omega
  have hP : (0 : ℤ) < 2 ^ i := by positivity
  have hpar : (2 : ℤ) ^ i = 1 ∨ (2 : ℤ) ^ i % 2 = 0 := by
    cases i with
    | zero => exact .inl rfl
    | succ i => exact .inr (by rw [pow_succ]; omega)
  have hlow : 1000 * m * 2 ^ i ≤ Binary64.roundEven ((125 * a : ℤ) / (2 * h : ℤ)) ↔
      16 * (m * 2 ^ i * h) ≤ a := by
    rw [← not_lt, ← Int.le_sub_one_iff, Binary64.roundEven_div_le_iff hd]
    have hmid : (2 * (1000 * m * 2 ^ i - 1) + 1) * (2 * h) = 4000 * (m * 2 ^ i * h) - 2 * h := by
      ring
    have hodd : (1000 * m * 2 ^ i - 1) % 2 = 1 := by
      have : 1000 * m * 2 ^ i = 2 * (500 * (m * 2 ^ i)) := by ring
      omega
    rw [hmid, hodd]
    omega
  have hup : Binary64.roundEven ((125 * a : ℤ) / (2 * h : ℤ)) < (1000 * m + 1) * 2 ^ i ↔
      125 * (a - 16 * (m * 2 ^ i * h)) < 2 * 2 ^ i * h - h := by
    rw [← Int.le_sub_one_iff, Binary64.roundEven_div_le_iff hd]
    have hmid : (2 * ((1000 * m + 1) * 2 ^ i - 1) + 1) * (2 * h) =
        4000 * (m * 2 ^ i * h) + 4 * (2 ^ i * h) - 2 * h := by ring
    have hparity : ((1000 * m + 1) * 2 ^ i - 1) % 2 = (2 ^ i - 1) % 2 := by
      have : (1000 * m + 1) * 2 ^ i = 2 * (500 * (m * 2 ^ i)) + 2 ^ i := by ring
      omega
    have hassoc : 2 * 2 ^ i * h = 2 * (2 ^ i * h) := by ring
    rw [hmid, hparity, hassoc]
    rcases hpar with hone | heven
    · rw [hone]
      omega
    · generalize (2 : ℤ) ^ i * h = p
      omega
  rw [← hlow, ← hup]
  constructor
  · intro heq
    rw [← Int.le_ediv_iff_mul_le hP, ← Int.ediv_lt_iff_lt_mul hP, heq]
    omega
  · rintro ⟨hle, hlt⟩
    rw [← Int.le_ediv_iff_mul_le hP] at hle
    rw [← Int.ediv_lt_iff_lt_mul hP] at hlt
    omega

theorem coarse_steps (hh : h = 32 ∨ h = 64) (hi : i = 1 ∨ i = 2 ∨ i = 3) :
    Binary64.roundEven ((125 * a : ℤ) / (2 * h : ℤ)) * (2 : ℤ) ^ i = 1000 * m ↔
      a * 2 ^ i = 16 * (m * h) := by
  have hd : 0 < 2 * h := by omega
  have hle (n : ℤ) := Binary64.roundEven_div_le_iff (m := 125 * a) (n := n) hd
  generalize Binary64.roundEven ((125 * a : ℤ) / (2 * h : ℤ)) = b at hle ⊢
  have hup := (hle b).mp le_rfl
  have hlow := (hle (b - 1)).not.mp (by omega)
  rcases hh with rfl | rfl <;> rcases hi with rfl | rfl | rfl <;> omega

theorem coarsest_steps (hh : h = 64) :
    Binary64.roundEven ((125 * a : ℤ) / (2 * h : ℤ)) * (2 : ℤ) ^ 4 = 1000 * m ↔
      a = 64 * m ∧ m % 2 = 0 := by
  have hd : 0 < 2 * h := by omega
  have hle (n : ℤ) := Binary64.roundEven_div_le_iff (m := 125 * a) (n := n) hd
  generalize Binary64.roundEven ((125 * a : ℤ) / (2 * h : ℤ)) = b at hle ⊢
  subst hh
  have hup : 2 * (125 * a) ≤ (2 * b + 1) * 128 := ((hle b).mp le_rfl).elim le_of_lt fun h => h.1.le
  have hlow : (2 * (b - 1) + 1) * 128 ≤ 2 * (125 * a) :=
    not_lt.mp fun h => absurd ((hle (b - 1)).mpr (.inl h)) (by omega)
  constructor
  · intro heq
    omega
  · rintro ⟨rfl, hm⟩
    omega

theorem floor_steps {f : ℕ} (hf : h = 32 ∧ f = 9 ∨ h = 64 ∧ f = 10) (hD : 6 ≤ D) :
    ⌊(Binary64.roundEven ((125 * a : ℤ) / (2 * h : ℤ)) : ℚ) * 2 ^ ((f : ℤ) - D)⌋ = 1000 * m ↔
      m * 2 ^ D ≤ a ∧ 125 * (a - m * 2 ^ D) < max 1 (2 ^ (D - 3) - h) ∧
        (D = 6 → h = 64 → m % 2 = 0) := by
  have hh : h = 32 ∨ h = 64 := hf.imp And.left And.left
  rcases le_or_gt f D with hle | hgt
  · obtain ⟨i, rfl⟩ := Nat.exists_eq_add_of_le hle
    have hexp : (2 : ℚ) ^ ((f : ℤ) - (f + i : ℕ)) = ((2 ^ i : ℕ) : ℚ)⁻¹ := by
      rw [show (f : ℤ) - (f + i : ℕ) = -(i : ℤ) by omega, zpow_neg, zpow_natCast]
      push_cast
      rfl
    have hfloor (b : ℤ) : ⌊(b : ℚ) * ((2 ^ i : ℕ) : ℚ)⁻¹⌋ = b / (2 : ℤ) ^ i := by
      rw [← div_eq_mul_inv, Rat.floor_intCast_div_natCast]
      push_cast
      rfl
    have hstep : 16 * (m * 2 ^ i * h) = m * 2 ^ (f + i) := by
      rcases hf with ⟨rfl, rfl⟩ | ⟨rfl, rfl⟩ <;> ring
    have hlim : 2 * 2 ^ i * h - h = max 1 (2 ^ (f + i - 3) - h) := by
      have hpos : (1 : ℤ) ≤ 2 ^ i := one_le_pow₀ (by decide)
      rcases hf with ⟨rfl, rfl⟩ | ⟨rfl, rfl⟩
      · have hpow : (2 : ℤ) ^ (9 + i - 3) = 64 * 2 ^ i := by
          rw [show 9 + i - 3 = 6 + i by omega, pow_add]
          norm_num
        rw [hpow]
        omega
      · have hpow : (2 : ℤ) ^ (10 + i - 3) = 128 * 2 ^ i := by
          rw [show 10 + i - 3 = 7 + i by omega, pow_add]
          norm_num
        rw [hpow]
        omega
    rw [hexp, hfloor, fine_steps hh, hstep, hlim]
    refine ⟨fun ⟨hle, hlt⟩ => ⟨hle, hlt, ?_⟩, fun ⟨hle, hlt, _⟩ => ⟨hle, hlt⟩⟩
    intro h6
    omega
  · have hexp : (2 : ℚ) ^ ((f : ℤ) - D) = ((2 ^ (f - D) : ℤ) : ℚ) := by
      rw [show (f : ℤ) - D = (f - D : ℕ) by omega, zpow_natCast]
      push_cast
      rfl
    rw [hexp, ← Int.cast_mul, Int.floor_intCast]
    rcases hf with ⟨rfl, rfl⟩ | ⟨rfl, rfl⟩
    · rw [coarse_steps hh (by omega)]
      interval_cases D <;> norm_num <;> omega
    · rcases Nat.eq_or_lt_of_le hD with rfl | hD
      · rw [coarsest_steps rfl]
        norm_num
        omega
      · rw [coarse_steps hh (by omega)]
        interval_cases D <;> norm_num <;> omega

end Steps

/-! ## The steps of a timedelta -/

section Timedelta
variable {t j u : ℕ}

/-- The steps that the seconds of `t` microseconds are rounded to. -/
def steps (t : ℕ) : ℤ :=
  Binary64.roundEven (((t * 2 ^ precision (t / 1000000) : ℕ) : ℤ) / (1000000 : ℤ))

theorem precision_bounds (hj : 1 ≤ j) (hmax : j ≤ 86399999999999) :
    6 ≤ precision j ∧ Nat.log 2 j + precision j = 52 := by
  have hlog : Nat.log 2 j < 47 := Nat.log_lt_of_lt_pow (by omega) (by omega)
  rw [precision]
  omega

theorem precision_pow (hj : 1 ≤ j) (hmax : j ≤ 86399999999999) :
    2 ^ 52 ≤ j * 2 ^ precision j ∧ (j + 1) * 2 ^ precision j ≤ 2 ^ 53 := by
  obtain ⟨-, hsum⟩ := precision_bounds hj hmax
  have hlow : 2 ^ Nat.log 2 j ≤ j := Nat.pow_log_le_self 2 (by omega)
  have hup : j + 1 ≤ 2 ^ (Nat.log 2 j + 1) := Nat.lt_pow_succ_log_self (by decide) j
  constructor
  · calc 2 ^ 52 = 2 ^ Nat.log 2 j * 2 ^ precision j := by rw [← pow_add, hsum]
      _ ≤ j * 2 ^ precision j := Nat.mul_le_mul_right _ hlow
  · calc (j + 1) * 2 ^ precision j ≤ 2 ^ (Nat.log 2 j + 1) * 2 ^ precision j :=
          Nat.mul_le_mul_right _ hup
      _ = 2 ^ 53 := by rw [← pow_add, show Nat.log 2 j + 1 + precision j = 53 by omega]

/-- `j` seconds and `u` microseconds are rounded to `j` seconds and the steps
nearest to the microseconds. -/
theorem steps_le_iff (ht : t = 1000000 * j + u) (hu : u < 1000000) {n : ℤ} :
    steps t ≤ j * 2 ^ precision j + n ↔
      2 ^ (precision j + 1) * (u : ℤ) < (2 * n + 1) * 1000000 ∨
        2 ^ (precision j + 1) * (u : ℤ) = (2 * n + 1) * 1000000 ∧
          (j * 2 ^ precision j + n) % 2 = 0 := by
  have hdiv : t / 1000000 = j := by omega
  rw [steps, hdiv, Binary64.roundEven_div_le_iff (by decide)]
  have hleft : 2 * ((t * 2 ^ precision j : ℕ) : ℤ) =
      2000000 * (j * 2 ^ precision j) + 2 ^ (precision j + 1) * (u : ℤ) := by
    rw [ht]
    push_cast
    ring
  have hright : (2 * ((j : ℤ) * 2 ^ precision j + n) + 1) * 1000000 =
      2000000 * (j * 2 ^ precision j) + (2 * n + 1) * 1000000 := by ring
  rw [hleft, hright, add_lt_add_iff_left, add_right_inj]

theorem no_tie (hD : 6 ≤ precision j) {n : ℤ} :
    2 ^ (precision j + 1) * (u : ℤ) ≠ (2 * n + 1) * 1000000 := by
  intro h
  obtain ⟨i, hi⟩ := Nat.exists_eq_add_of_le hD
  have hpow : (2 : ℤ) ^ (precision j + 1) * u = 128 * (2 ^ i * u) := by
    rw [hi, show 6 + i + 1 = 7 + i by omega, pow_add]
    ring
  omega

theorem steps_ge (ht : t = 1000000 * j + u) (hu : u < 1000000) :
    j * 2 ^ precision j ≤ steps t := by
  by_contra hlt
  have hle : steps t ≤ j * 2 ^ precision j + -1 := by omega
  have hpos : (0 : ℤ) ≤ 2 ^ (precision j + 1) * (u : ℤ) := by positivity
  rw [steps_le_iff ht hu] at hle
  omega

theorem steps_le (ht : t = 1000000 * j + u) (hu : u < 1000000) :
    steps t ≤ (j + 1) * 2 ^ precision j := by
  have hle : steps t ≤ j * 2 ^ precision j + 2 ^ precision j := by
    rw [steps_le_iff ht hu]
    left
    have hpow : (2 : ℤ) ^ (precision j + 1) = 2 * 2 ^ precision j := pow_succ' _ _
    have hpos : (0 : ℤ) < 2 ^ precision j := by positivity
    have hmul : (2 : ℤ) ^ precision j * u < 2 ^ precision j * 1000000 :=
      mul_lt_mul_of_pos_left (by exact_mod_cast hu) hpos
    rw [hpow]
    linarith
  linarith

theorem totalSeconds_eq {td : Timedelta} (htd : td.microseconds = t)
    (ht : t = 1000000 * j + u) (hu : u < 1000000) (hj : 1 ≤ j) (hmax : j ≤ 86399999999999) :
    td.totalSeconds = steps t * ((2 : ℚ) ^ precision j)⁻¹ := by
  obtain ⟨-, hsum⟩ := precision_bounds hj hmax
  have hdiv : t / 1000000 = j := by omega
  have hj_le : (j : ℚ) ≤ (t : ℚ) / 1000000 := by
    rw [le_div_iff₀ (by norm_num)]
    exact_mod_cast (by omega : j * 1000000 ≤ t)
  have hlt_j : (t : ℚ) / 1000000 < j + 1 := by
    rw [div_lt_iff₀ (by norm_num)]
    exact_mod_cast (by omega : t < (j + 1) * 1000000)
  have hlow : (2 : ℚ) ^ ((Nat.log 2 j : ℕ) : ℤ) ≤ (t : ℚ) / 1000000 := by
    refine le_trans ?_ hj_le
    rw [zpow_natCast]
    exact_mod_cast Nat.pow_log_le_self 2 (by omega : j ≠ 0)
  have hup : (t : ℚ) / 1000000 < (2 : ℚ) ^ (((Nat.log 2 j : ℕ) : ℤ) + 1) := by
    refine lt_of_lt_of_le hlt_j ?_
    rw [show ((Nat.log 2 j : ℕ) : ℤ) + 1 = (Nat.log 2 j + 1 : ℕ) by push_cast; rfl, zpow_natCast]
    exact_mod_cast Nat.lt_pow_succ_log_self (by decide) j
  have hexp : (2 : ℚ) ^ (((Nat.log 2 j : ℕ) : ℤ) - 52) = ((2 : ℚ) ^ precision j)⁻¹ := by
    rw [show ((Nat.log 2 j : ℕ) : ℤ) - 52 = -(precision j : ℤ) by omega, zpow_neg, zpow_natCast]
  have hq : (t : ℚ) / 1000000 / ((2 : ℚ) ^ precision j)⁻¹ =
      (((t * 2 ^ precision j : ℕ) : ℤ) : ℚ) / ((1000000 : ℤ) : ℚ) := by
    push_cast
    rw [div_inv_eq_mul]
    ring
  rw [Timedelta.totalSeconds, htd, Int.cast_natCast, Binary64.round_eq hlow hup, hexp, hq, steps,
    hdiv]

theorem round_thousand {a h : ℤ} {D f : ℕ} (hf : h = 32 ∧ f = 9 ∨ h = 64 ∧ f = 10)
    (hlow : 2 ^ (52 + f) ≤ 1000 * a) (hup : 1000 * a < 2 ^ (53 + f)) :
    Binary64.round (a * ((2 : ℚ) ^ D)⁻¹ * 1000) =
      Binary64.roundEven ((125 * a : ℤ) / (2 * h : ℤ)) * 2 ^ ((f : ℤ) - D) := by
  have hD : (0 : ℚ) < 2 ^ D := by positivity
  have hzpow (n : ℕ) : (2 : ℚ) ^ ((n : ℤ) - D) = 2 ^ n * (2 ^ D)⁻¹ := by
    rw [zpow_sub₀ (by norm_num), zpow_natCast, zpow_natCast, div_eq_mul_inv]
  have hq : (a : ℚ) * ((2 : ℚ) ^ D)⁻¹ * 1000 = ((1000 * a : ℤ) : ℚ) * (2 ^ D)⁻¹ := by
    push_cast
    ring
  have hlow' : (2 : ℚ) ^ (((52 + f : ℕ) : ℤ) - D) ≤ (a : ℚ) * (2 ^ D)⁻¹ * 1000 := by
    rw [hzpow, hq]
    exact mul_le_mul_of_nonneg_right (by exact_mod_cast hlow) (inv_nonneg.mpr hD.le)
  have hup' : (a : ℚ) * (2 ^ D)⁻¹ * 1000 < (2 : ℚ) ^ (((52 + f : ℕ) : ℤ) - D + 1) := by
    rw [show ((52 + f : ℕ) : ℤ) - D + 1 = ((53 + f : ℕ) : ℤ) - D by push_cast; ring, hzpow, hq]
    exact mul_lt_mul_of_pos_right (by exact_mod_cast hup) (inv_pos.mpr hD)
  rw [Binary64.round_eq hlow' hup']
  have hexp : ((52 + f : ℕ) : ℤ) - D - 52 = (f : ℤ) - D := by
    push_cast
    ring
  have hquot : (a : ℚ) * (2 ^ D)⁻¹ * 1000 / 2 ^ ((f : ℤ) - D) =
      ((125 * a : ℤ) : ℚ) / ((2 * h : ℤ) : ℚ) := by
    rw [hzpow]
    rcases hf with ⟨rfl, rfl⟩ | ⟨rfl, rfl⟩
    · push_cast
      field_simp
      ring
    · push_cast
      field_simp
      ring
  rw [hexp, hquot]

theorem toMs_steps {td : Timedelta} (htd : td.microseconds = t)
    (ht : t = 1000000 * j + u) (hu : u < 1000000) (hj : 1 ≤ j) (hmax : j ≤ 86399999999999) (m : ℤ) :
    ∃ h : ℤ, (h = 32 ∧ 125 * steps t < 2 ^ 59 ∨ h = 64 ∧ 2 ^ 59 ≤ 125 * steps t) ∧
      (toMs (.timedelta td) = 1000 * m ↔ m * 2 ^ precision j ≤ steps t ∧
        125 * (steps t - m * 2 ^ precision j) < max 1 (2 ^ (precision j - 3) - h) ∧
          (precision j = 6 → h = 64 → m % 2 = 0)) := by
  obtain ⟨hD, -⟩ := precision_bounds hj hmax
  obtain ⟨hpow, hpow'⟩ := precision_pow hj hmax
  have hge := steps_ge ht hu
  have hle := steps_le ht hu
  have hlow : 2 ^ 52 ≤ steps t := le_trans (by exact_mod_cast hpow) hge
  have hup : steps t ≤ 2 ^ 53 := le_trans hle (by exact_mod_cast hpow')
  have hseconds := totalSeconds_eq htd ht hu hj hmax
  have hnonneg : 0 ≤ Binary64.round (td.totalSeconds * 1000) := by
    have hsteps : (0 : ℚ) ≤ steps t := by exact_mod_cast (by omega : 0 ≤ steps t)
    rw [hseconds]
    exact Binary64.round_nonneg (by positivity)
  rw [toMs, Binary64.truncate, if_pos hnonneg, hseconds]
  rcases lt_or_ge (125 * steps t) (2 ^ 59) with hbelow | habove
  · have hf : (32 : ℤ) = 32 ∧ 9 = 9 ∨ (32 : ℤ) = 64 ∧ 9 = 10 := .inl ⟨rfl, rfl⟩
    rw [round_thousand hf (by omega) (by omega)]
    exact ⟨32, .inl ⟨rfl, hbelow⟩, floor_steps hf hD⟩
  · have hf : (64 : ℤ) = 32 ∧ 10 = 9 ∨ (64 : ℤ) = 64 ∧ 10 = 10 := .inr ⟨rfl, rfl⟩
    rw [round_thousand hf (by omega) (by omega)]
    exact ⟨64, .inr ⟨rfl, habove⟩, floor_steps hf hD⟩

theorem slack_cases (hj : 1 ≤ j) (hmax : j ≤ 86399999999999) :
    slack j = 32 ∧ 1000 * ((j : ℤ) * 2 ^ precision j) + 2 ^ precision j ≤ 2 ^ 62 ∨
      slack j = 64 ∧ 2 ^ 62 < 1000 * ((j : ℤ) * 2 ^ precision j) := by
  obtain ⟨-, hsum⟩ := precision_bounds hj hmax
  have hpow : (2 : ℤ) ^ (Nat.log 2 j + 10) * 2 ^ precision j = 2 ^ 62 := by
    rw [← pow_add, show Nat.log 2 j + 10 + precision j = 62 by omega]
  have hpos : (0 : ℤ) < 2 ^ precision j := by positivity
  rw [slack]
  split
  · rename_i hlt
    refine .inr ⟨rfl, ?_⟩
    rw [← hpow, ← mul_assoc]
    exact mul_lt_mul_of_pos_right (by exact_mod_cast hlt) hpos
  · rename_i hge
    refine .inl ⟨rfl, ?_⟩
    have hne : 1000 * j ≠ 2 ^ (Nat.log 2 j + 10) := by
      intro heq
      have hdvd : 5 ∣ 2 ^ (Nat.log 2 j + 10) := heq ▸ ⟨200 * j, by ring⟩
      have hcoprime : Nat.Coprime 5 (2 ^ (Nat.log 2 j + 10)) := Nat.Coprime.pow_right _ (by decide)
      exact absurd (hcoprime.eq_one_of_dvd hdvd) (by decide)
    have hle : (1000 * (j : ℤ) + 1) ≤ 2 ^ (Nat.log 2 j + 10) := by
      exact_mod_cast (by omega : 1000 * j + 1 ≤ 2 ^ (Nat.log 2 j + 10))
    calc 1000 * ((j : ℤ) * 2 ^ precision j) + 2 ^ precision j =
          (1000 * j + 1) * 2 ^ precision j := by ring
      _ ≤ 2 ^ (Nat.log 2 j + 10) * 2 ^ precision j := mul_le_mul_of_nonneg_right hle hpos.le
      _ = 2 ^ 62 := hpow

theorem precision_six (hj : 72057594037927 ≤ j) (hmax : j ≤ 86399999999999) :
    precision j = 6 := by
  have hlog : Nat.log 2 j = 46 := by
    rw [Nat.log_eq_iff (by omega)]
    omega
  rw [precision, hlog]

theorem roundsDown_iff (ht : t = 1000000 * j + u) (hu : u < 1000000) (hj : 1 ≤ j)
    (hmax : j ≤ 86399999999999) : RoundsDown j u ↔
      125 * (steps t - j * 2 ^ precision j) < max 1 (2 ^ (precision j - 3) - (slack j : ℤ)) := by
  obtain ⟨hD, -⟩ := precision_bounds hj hmax
  have hge := steps_ge ht hu
  have hcast : ((2 ^ (precision j - 3) : ℕ) : ℤ) = 2 ^ (precision j - 3) := by
    push_cast
    rfl
  have hlim : ((max 1 (2 ^ (precision j - 3) - slack j) : ℕ) : ℤ) =
      max 1 (2 ^ (precision j - 3) - (slack j : ℤ)) := by
    rw [← hcast]
    omega
  rw [← hlim]
  constructor
  · rintro ⟨δ, hδ, hlt⟩
    have hle : steps t ≤ j * 2 ^ precision j + δ := by
      rw [steps_le_iff ht hu]
      exact .inl (by exact_mod_cast hlt)
    have : ((125 * δ : ℕ) : ℤ) < (max 1 (2 ^ (precision j - 3) - slack j) : ℕ) := by
      exact_mod_cast hδ
    push_cast at this ⊢
    omega
  · intro hlt
    obtain ⟨δ, hδ⟩ := Int.eq_ofNat_of_zero_le (sub_nonneg.mpr hge)
    have hle : steps t ≤ j * 2 ^ precision j + δ := by omega
    rw [steps_le_iff ht hu] at hle
    rw [hδ] at hlt
    refine ⟨δ, by exact_mod_cast hlt, ?_⟩
    exact_mod_cast hle.resolve_right fun h => no_tie hD h.1

theorem roundsUp_iff (ht : t = 1000000 * j + u) (hu : u < 1000000) (hj : 1 ≤ j)
    (hmax : j ≤ 86399999999999) :
    RoundsUp j u ↔ (j + 1) * 2 ^ precision j ≤ steps t := by
  obtain ⟨hD, -⟩ := precision_bounds hj hmax
  have hpow : (2 : ℤ) ^ (precision j + 1) = 2 * 2 ^ precision j := pow_succ' _ _
  have hcast : RoundsUp j u ↔ (2 : ℤ) ^ (precision j + 1) * (1000000 - u) < 1000000 := by
    have hsub : ((1000000 - u : ℕ) : ℤ) = 1000000 - u := by omega
    rw [RoundsUp, ← hsub]
    norm_cast
  have hlast : steps t ≤ j * 2 ^ precision j + (2 ^ precision j - 1) ↔
      2 ^ (precision j + 1) * (u : ℤ) < (2 * (2 ^ precision j - 1) + 1) * 1000000 := by
    rw [steps_le_iff ht hu]
    exact or_iff_left fun h => no_tie hD h.1
  have hnot : (j + 1) * 2 ^ precision j ≤ steps t ↔
      ¬ steps t ≤ j * 2 ^ precision j + (2 ^ precision j - 1) := by
    have hdistrib : ((j : ℤ) + 1) * 2 ^ precision j = j * 2 ^ precision j + 2 ^ precision j := by
      ring
    omega
  have hne := no_tie (u := u) hD (n := 2 ^ precision j - 1)
  have hleft : (2 : ℤ) ^ (precision j + 1) * (1000000 - u) =
      2000000 * 2 ^ precision j - 2 ^ (precision j + 1) * u := by
    rw [hpow]
    ring
  rw [hcast, hnot, hlast, hleft]
  omega

theorem eighth_step (hj : 1 ≤ j) (hmax : j ≤ 86399999999999) :
    (2 : ℤ) ^ precision j = 8 * 2 ^ (precision j - 3) ∧ (8 : ℤ) ≤ 2 ^ (precision j - 3) := by
  obtain ⟨hD, -⟩ := precision_bounds hj hmax
  obtain ⟨i, hi⟩ := Nat.exists_eq_add_of_le hD
  have hpos : (1 : ℤ) ≤ 2 ^ i := one_le_pow₀ (by decide)
  have hpow : (2 : ℤ) ^ (6 + i - 3) = 8 * 2 ^ i := by
    rw [show 6 + i - 3 = 3 + i by omega, pow_add]
    norm_num
  have hpow' : (2 : ℤ) ^ (6 + i) = 64 * 2 ^ i := by
    rw [pow_add]
    norm_num
  rw [hi, hpow, hpow']
  omega

theorem representable_iff (hj : 1 ≤ j) (hmax : j ≤ 86399999999999) {h a : ℤ}
    (hh : h = 32 ∧ 125 * a < 2 ^ 59 ∨ h = 64 ∧ 2 ^ 59 ≤ 125 * a) {m : ℕ}
    (hm : m = j ∨ m = j + 1) (ha : precision j = 6 → a = m * 64) :
    (precision j = 6 → h = 64 → (m : ℤ) % 2 = 0) ↔ Representable m := by
  have hsix := precision_six (j := j)
  norm_num at hh
  rw [Representable]
  by_cases hp : precision j = 6
  · have ha := ha hp
    simp only [hp, forall_const]
    omega
  · simp only [hp, false_implies, true_iff]
    omega

/-- When the milliseconds are those of a whole number of seconds. -/
theorem toMs_whole_iff {td : Timedelta} (htd : td.microseconds = t) (ht : t = 1000000 * j + u)
    (hu : u < 1000000) (hj : 1 ≤ j) (hmax : j ≤ 86399999999999) (m : ℤ) :
    toMs (.timedelta td) = 1000 * m ↔
      m = j ∧ Representable j ∧ RoundsDown j u ∨
        m = j + 1 ∧ Representable (j + 1) ∧ RoundsUp j u := by
  obtain ⟨h, hh, hiff⟩ := toMs_steps htd ht hu hj hmax m
  obtain ⟨hP, hp⟩ := eighth_step hj hmax
  have hge := steps_ge ht hu
  have hle := steps_le ht hu
  have hslack := slack_cases hj hmax
  have hnear : m * 2 ^ precision j ≤ steps t →
      125 * (steps t - m * 2 ^ precision j) < max 1 (2 ^ (precision j - 3) - h) →
        m = j ∨ m = j + 1 := by
    intro hlow hlim
    have hpos : (0 : ℤ) ≤ 2 ^ precision j := by positivity
    have hup : m ≤ j + 1 := by
      by_contra hlt
      have := mul_le_mul_of_nonneg_right (by omega : (j : ℤ) + 1 + 1 ≤ m) hpos
      rw [add_mul _ 1] at this
      omega
    have hdown : j ≤ m := by
      by_contra hlt
      have := mul_le_mul_of_nonneg_right (by omega : m + 1 ≤ (j : ℤ)) hpos
      rw [add_mul] at this
      omega
    omega
  have hsixth (hsix : precision j = 6) : (2 : ℤ) ^ precision j = 64 ∧
      (2 : ℤ) ^ (precision j - 3) = 8 := by
    rw [hsix]
    decide
  norm_num at hslack
  rw [hiff, roundsDown_iff ht hu hj hmax, roundsUp_iff ht hu hj hmax]
  by_cases hm : m = j
  · subst hm
    have hne : ¬ (j : ℤ) = j + 1 := by omega
    have hlim : 125 * (steps t - j * 2 ^ precision j) < max 1 (2 ^ (precision j - 3) - h) ↔
        125 * (steps t - j * 2 ^ precision j) < max 1 (2 ^ (precision j - 3) - (slack j : ℤ)) := by
      norm_num at hh
      omega
    have hrep : 125 * (steps t - j * 2 ^ precision j) < max 1 (2 ^ (precision j - 3) - h) →
        ((precision j = 6 → h = 64 → (j : ℤ) % 2 = 0) ↔ Representable j) := by
      intro hlt
      apply representable_iff hj hmax hh (.inl rfl)
      intro hsix
      obtain ⟨h64, h8⟩ := hsixth hsix
      rw [h64, h8] at hlt
      rw [h64] at hge
      omega
    rw [← hlim]
    simp only [hne, false_and, or_false, true_and, hge]
    constructor
    · rintro ⟨hlt, hpar⟩
      exact ⟨(hrep hlt).mp hpar, hlt⟩
    · rintro ⟨hr, hlt⟩
      exact ⟨hlt, (hrep hlt).mpr hr⟩
  · by_cases hm' : m = j + 1
    · subst hm'
      have hrep : (j + 1) * 2 ^ precision j ≤ steps t →
          ((precision j = 6 → h = 64 → ((j + 1 : ℕ) : ℤ) % 2 = 0) ↔ Representable (j + 1)) := by
        intro hreach
        apply representable_iff hj hmax hh (.inr rfl)
        intro hsix
        obtain ⟨h64, -⟩ := hsixth hsix
        rw [h64] at hreach hle
        push_cast
        omega
      push_cast at hrep
      simp only [hm, false_and, false_or, true_and]
      constructor
      · rintro ⟨hreach, -, hpar⟩
        exact ⟨(hrep hreach).mp hpar, hreach⟩
      · rintro ⟨hr, hreach⟩
        exact ⟨hreach, by omega, (hrep hreach).mpr hr⟩
    · simp only [hm, hm', false_and, or_false, iff_false]
      rintro ⟨hlow, hlim, -⟩
      exact (hnear hlow hlim).elim hm hm'

end Timedelta

theorem toMs_lt {td : Timedelta} (h : td.microseconds < 1000000) :
    toMs (.timedelta td) < 1000 := by
  apply Binary64.truncate_lt (by norm_num)
  have hlt : (td.microseconds : ℚ) / 1000000 ≤ 999999 / 1000000 := by
    rw [div_le_div_iff_of_pos_right (by norm_num)]
    exact_mod_cast (by omega : td.microseconds ≤ 999999)
  rcases le_or_gt (td.totalSeconds * 1000) 0 with hle | hgt
  · have := Binary64.round_nonpos hle
    push_cast
    linarith
  · have hproduct := Binary64.round_le hgt
    have hpos : 0 < (td.microseconds : ℚ) / 1000000 := by
      by_contra hneg
      have := Binary64.round_nonpos (not_lt.mp hneg)
      rw [Timedelta.totalSeconds] at hgt
      linarith
    have hseconds := Binary64.round_le hpos
    rw [← Timedelta.totalSeconds] at hseconds
    norm_num at hproduct hseconds ⊢
    linarith

theorem denotes_refused (hn : 1 ≤ n) (h : d.toMs = 1000 * n) :
    ¬ ∃ e, d.toDurationStr = .ok (.error e) := by
  rintro ⟨e, he⟩
  rcases string_of_toMs hn h with ⟨⟨text, htext, -⟩, -⟩ | ⟨⟨e', he'⟩, -⟩
  · rw [htext] at he
    cases he
  · rw [he'] at he
    cases he

theorem exists_toMs (h : ¬ ∃ e, d.toDurationStr = .ok (.error e)) :
    ∃ m : ℕ, 1 ≤ m ∧ d.toMs = 1000 * m := by
  have hge : ¬ d.toMs < 1000 := fun hlt => h (refused_of_lt hlt)
  have hdvd : 1000 ∣ d.toMs := by
    by_contra hnot
    exact h (refused_of_not_dvd hnot)
  exact ⟨(d.toMs / 1000).toNat, by omega, by omega⟩

theorem exact_ms (n : ℤ) : Exact (.ms n) ↔ Lossless (.ms n) := by
  have hunits (m : ℕ) : (∃ unit ∈ units, 1000 * (unit.2 : ℤ) ∣ 1000 * (m : ℤ) ∧
      1000 * (m : ℤ) < 1000 * unit.2 * 10 ^ maxStrDigits) ↔
      ∃ unit ∈ units, unit.2 ∣ m ∧ m < unit.2 * 10 ^ maxStrDigits := by
    refine exists_congr fun unit => and_congr_right fun _ => and_congr ?_ ?_
    · rw [Int.mul_dvd_mul_iff_left (by norm_num)]
      exact Int.natCast_dvd_natCast
    · rw [mul_assoc, mul_lt_mul_iff_right₀ (by norm_num)]
      exact_mod_cast Iff.rfl
  have hseconds (m : ℕ) : seconds (.ms n) = m ↔ n = 1000 * m := by
    rw [seconds, div_eq_iff (by norm_num), mul_comm]
    exact_mod_cast Iff.rfl
  constructor
  · intro h hge hdvd
    obtain ⟨m, hm, hn⟩ : ∃ m : ℕ, 1 ≤ m ∧ n = 1000 * m :=
      ⟨(n / 1000).toNat, by omega, by omega⟩
    obtain ⟨text, htext, -⟩ := h.whole m hm ((hseconds m).mpr hn)
    rcases string_of_toMs (d := .ms n) hm hn with ⟨-, hfits⟩ | ⟨⟨e, he⟩, -⟩
    · rw [hn]
      exact (hunits m).mpr hfits
    · rw [htext] at he
      cases he
  · intro h
    constructor
    · intro m hm hs
      have hn := (hseconds m).mp hs
      rcases string_of_toMs (d := .ms n) hm hn with ⟨htext, -⟩ | ⟨-, hlong⟩
      · exact htext
      · have hfits := h (by omega) ⟨m, hn⟩
        rw [hn] at hfits
        exact absurd ((hunits m).mp hfits) hlong
    · intro hnone
      by_contra href
      obtain ⟨m, hm, hn⟩ := exists_toMs href
      exact hnone m hm ((hseconds m).mpr hn)

theorem seconds_timedelta {td : Timedelta} (m : ℕ) :
    seconds (.timedelta td) = m ↔ td.microseconds = 1000000 * m := by
  rw [seconds, div_eq_iff (by norm_num), mul_comm]
  exact_mod_cast Iff.rfl

theorem exact_long {td : Timedelta} {t j u : ℕ} (htd : td.microseconds = t)
    (ht : t = 1000000 * j + u) (hu : u < 1000000) (hj : 1 ≤ j) (hmax : j ≤ 86399999999999) :
    Exact (.timedelta td) ↔ if u = 0 then Representable j
      else ¬ (Representable j ∧ RoundsDown j u) ∧
        ¬ (Representable (j + 1) ∧ RoundsUp j u) := by
  have hiff := toMs_whole_iff htd ht hu hj hmax
  have hwhole (m : ℕ) : seconds (.timedelta td) = m ↔ u = 0 ∧ m = j := by
    rw [seconds_timedelta, htd]
    omega
  have hfits (m : ℕ) (hm : m ≤ 86399999999999) :
      ∃ unit ∈ units, unit.2 ∣ m ∧ m < unit.2 * 10 ^ maxStrDigits := by
    refine ⟨("s", 1), by decide, Nat.one_dvd m, ?_⟩
    have hpow : 10 ^ 14 ≤ 10 ^ maxStrDigits := Nat.pow_le_pow_right (by decide) (by decide)
    dsimp only
    omega
  by_cases hzero : u = 0
  · subst hzero
    have hdown : RoundsDown j 0 := ⟨0, by simp, by simp⟩
    have hup : ¬ RoundsUp j 0 := by
      have hpos : 1 ≤ 2 ^ (precision j + 1) := Nat.one_le_two_pow
      rw [RoundsUp]
      omega
    rw [if_pos rfl]
    constructor
    · intro h
      obtain ⟨text, htext, -⟩ := h.whole j hj ((hwhole j).mpr ⟨rfl, rfl⟩)
      obtain ⟨m, -, hm⟩ := exists_toMs (d := .timedelta td) (by rw [htext]; simp)
      rcases (hiff m).mp hm with ⟨-, hrep, -⟩ | ⟨-, -, hbad⟩
      · exact hrep
      · exact absurd hbad hup
    · intro hrep
      refine ⟨fun m hm hs => ?_, fun hnone => absurd ((hwhole j).mpr ⟨rfl, rfl⟩) (hnone j hj)⟩
      obtain ⟨-, rfl⟩ := (hwhole m).mp hs
      rcases string_of_toMs hm ((hiff m).mpr (.inl ⟨rfl, hrep, hdown⟩)) with ⟨htext, -⟩ | ⟨-, hlong⟩
      · exact htext
      · exact absurd (hfits m hmax) hlong
  · have hnone (m : ℕ) (_ : 1 ≤ m) : seconds (.timedelta td) ≠ m := fun hs =>
      hzero ((hwhole m).mp hs).1
    rw [if_neg hzero]
    constructor
    · intro h
      have hrefused := h.refused hnone
      constructor
      · rintro ⟨hrep, hdown⟩
        exact denotes_refused hj ((hiff j).mpr (.inl ⟨rfl, hrep, hdown⟩)) hrefused
      · rintro ⟨hrep, hup⟩
        have hms := (hiff (j + 1 : ℕ)).mpr (.inr ⟨by push_cast; rfl, hrep, hup⟩)
        exact denotes_refused (by omega) hms hrefused
    · rintro ⟨hdown, hup⟩
      refine ⟨fun m hm hs => absurd hs (hnone m hm), fun _ => ?_⟩
      by_contra href
      obtain ⟨m, -, hm⟩ := exists_toMs href
      rcases (hiff m).mp hm with ⟨-, hbad⟩ | ⟨-, hbad⟩
      · exact hdown hbad
      · exact hup hbad

theorem exact_timedelta (td : Timedelta) : Exact (.timedelta td) ↔ Lossless (.timedelta td) := by
  rcases lt_or_ge td.microseconds 1000000 with hshort | hlong
  · have hzero : td.microseconds.toNat / 1000000 = 0 := by omega
    have hlossless : Lossless (.timedelta td) := by
      rw [Lossless, hzero]
      intro h
      omega
    refine iff_of_true ⟨fun m hm hs => ?_, fun _ => refused_of_lt (toMs_lt hshort)⟩ hlossless
    have := (seconds_timedelta m).mp hs
    omega
  · obtain ⟨t, ht⟩ := Int.eq_ofNat_of_zero_le (by omega : 0 ≤ td.microseconds)
    have hmax := td.le_max
    have hj : 1 ≤ t / 1000000 := by omega
    rw [exact_long ht (Nat.div_add_mod t 1000000).symm (Nat.mod_lt _ (by decide)) hj (by omega),
      Lossless, ht, Int.toNat_natCast]
    exact ⟨fun h _ => h, fun h => h hj⟩

def overSecond : Timedelta := ⟨1000001, by decide, by decide⟩

/-- It is taken for a second. -/
theorem overSecond_not_exact : ¬ Exact (.timedelta overSecond) := by
  have hprecision : precision 1 = 52 := by simp [precision]
  have hdown : RoundsDown 1 1 := by
    refine ⟨4503599628, ?_, ?_⟩
    · simp [hprecision, slack]
    · simp [hprecision]
  have ht : overSecond.microseconds = (1000001 : ℕ) := rfl
  have hsplit : 1000001 = 1000000 * 1 + 1 := rfl
  have hexact := exact_long ht hsplit (by decide) (by decide) (by decide)
  rw [hexact, if_neg (by decide)]
  exact fun h => h.1 ⟨.inl (by decide), hdown⟩

/-! ## Durations below 272 years -/

theorem precision_short {j : ℕ} (hj : 1 ≤ j) (hshort : j < 2 ^ 33) :
    2 ^ 17 ≤ 2 ^ (precision j - 3) ∧ 2 ^ (precision j + 1) = 16 * 2 ^ (precision j - 3) := by
  have hlog : Nat.log 2 j < 33 := Nat.log_lt_of_lt_pow (by omega) hshort
  have hprecision : 20 ≤ precision j := by
    rw [precision]
    omega
  refine ⟨Nat.pow_le_pow_right (by decide) (by omega), ?_⟩
  rw [show precision j + 1 = 4 + (precision j - 3) by omega, pow_add]
  rfl

/-- Less than a millisecond beyond a whole number of seconds is lost, and for
some numbers of seconds so is a millisecond. -/
theorem roundsDown_short {j u : ℕ} (hj : 1 ≤ j) (hshort : j < 2 ^ 33) :
    RoundsDown j u ↔
      u < 1000 ∨ u = 1000 ∧ slack j = 32 ∧ 32 < 2 ^ (precision j - 3) % 125 ∧
        2 ^ (precision j - 3) % 125 ≤ 62 := by
  obtain ⟨hp, hpow⟩ := precision_short hj hshort
  have hslack : slack j = 32 ∨ slack j = 64 := by
    rw [slack]
    split <;> simp
  rw [RoundsDown, hpow]
  generalize 2 ^ (precision j - 3) = p at *
  norm_num at hp
  constructor
  · rintro ⟨δ, hδ, hlt⟩
    rcases lt_trichotomy u 1000 with hless | rfl | hmore
    · exact .inl hless
    · omega
    · have := Nat.mul_le_mul_left (16 * p) (by omega : 1001 ≤ u)
      omega
  · rintro (hless | ⟨rfl, hs, hr⟩)
    · have := Nat.mul_le_mul_left (16 * p) (by omega : u ≤ 999)
      refine ⟨(p - slack j - 1) / 125, by omega, by omega⟩
    · exact ⟨p / 125, by omega, by omega⟩

theorem not_roundsUp_short {j u : ℕ} (hj : 1 ≤ j) (hshort : j < 2 ^ 33) (hu : u < 1000000) :
    ¬ RoundsUp j u := by
  obtain ⟨hp, hpow⟩ := precision_short hj hshort
  rw [RoundsUp, hpow]
  generalize 2 ^ (precision j - 3) = p at *
  norm_num at hp
  have := Nat.mul_le_mul_left (16 * p) (by omega : 1 ≤ 1000000 - u)
  omega

end Duration

/-- When a duration string is exact. -/
theorem Duration.exact_iff_lossless (d : Duration) : d.Exact ↔ d.Lossless := by
  cases d with
  | ms n => exact exact_ms n
  | timedelta td => exact exact_timedelta td

end Inngest
