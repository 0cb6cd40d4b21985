import Mathlib.Data.List.Basic

/-!
# Retrying

Attempts are made, up to a limit, until one of them has an outcome that stops
them. What an attempt may bring is kept, and the last of it counts.
-/

set_option autoImplicit false

namespace Inngest.Retry
variable {α β : Type} (stops : α → Bool) (outcomes : ℕ → α)

/-- How many of `n` attempts are made when the next outcome is the `k`-th. -/
def tries : ℕ → ℕ → ℕ
  | _, 0 => 0
  | k, n + 1 => if stops (outcomes k) then 1 else tries (k + 1) n + 1

variable {stops outcomes} {k n i : ℕ}

theorem tries_le : tries stops outcomes k n ≤ n := by
  induction n generalizing k with
  | zero => simp [tries]
  | succ n ih =>
    have := ih (k := k + 1)
    rw [tries]
    split <;> omega

theorem tries_pos : 0 < tries stops outcomes k (n + 1) := by
  rw [tries]
  split <;> omega

theorem tries_before (h : i + 1 < tries stops outcomes k n) : stops (outcomes (k + i)) = false := by
  induction n generalizing k i with
  | zero => simp [tries] at h
  | succ n ih =>
    rw [tries] at h
    split at h
    · omega
    · next hk =>
      cases i with
      | zero => simpa using hk
      | succ i =>
        have hi := ih (k := k + 1) (i := i) (by omega)
        rwa [Nat.add_right_comm, Nat.add_assoc] at hi

variable (stops) (read : α → Option β) (outcomes)

def kept (k n : ℕ) : Option β :=
  ((List.range' k (tries stops outcomes k n)).filterMap fun i => read (outcomes i)).getLast?

variable {stops read outcomes} {b : β}

theorem kept_stop (h : stops (outcomes k) = true) (hread : read (outcomes k) = some b) :
    kept stops outcomes read k (n + 1) = some b := by
  simp [kept, tries, h, hread]

theorem kept_next (h : stops (outcomes k) = false) (last : Option β) :
    (kept stops outcomes read k (n + 1)).or last =
      (kept stops outcomes read (k + 1) n).or ((read (outcomes k)).or last) := by
  simp only [kept, tries, h, Bool.false_eq_true, if_false, List.range'_succ, List.filterMap_cons]
  cases read (outcomes k) with
  | none => rfl
  | some b =>
    rw [List.getLast?_cons]
    cases (List.filterMap _ _).getLast? <;> rfl

theorem exists_of_kept (h : kept stops outcomes read k n = some b) :
    ∃ i < tries stops outcomes k n, read (outcomes (k + i)) = some b := by
  have hmem := List.mem_of_getLast? h
  obtain ⟨j, hj, hread⟩ := List.mem_filterMap.mp hmem
  rw [List.mem_range'_1] at hj
  refine ⟨j - k, by omega, ?_⟩
  rwa [Nat.add_sub_cancel' hj.1]

theorem kept_settled (h : kept stops outcomes read k n = some b)
    (hstops : ∀ a, read a = some b → stops a = true) :
    ∃ i, tries stops outcomes k n = i + 1 ∧ read (outcomes (k + i)) = some b := by
  obtain ⟨i, hi, hread⟩ := exists_of_kept h
  refine ⟨i, ?_, hread⟩
  by_contra hne
  have hbefore : stops (outcomes (k + i)) = false := tries_before (n := n) (by omega)
  rw [hstops _ hread] at hbefore
  cases hbefore

theorem kept_of_last (htries : tries stops outcomes k n = i + 1)
    (hread : read (outcomes (k + i)) = some b) : kept stops outcomes read k n = some b := by
  rw [kept, htries, List.range'_1_concat, List.filterMap_append, List.getLast?_append]
  simp [hread]

end Inngest.Retry
