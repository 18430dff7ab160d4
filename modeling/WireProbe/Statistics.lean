import Mathlib.Algebra.BigOperators.Group.List.Basic
import Mathlib.Algebra.Order.BigOperators.Group.List
import Mathlib.Algebra.Order.Field.Basic
import Mathlib.Algebra.Order.Field.Rat
import Mathlib.Order.Bounds.Basic
import Mathlib.Tactic.FieldSimp
import Mathlib.Tactic.Positivity

/-!
# Mean and population variance of a list

Over the rationals, with the two facts a reporter of such numbers relies on:
the mean lies between the extremes and the variance is not negative.
-/

set_option autoImplicit false

namespace WireProbe.Statistics

def mean (l : List ℚ) : ℚ := l.sum/l.length

def variance (l : List ℚ) : ℚ := (l.map fun r => (r-mean l)^2).sum/l.length

theorem variance_nonneg (l : List ℚ) : 0 ≤ variance l := by
  apply div_nonneg
  · apply List.sum_nonneg
    intro x hx
    obtain ⟨r,-,rfl⟩ := List.mem_map.mp hx
    exact sq_nonneg _
  · exact Nat.cast_nonneg _

theorem le_mean {l : List ℚ} (hl : l ≠ []) {lo : ℚ} (h : ∀ x ∈ l, lo ≤ x) : lo ≤ mean l := by
  have hpos : (0 : ℚ) < l.length := Nat.cast_pos.mpr (List.length_pos_iff.mpr hl)
  have hsum := List.card_nsmul_le_sum l lo h
  rw [nsmul_eq_mul] at hsum
  rw [mean, le_div_iff₀ hpos, mul_comm]
  exact hsum

theorem mean_le {l : List ℚ} (hl : l ≠ []) {hi : ℚ} (h : ∀ x ∈ l, x ≤ hi) : mean l ≤ hi := by
  have hpos : (0 : ℚ) < l.length := Nat.cast_pos.mpr (List.length_pos_iff.mpr hl)
  have hsum := List.sum_le_card_nsmul l hi h
  rw [nsmul_eq_mul] at hsum
  rw [mean, div_le_iff₀ hpos, mul_comm]
  exact hsum

theorem foldl_min_isLeast (first : ℚ) (rest : List ℚ) :
    IsLeast {x | x ∈ first::rest} (rest.foldl min first) := by
  have hmin : (first::rest).min? = some (rest.foldl min first) := rfl
  rw [List.min?_eq_some_iff] at hmin
  exact hmin

theorem foldl_max_isGreatest (first : ℚ) (rest : List ℚ) :
    IsGreatest {x | x ∈ first::rest} (rest.foldl max first) := by
  have hmax : (first::rest).max? = some (rest.foldl max first) := rfl
  rw [List.max?_eq_some_iff] at hmax
  exact hmax

end WireProbe.Statistics
