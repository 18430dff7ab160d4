import Mathlib.Algebra.Order.Ring.Rat
import Mathlib.Tactic.Common

/-!
# Floats as rationals, two infinities and NaN

Arithmetic is exact on the finite values. Every ordered comparison with NaN is
false, so a range check written as a rejection lets NaN pass.
-/

set_option autoImplicit false

namespace WireProbe.Floats

inductive FloatVal where
  | fin (q : ℚ)
  | posInf
  | negInf
  | nan
  deriving DecidableEq, Repr

namespace FloatVal

def lt : FloatVal → FloatVal → Bool
  | fin a, fin b => a < b
  | fin _, posInf => true
  | negInf, fin _ => true
  | negInf, posInf => true
  | _, _ => false

def le : FloatVal → FloatVal → Bool
  | fin a, fin b => a ≤ b
  | fin _, posInf => true
  | negInf, fin _ => true
  | negInf, posInf => true
  | posInf, posInf => true
  | negInf, negInf => true
  | _, _ => false

instance : LT FloatVal := ⟨fun a b => lt a b = true⟩
instance : LE FloatVal := ⟨fun a b => le a b = true⟩

instance (a b : FloatVal) : Decidable (a < b) := inferInstanceAs (Decidable (lt a b = true))
instance (a b : FloatVal) : Decidable (a ≤ b) := inferInstanceAs (Decidable (le a b = true))

def neg : FloatVal → FloatVal
  | fin a => fin (-a)
  | posInf => negInf
  | negInf => posInf
  | nan => nan

def add : FloatVal → FloatVal → FloatVal
  | fin a, fin b => fin (a+b)
  | fin _, posInf => posInf
  | fin _, negInf => negInf
  | posInf, fin _ => posInf
  | negInf, fin _ => negInf
  | posInf, posInf => posInf
  | negInf, negInf => negInf
  | _, _ => nan

def sub (a b : FloatVal) : FloatVal := add a (neg b)

/-- Multiplication by a positive constant. -/
def scale (c : ℚ) : FloatVal → FloatVal
  | fin a => fin (c*a)
  | posInf => posInf
  | negInf => negInf
  | nan => nan

/-- `min(a, b)`: the first argument, unless the second one is smaller. -/
def min (a b : FloatVal) : FloatVal := if b < a then b else a

@[simp] theorem fin_lt_fin (a b : ℚ) : fin a < fin b ↔ a < b := decide_eq_true_iff
@[simp] theorem fin_le_fin (a b : ℚ) : fin a ≤ fin b ↔ a ≤ b := decide_eq_true_iff
@[simp] theorem nan_lt (a : FloatVal) : ¬nan < a := Bool.false_ne_true
@[simp] theorem lt_nan (a : FloatVal) : ¬a < nan := by cases a <;> exact Bool.false_ne_true
@[simp] theorem posInf_lt (a : FloatVal) : ¬posInf < a := by cases a <;> exact Bool.false_ne_true
@[simp] theorem lt_negInf (a : FloatVal) : ¬a < negInf := by cases a <;> exact Bool.false_ne_true
@[simp] theorem fin_lt_posInf (a : ℚ) : fin a < posInf := rfl
@[simp] theorem posInf_le_fin (a : ℚ) : ¬posInf ≤ fin a := Bool.false_ne_true
@[simp] theorem negInf_le_fin (a : ℚ) : negInf ≤ fin a := rfl

theorem lt_of_lt_of_le {a b : FloatVal} {q : ℚ} (h : a < b) (hq : b ≤ fin q) : a ≤ fin q := by
  cases a with
  | fin p =>
    cases b with
    | fin r =>
      rw [fin_lt_fin] at h
      rw [fin_le_fin] at hq ⊢
      exact (h.trans_le hq).le
    | posInf => exact absurd hq (posInf_le_fin q)
    | negInf => exact absurd h (lt_negInf _)
    | nan => exact absurd h (lt_nan _)
  | posInf => exact absurd h (posInf_lt _)
  | negInf => exact negInf_le_fin q
  | nan => exact absurd h (nan_lt _)

theorem pos_of_not_le {a b : FloatVal} (ha : ¬a ≤ fin 0) (h : a < b) : fin 0 < a := by
  cases a with
  | fin q => simpa using ha
  | posInf => exact absurd h (posInf_lt _)
  | negInf => exact absurd (negInf_le_fin 0) ha
  | nan => exact absurd h (nan_lt _)

/-- A range check written as a rejection. -/
theorem not_rejected {a : FloatVal} {lo hi : ℚ} (h : ¬(a ≤ fin lo ∨ fin hi < a)) :
    a = nan ∨ fin lo < a ∧ a ≤ fin hi := by
  rw [not_or] at h
  cases a with
  | fin q =>
    simp only [fin_le_fin, fin_lt_fin, not_le, not_lt] at h
    exact .inr ⟨(fin_lt_fin lo q).mpr h.1,(fin_le_fin q hi).mpr h.2⟩
  | posInf => exact absurd (fin_lt_posInf hi) h.2
  | negInf => exact absurd (negInf_le_fin lo) h.1
  | nan => exact .inl rfl

/-- `min` keeps a positive bound, also against an infinite or a NaN second
argument. -/
theorem min_window {a r : FloatVal} {q : ℚ} (hpos : fin 0 < a) (hle : a ≤ fin q)
    (hr : ¬r ≤ fin 0) : fin 0 < min a r ∧ min a r ≤ fin q := by
  unfold min
  split_ifs with h
  · exact ⟨pos_of_not_le hr h,lt_of_lt_of_le h hle⟩
  · exact ⟨hpos,hle⟩

theorem min_nan (r : FloatVal) : min nan r = nan := by
  simp [min]

end FloatVal

end WireProbe.Floats
