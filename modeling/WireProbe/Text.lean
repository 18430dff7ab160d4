import Mathlib.Data.Char
import Mathlib.Data.List.Basic
import Mathlib.Data.List.TakeDrop
import Mathlib.Data.List.TakeWhile
import Mathlib.Tactic.Common

/-!
# Decimal numerals and fields ended by a separator

A field of characters of one kind is recovered from the text that follows it
as soon as that text starts with a character of another kind.
-/

set_option autoImplicit false

namespace WireProbe.Text

/-- The decimal numeral, without leading zeros. -/
def decimal (n : ℕ) : List Char := Nat.toDigits 10 n

theorem decimal_injective : Function.Injective decimal := by
  intro m n h
  rw [← Nat.ofDigitChars_ten_toDigits (n := m), ← Nat.ofDigitChars_ten_toDigits (n := n)]
  exact congrArg (Nat.ofDigitChars 10 · 0) h

theorem decimal_isDigit {n : ℕ} {c : Char} (h : c ∈ decimal n) : c.isDigit = true :=
  Nat.isDigit_of_mem_toDigits (by decide) (by decide) h

theorem decimal_ne_nil (n : ℕ) : decimal n ≠ [] := Nat.toDigits_ne_nil

/-- A field without `x` ends at the first `x`. -/
theorem span_field {a rest : List Char} {x : Char} (h : x ∉ a) :
    (a++x::rest).span (· != x) = (a,x::rest) := by
  have hfield : ∀ c ∈ a, (c != x) = true := fun c hc => bne_iff_ne.mpr fun heq => h (heq ▸ hc)
  rw [List.span_eq_takeWhile_dropWhile, List.takeWhile_append_of_pos hfield,
    List.dropWhile_append_of_pos hfield]
  simp

theorem span_whole {a : List Char} {x : Char} (h : x ∉ a) : a.span (· != x) = (a,[]) := by
  have hfield : ∀ c ∈ a, (c != x) = true := fun c hc => bne_iff_ne.mpr fun heq => h (heq ▸ hc)
  rw [List.span_eq_takeWhile_dropWhile, List.takeWhile_eq_self_iff.mpr hfield,
    List.dropWhile_eq_nil_iff.mpr hfield]

/-- Where a field ends is where its kind of character ends. -/
theorem field_unique {α : Type*} (P : α → Prop) {a b : List α} {x y : α} {rest rest' : List α}
    (ha : ∀ c ∈ a, P c) (hb : ∀ c ∈ b, P c) (hx : ¬ P x) (hy : ¬ P y)
    (h : a++x::rest = b++y::rest') : a = b ∧ x = y ∧ rest = rest' := by
  induction a generalizing b with
  | nil =>
    cases b with
    | nil => simpa using h
    | cons d b =>
      simp only [List.nil_append, List.cons_append, List.cons.injEq] at h
      exact absurd (hb d (by simp)) (h.1 ▸ hx)
  | cons c a ih =>
    cases b with
    | nil =>
      simp only [List.nil_append, List.cons_append, List.cons.injEq] at h
      exact absurd (ha c (by simp)) (h.1 ▸ hy)
    | cons d b =>
      simp only [List.cons_append, List.cons.injEq] at h
      obtain ⟨rfl,hrest⟩ := h
      have hfield := ih (fun c hc => ha c (by simp [hc])) (fun c hc => hb c (by simp [hc])) hrest
      exact ⟨congrArg _ hfield.1,hfield.2⟩

theorem decimal_field {m n : ℕ} {x y : Char} {rest rest' : List Char}
    (hx : x.isDigit = false) (hy : y.isDigit = false)
    (h : decimal m++x::rest = decimal n++y::rest') : m = n ∧ x = y ∧ rest = rest' := by
  have hfield := field_unique (fun c => c.isDigit = true) (fun c hc => decimal_isDigit hc)
    (fun c hc => decimal_isDigit hc) (by simp [hx]) (by simp [hy]) h
  exact ⟨decimal_injective hfield.1,hfield.2⟩

/-! ### Joined fields -/

/-- What holds of the separator and throughout each field holds throughout. -/
theorem forall_mem_intercalate {P : Char → Prop} {sep : Char} (hsep : P sep)
    {ls : List (List Char)} (h : ∀ l ∈ ls, ∀ c ∈ l, P c) : ∀ c ∈ [sep].intercalate ls, P c := by
  induction ls with
  | nil => exact fun c hc => absurd hc List.not_mem_nil
  | cons l ls ih =>
    obtain ⟨hl,hls⟩ := List.forall_mem_cons.mp h
    cases ls with
    | nil => simpa using hl
    | cons l' ls =>
      rw [List.intercalate_cons_cons, List.append_assoc]
      exact List.forall_mem_append.mpr ⟨hl,List.forall_mem_cons.mpr ⟨hsep,ih hls⟩⟩

theorem mem_intercalate {sep : Char} {ls : List (List Char)} {l : List Char} {c : Char}
    (hl : l ∈ ls) (hc : c ∈ l) : c ∈ [sep].intercalate ls := by
  induction ls with
  | nil => cases hl
  | cons l' ls ih =>
    cases ls with
    | nil =>
      obtain rfl := List.mem_singleton.mp hl
      simpa using hc
    | cons l'' ls =>
      rw [List.intercalate_cons_cons, List.mem_append, List.mem_append]
      rcases List.mem_cons.mp hl with rfl | hl
      · exact .inl (.inl hc)
      · exact .inr (ih hl)

end WireProbe.Text
