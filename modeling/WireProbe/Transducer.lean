import Mathlib.Data.List.Basic
import Mathlib.Tactic.Common

/-!
# Runs of a step function with outputs

A step reads one input, moves the state and emits one output. Everything a
program does call after call is a run of such a step over the finite list of
its inputs. Nothing here depends on what the states and inputs are.
-/

set_option autoImplicit false

namespace WireProbe.Transducer

variable {S I O : Type*} (step : S → I → S × O)

def final : S → List I → S
  | s, [] => s
  | s, i::is => final (step s i).1 is

def outputs : S → List I → List O
  | _, [] => []
  | s, i::is => (step s i).2 :: outputs (step s i).1 is

/-- The states entered by the successive inputs, the initial one left out. -/
def states : S → List I → List S
  | _, [] => []
  | s, i::is => (step s i).1 :: states (step s i).1 is

def Reachable (init : S → Prop) (s : S) : Prop :=
  ∃ s₀ is, init s₀ ∧ final step s₀ is = s

@[simp] theorem final_nil (s : S) : final step s [] = s := rfl

@[simp] theorem final_cons (s : S) (i : I) (is : List I) :
    final step s (i::is) = final step (step s i).1 is := rfl

@[simp] theorem outputs_nil (s : S) : outputs step s [] = [] := rfl

@[simp] theorem outputs_cons (s : S) (i : I) (is : List I) :
    outputs step s (i::is) = (step s i).2 :: outputs step (step s i).1 is := rfl

@[simp] theorem states_nil (s : S) : states step s [] = [] := rfl

@[simp] theorem states_cons (s : S) (i : I) (is : List I) :
    states step s (i::is) = (step s i).1 :: states step (step s i).1 is := rfl

theorem final_append (s : S) (is js : List I) :
    final step s (is++js) = final step (final step s is) js := by
  induction is generalizing s with
  | nil => rfl
  | cons i is ih => exact ih _

theorem final_take_succ (s : S) (is : List I) (k : ℕ) (hk : k < is.length) :
    final step s (is.take (k+1)) = (step (final step s (is.take k)) is[k]).1 := by
  rw [List.take_succ_eq_append_getElem hk, final_append]
  rfl

variable {step}

theorem final_invariant {P : S → Prop} (is : List I)
    (hstep : ∀ s, ∀ i ∈ is, P s → P (step s i).1) (s : S) (h : P s) : P (final step s is) := by
  induction is generalizing s with
  | nil => exact h
  | cons i is ih =>
    exact ih (fun s j hj => hstep s j (by simp [hj])) _ (hstep s i (by simp) h)

/-- Inputs that the states cannot tell apart lead to the same state. -/
theorem final_congr {J : Type*} (f : I → J)
    (hstep : ∀ s i j, f i = f j → (step s i).1 = (step s j).1) (s : S) (is js : List I)
    (h : is.map f = js.map f) : final step s is = final step s js := by
  induction is generalizing s js with
  | nil =>
    cases js with
    | nil => rfl
    | cons j js => simp at h
  | cons i is ih =>
    cases js with
    | nil => simp at h
    | cons j js =>
      simp only [List.map_cons, List.cons.injEq] at h
      rw [final_cons, final_cons, hstep s i j h.1]
      exact ih _ js h.2

/-- A property of the steps of a run, each at the state it is taken from. -/
def Along (step : S → I → S × O) (P : S → I → Prop) : S → List I → Prop
  | _, [] => True
  | s, i::is => P s i ∧ Along step P (step s i).1 is

instance alongDecidable {P : S → I → Prop} [∀ s i, Decidable (P s i)] :
    ∀ (s : S) (is : List I), Decidable (Along step P s is)
  | _, [] => isTrue trivial
  | s, i::is => @instDecidableAnd _ _ _ (alongDecidable (step s i).1 is)

/-- What the steps of a run are charged. -/
def charged (step : S → I → S × O) (charge : S → I → ℕ) : S → List I → ℕ
  | _, [] => 0
  | s, i::is => charge s i+charged step charge (step s i).1 is

theorem along_drop {P : S → I → Prop} (s : S) (is : List I) (k : ℕ) (h : Along step P s is) :
    Along step P (final step s (is.take k)) (is.drop k) := by
  induction is generalizing s k with
  | nil => simpa using h
  | cons i is ih =>
    cases k with
    | zero => exact h
    | succ k => exact ih _ k h.2

theorem final_along {P : S → I → Prop} {Q : S → Prop}
    (hstep : ∀ s i, Q s → P s i → Q (step s i).1) {s : S} {is : List I}
    (h : Along step P s is) (hs : Q s) : Q (final step s is) := by
  induction is generalizing s with
  | nil => exact hs
  | cons i is ih => exact ih h.2 (hstep s i hs h.1)

/-- The potential method: where each step is paid for by what it takes off a
potential and by its grant, the run is paid for by the potential it starts from
and by all its grants. -/
theorem charged_le {P : S → I → Prop} {Q : S → Prop} (pot : S → ℕ) {charge grant : S → I → ℕ}
    (hstep : ∀ s i, Q s → P s i → Q (step s i).1 ∧
      charge s i+pot (step s i).1 ≤ pot s+grant s i) {s : S} {is : List I}
    (h : Along step P s is) (hs : Q s) :
    charged step charge s is+pot (final step s is) ≤ pot s+charged step grant s is := by
  induction is generalizing s with
  | nil => simp [charged]
  | cons i is ih =>
    obtain ⟨hs',hpaid⟩ := hstep s i hs h.1
    have hrest := ih h.2 hs'
    simp only [charged, final_cons]
    omega

theorem charged_add (charge charge' : S → I → ℕ) (s : S) (is : List I) :
    charged step (fun s i => charge s i+charge' s i) s is =
      charged step charge s is+charged step charge' s is := by
  induction is generalizing s with
  | nil => rfl
  | cons i is ih =>
    simp only [charged, ih]
    omega

theorem charged_mul (charge : S → I → ℕ) (c : ℕ) (s : S) (is : List I) :
    charged step (fun s i => charge s i*c) s is = charged step charge s is*c := by
  induction is generalizing s with
  | nil => exact (Nat.zero_mul c).symm
  | cons i is ih => rw [charged, charged, ih, Nat.add_mul]

/-- A count of what the steps emit is charged step by step. -/
theorem charged_flatten {A : Type*} {step : S → I → S × List A} {count : List A → ℕ}
    (hnil : count [] = 0) (happend : ∀ as bs, count (as++bs) = count as+count bs) (s : S)
    (is : List I) : count (outputs step s is).flatten =
      charged step (fun s i => count (step s i).2) s is := by
  induction is generalizing s with
  | nil => exact hnil
  | cons i is ih => rw [outputs_cons, List.flatten_cons, happend, charged, ih]

/-- Two steps that keep a relation under the inputs `f j` and `g j` keep it over
a run. -/
theorem final_related {S' I' O' J : Type*} {step' : S' → I' → S' × O'} {R : S → S' → Prop}
    (f : J → I) (g : J → I') (js : List J)
    (hstep : ∀ s s', ∀ j ∈ js, R s s' → R (step s (f j)).1 (step' s' (g j)).1) (s : S) (s' : S')
    (h : R s s') : R (final step s (js.map f)) (final step' s' (js.map g)) := by
  induction js generalizing s s' with
  | nil => exact h
  | cons j js ih =>
    exact ih (fun s s' i hi => hstep s s' i (by simp [hi])) _ _ (hstep s s' j (by simp) h)

theorem reachable_invariant {P init : S → Prop} (hinit : ∀ s, init s → P s)
    (hstep : ∀ s i, P s → P (step s i).1) {s : S} (h : Reachable step init s) : P s := by
  obtain ⟨s₀,is,h₀,rfl⟩ := h
  exact final_invariant is (fun s i _ => hstep s i) s₀ (hinit s₀ h₀)

end WireProbe.Transducer
