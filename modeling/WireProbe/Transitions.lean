import Mathlib.Tactic.Common

/-!
# Runs of a step function that may be disabled

A step is `none` where the action is not enabled in the state. A run exists if
every action was enabled in its turn. An invariant of the steps holds in every
state a run reaches.
-/

set_option autoImplicit false

namespace WireProbe.Transitions

variable {S A : Type*} (step : S → A → Option S)

def run : S → List A → Option S
  | s, [] => some s
  | s, a::as => (step s a).bind fun s' => run s' as

def Reachable (init s : S) : Prop := ∃ as, run step init as = some s

@[simp] theorem run_nil (s : S) : run step s [] = some s := rfl

@[simp] theorem run_cons (s : S) (a : A) (as : List A) :
    run step s (a::as) = (step s a).bind fun s' => run step s' as := rfl

theorem run_append (s : S) (as bs : List A) :
    run step s (as++bs) = (run step s as).bind fun s' => run step s' bs := by
  induction as generalizing s with
  | nil => rfl
  | cons a as ih => simp [ih, Option.bind_assoc]

variable {step}

theorem run_split {s t : S} {as bs : List A} (h : run step s (as++bs) = some t) :
    ∃ s', run step s as = some s' ∧ run step s' bs = some t := by
  rw [run_append] at h
  exact Option.bind_eq_some_iff.mp h

/-- Only the actions of the run have to keep the invariant. -/
theorem run_invariant {P : S → Prop} {as : List A}
    (hstep : ∀ s s', ∀ a ∈ as, P s → step s a = some s' → P s') {s t : S}
    (h : run step s as = some t) (hs : P s) : P t := by
  induction as generalizing s with
  | nil => exact Option.some.inj h ▸ hs
  | cons a as ih =>
    obtain ⟨s',hs',hrest⟩ := Option.bind_eq_some_iff.mp h
    exact ih (fun s s' b hb => hstep s s' b (List.mem_cons_of_mem a hb)) hrest
      (hstep s s' a List.mem_cons_self hs hs')

theorem Reachable.invariant {P : S → Prop} (hstep : ∀ s s' a, P s → step s a = some s' → P s')
    {init s : S} (h : Reachable step init s) (hinit : P init) : P s := by
  obtain ⟨as,hrun⟩ := h
  exact run_invariant (fun s s' a _ => hstep s s' a) hrun hinit

/-- What the actions of a run that count bring nearer, step by step, is done
before as many of them as the rank allows. -/
theorem run_progress {P Done : S → Prop} {rank : S → ℕ} {counted : A → Bool} {as : List A}
    (hstep : ∀ s s', ∀ a ∈ as, P s → step s a = some s' →
      Done s' ∨ P s' ∧ rank s'+(if counted a then 1 else 0) ≤ rank s)
    (hdone : ∀ s s', ∀ a ∈ as, Done s → step s a = some s' → Done s') {s t : S}
    (h : run step s as = some t) (hs : P s) :
    Done t ∨ P t ∧ rank t+as.countP counted ≤ rank s := by
  induction as generalizing s with
  | nil =>
    obtain rfl := Option.some.inj h
    exact .inr ⟨hs,Nat.le_refl _⟩
  | cons a as ih =>
    obtain ⟨s',hs',hrest⟩ := Option.bind_eq_some_iff.mp h
    rcases hstep s s' a List.mem_cons_self hs hs' with hs' | ⟨hP,hrank⟩
    · exact .inl (run_invariant (fun s s' b hb => hdone s s' b (List.mem_cons_of_mem a hb)) hrest hs')
    · refine (ih (fun s s' b hb => hstep s s' b (List.mem_cons_of_mem a hb))
        (fun s s' b hb => hdone s s' b (List.mem_cons_of_mem a hb)) hrest hP).imp_right ?_
      rintro ⟨ht,hle⟩
      rw [List.countP_cons]
      exact ⟨ht,by omega⟩

end WireProbe.Transitions
