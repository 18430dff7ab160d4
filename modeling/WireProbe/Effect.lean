import Mathlib.Tactic.Common

/-!
# Programs with a state and exceptions

A program maps a state to an outcome and a state; what it did to the state
before it raised stays done. `wp` is the weakest precondition of a condition on
outcome and state, and its rules take a program apart at its binds.
-/

set_option autoImplicit false

namespace WireProbe.Effect

def Eff (W E α : Type) := W → Except E α × W

variable {W E α β : Type}

namespace Eff

def bind (m : Eff W E α) (f : α → Eff W E β) : Eff W E β := fun w =>
  match m w with
  | (.ok a,w') => f a w'
  | (.error e,w') => (.error e,w')

instance : Monad (Eff W E) where
  pure a := fun w => (.ok a,w)
  bind := bind

def modify (g : W → W) : Eff W E Unit := fun w => (.ok (),g w)

/-- Handlers for some exceptions; the others pass. -/
def catching (m : Eff W E α) (handler : E → Option α) : Eff W E α := fun w =>
  match m w with
  | (.ok a,w') => (.ok a,w')
  | (.error e,w') => ((handler e).elim (.error e) .ok,w')

/-- `try: m finally: cleanup`. -/
def ensuring (m : Eff W E α) (cleanup : W → W) : Eff W E α := fun w =>
  ((m w).1,cleanup (m w).2)

end Eff

/-- `Q` holds of the outcome and the state in which `m` leaves `w`. -/
def wp (m : Eff W E α) (Q : Except E α → W → Prop) (w : W) : Prop := Q (m w).1 (m w).2

variable {m : Eff W E α} {f : α → Eff W E β} {w : W}

/-- The rule of a bind: the continuation runs from the state `m` left, and an
exception of `m` is the outcome of the whole. -/
theorem wp_seq {P : Except E α → W → Prop} {Q : Except E β → W → Prop} (hm : wp m P w)
    (hok : ∀ a w', P (.ok a) w' → wp (f a) Q w')
    (herror : ∀ e w', P (.error e) w' → Q (.error e) w') : wp (m >>= f) Q w := by
  unfold wp at hm
  show Q (Eff.bind m f w).1 (Eff.bind m f w).2
  unfold Eff.bind
  split
  next a w' h =>
    rw [h] at hm
    exact hok a w' hm
  next e w' h =>
    rw [h] at hm
    exact herror e w' hm

/-- A bind after a call whose outcome is known. -/
theorem wp_step {a : α} {w' : W} (h : m w = (.ok a,w')) {Q : Except E β → W → Prop}
    (hf : wp (f a) Q w') : wp (m >>= f) Q w :=
  wp_seq (P := fun r v => r = .ok a ∧ v = w') (by rw [wp, h]; exact ⟨rfl,rfl⟩)
    (by rintro _ _ ⟨⟨⟩,rfl⟩; exact hf) (by rintro _ _ ⟨⟨⟩,-⟩)

theorem wp_pure (a : α) (Q : Except E α → W → Prop) :
    wp (pure a : Eff W E α) Q w ↔ Q (.ok a) w := Iff.rfl

theorem wp_mono {Q Q' : Except E α → W → Prop} (h : wp m Q w)
    (hQ : ∀ r w', Q r w' → Q' r w') : wp m Q' w := hQ _ _ h

theorem wp_and {P Q : Except E α → W → Prop} (hP : wp m P w) (hQ : wp m Q w) :
    wp m (fun r w' => P r w' ∧ Q r w') w := ⟨hP,hQ⟩

theorem wp_catching (handler : E → Option α) (Q : Except E α → W → Prop) :
    wp (m.catching handler) Q w ↔ wp m (fun r w' => match r with
      | .ok a => Q (.ok a) w'
      | .error e => Q ((handler e).elim (.error e) .ok) w') w := by
  unfold wp Eff.catching
  split
  next a w' h => rw [h]
  next e w' h => rw [h]

theorem wp_ensuring (cleanup : W → W) (Q : Except E α → W → Prop) :
    wp (m.ensuring cleanup) Q w ↔ wp m (fun r w' => Q r (cleanup w')) w := Iff.rfl

/-- A sequence returns what its continuation returns. -/
theorem seq_eq_ok_iff {b : β} :
    ((m >>= f) w).1 = .ok b ↔ ∃ a, (m w).1 = .ok a ∧ (f a (m w).2).1 = .ok b := by
  show (Eff.bind m f w).1 = .ok b ↔ _
  unfold Eff.bind
  cases m w with
  | mk r w' =>
    cases r with
    | ok a => simp
    | error e => simp

/-! ### Frames -/

section Frame
variable {γ : Type}

/-- Whatever its outcome, `m` leaves alone what `f` reads of the state. -/
def Frames (f : W → γ) (m : Eff W E α) : Prop := ∀ w, f (m w).2 = f w

theorem wp_frame {g : W → γ} (h : Frames g m) (w : W) : wp m (fun _ w' => g w' = g w) w := h w

theorem frames_pure (g : W → γ) (a : α) : Frames (E := E) g (pure a) := fun _ => rfl

theorem frames_bind {g : W → γ} (hm : Frames g m) (hf : ∀ a, Frames g (f a)) :
    Frames g (m >>= f) := by
  intro w
  apply wp_seq (Q := fun _ w' => g w' = g w) (wp_frame hm w)
  · intro a w' h
    exact (hf a w').trans h
  · intro e w' h
    exact h

theorem frames_catching {g : W → γ} (handler : E → Option α) (hm : Frames g m) :
    Frames g (m.catching handler) := by
  intro w
  refine (wp_catching handler fun _ w' => g w' = g w).mpr ?_
  apply wp_mono (wp_frame hm w)
  intro r w' h
  cases r <;> exact h

end Frame

/-! ### Exceptions -/

section Exceptions

/-- What `m` raises satisfies `P`. -/
def RaisesOnly (P : E → Prop) (m : Eff W E α) : Prop := ∀ w e, (m w).1 = .error e → P e

variable {P P' : E → Prop}

theorem raisesOnly_pure (a : α) : RaisesOnly (W := W) P (pure a) := by
  rintro w e ⟨⟩

theorem raisesOnly_bind (hm : RaisesOnly P m) (hf : ∀ a, RaisesOnly P (f a)) :
    RaisesOnly P (m >>= f) := by
  intro w
  have h : wp (m >>= f) (fun r _ => ∀ e, r = .error e → P e) w := by
    apply wp_seq (P := fun r _ => ∀ e, r = .error e → P e) (hm w)
    · intro a w' _
      exact hf a w'
    · rintro e w' hraised x ⟨⟩
      exact hraised e rfl
  exact h

/-- A handler leaves the exceptions it does not name. -/
theorem raisesOnly_catching {handler : E → Option α} (hm : RaisesOnly P m)
    (hhandler : ∀ e, P e → handler e = none → P' e) : RaisesOnly P' (m.catching handler) := by
  intro w
  have h : wp (m.catching handler) (fun r _ => ∀ e, r = .error e → P' e) w := by
    rw [wp_catching]
    apply wp_mono (Q := fun r _ => ∀ e, r = .error e → P e) (hm w)
    intro r w' hr
    cases r with
    | ok a =>
      rintro e ⟨⟩
    | error x =>
      intro e he
      cases hx : handler x with
      | none =>
        rw [hx] at he
        exact Except.error.inj he ▸ hhandler x (hr x rfl) hx
      | some a =>
        rw [hx] at he
        cases he
  exact h

theorem raisesOnly_ensuring {cleanup : W → W} (hm : RaisesOnly P m) :
    RaisesOnly P (m.ensuring cleanup) := fun w => hm w

end Exceptions

/-! ### Programs under a map of the state -/

section Simulation
variable {W' : Type} {g : W' → W} {m' : Eff W' E α} {f' : α → Eff W' E β}

/-- Seen through `g`, the program `m'` is `m`. -/
def Simulates (g : W' → W) (m' : Eff W' E α) (m : Eff W E α) : Prop :=
  ∀ w, m (g w) = ((m' w).1,g (m' w).2)

theorem simulates_pure (a : α) : Simulates (E := E) g (pure a) (pure a) := fun _ => rfl

theorem simulates_bind (hm : Simulates g m' m) (hf : ∀ a, Simulates g (f' a) (f a)) :
    Simulates g (m' >>= f') (m >>= f) := by
  intro w
  show Eff.bind m f (g w) = ((Eff.bind m' f' w).1,g (Eff.bind m' f' w).2)
  unfold Eff.bind
  rw [hm w]
  cases m' w with
  | mk r w' =>
    cases r with
    | ok a => exact hf a w'
    | error e => rfl

theorem simulates_catching (handler : E → Option α) (hm : Simulates g m' m) :
    Simulates g (m'.catching handler) (m.catching handler) := by
  intro w
  unfold Eff.catching
  rw [hm w]
  cases m' w with
  | mk r w' => cases r <;> rfl

theorem simulates_ensuring {cleanup' : W' → W'} {cleanup : W → W}
    (hcleanup : ∀ w, cleanup (g w) = g (cleanup' w)) (hm : Simulates g m' m) :
    Simulates g (m'.ensuring cleanup') (m.ensuring cleanup) := by
  intro w
  unfold Eff.ensuring
  rw [hm w, hcleanup]

end Simulation

end WireProbe.Effect
