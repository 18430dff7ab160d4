import WireProbe.ProbeReporting

/-!
# When the probe loop rotates, and where to

The countdown stands in for a modulo of the number of failures in a row: the
target is resolved again in every fifth of them. The rotation that follows
leaves the address in use exactly where the resolver answers with an address.
-/

set_option autoImplicit false

namespace WireProbe.ProbeRotation
open WireProbe.CyclicOrder WireProbe.Transducer WireProbe.AddressRotation WireProbe.Collectd
open WireProbe.ProbeLoop WireProbe.ProbeReporting

variable {α E R : Type*}

/-! ### The failures in a row -/

/-- How many of the last elements, in a row, satisfy `p`. -/
def trailing {I : Type*} (p : I → Bool) (is : List I) : ℕ := (is.reverse.takeWhile p).length

@[simp] theorem trailing_nil {I : Type*} (p : I → Bool) : trailing p [] = 0 := rfl

theorem trailing_concat {I : Type*} (p : I → Bool) (is : List I) (i : I) :
    trailing p (is++[i]) = if p i then trailing p is+1 else 0 := by
  simp only [trailing, List.reverse_append, List.reverse_singleton, List.singleton_append,
    List.takeWhile_cons]
  split_ifs <;> rfl

def failed (t : Tick α E R) : Bool :=
  match t.measured with
  | .ok _ => false
  | .error _ => true

variable [LinearOrder α]

theorem advance_left (p : Progress α) (t : Tick α E R) : (advance p t).left =
    if failed t = true ∧ p.left-1 ≠ 0 then p.left-1 else reresolveAfterFailures := by
  unfold advance failed
  cases t.measured with
  | ok rttMs => simp
  | error e => by_cases hleft : p.left-1 = 0 <;> simp [hleft]

theorem recovery_reresolves (p : Progress α) (t : Tick α E R) :
    .reresolve ∈ recovery p t ↔ failed t = true ∧ p.left-1 = 0 := by
  unfold recovery failed
  cases t.measured with
  | ok rttMs => simp
  | error e => by_cases hleft : p.left-1 = 0 <;> simp [hleft]

/-- The countdown is five less the number of failures in a row modulo five. -/
theorem countdown_final (p : Progress α) (hp : p.left = reresolveAfterFailures)
    (ts : List (Tick α E R)) : (final rotationStep p ts).left =
      reresolveAfterFailures-trailing failed ts % reresolveAfterFailures := by
  induction ts using List.reverseRecOn with
  | nil => exact hp
  | append_singleton ts t ih =>
    have hstep : final rotationStep p (ts++[t]) = advance (final rotationStep p ts) t :=
      final_append _ p ts [t]
    rw [hstep, advance_left, ih, trailing_concat]
    simp only [reresolveAfterFailures]
    by_cases hfailed : failed t = true
    · simp only [hfailed, true_and, if_true]
      split_ifs <;> omega
    · simp [hfailed]

/-! ### What a rotation does -/

/-- The addresses a resolver answers with; an error names none. -/
def answered (answer : Except E (List α)) : List α := answer.toOption.getD []

theorem rotateTarget_refines (r : Choice α) (answer : Except E (List α)) :
    (rotateTarget r.selection answer).1 = (r.resolve (answered answer)).selection := by
  match answer with
  | .error e => rfl
  | .ok [] => rfl
  | .ok (addr::addrs) =>
    have hrefines := applyResolution_refines r (addr::addrs)
    exact congrArg Prod.fst hrefines

/-- The address in use is kept where the answers name no other. -/
theorem resolve_moves_iff (r : Choice α) (fresh : List α) :
    (r.resolve fresh).selected ≠ r.selected ↔ fresh ≠ [] ∧ fresh.toFinset ≠ {r.selected} := by
  by_cases hne : fresh = []
  · subst hne
    simp [Choice.resolve]
  · simp only [hne, ne_eq, not_false_eq_true, true_and]
    by_cases hmem : r.selected ∈ fresh
    · rw [resolve_present r fresh hmem]
      have hselected : r.selected ∈ fresh.toFinset := List.mem_toFinset.mpr hmem
      constructor
      · intro hmoved hsingle
        rw [hsingle] at hmoved
        exact hmoved (next_singleton _ _)
      · intro hmany
        apply next_ne hselected
        have hnontrivial : fresh.toFinset.Nontrivial :=
          (Finset.nontrivial_iff_ne_singleton hselected).mpr hmany
        exact Finset.one_lt_card_iff_nontrivial.mpr hnontrivial
    · rw [resolve_vanished r fresh hne hmem]
      constructor
      · intro _ hsingle
        apply hmem
        rw [← List.mem_toFinset, hsingle]
        exact Finset.mem_singleton_self _
      · intro _ hhead
        exact hmem (hhead ▸ List.head_mem hne)

theorem advance_choice (p : Progress α) (t : Tick α E R) (r : Choice α)
    (hp : p.selection = r.selection) : (advance p t).selection =
      (if failed t = true ∧ p.left-1 = 0 then r.resolve (answered t.answer) else r).selection := by
  unfold advance failed
  cases t.measured with
  | ok rttMs => simp [hp]
  | error e => by_cases hleft : p.left-1 = 0 <;> simp [hleft, hp, rotateTarget_refines]

section Runs
variable (ryu : R → Bytes) (dst : ExportDst) (interval : ℕ)

/-- In every run the target is resolved again in the turns that complete a
multiple of five failures in a row, and at the head of every turn the countdown
is positive and tells what is left of the current five. -/
theorem countdown_is_modulo (l : Loop α) (hl : Launched l) (ts : List (Tick α E R)) (k : ℕ)
    (hk : k < ts.length) (hrun : (before ryu dst interval l ts k).ended = false) :
    let s := before ryu dst interval l ts k
    (.reresolve ∈ (step ryu dst interval s ts[k]).2 ↔ failed ts[k] = true ∧
      0 < trailing failed (ts.take (k+1)) ∧
      reresolveAfterFailures ∣ trailing failed (ts.take (k+1))) ∧
    1 ≤ s.failuresUntilReresolve ∧ s.failuresUntilReresolve ≤ reresolveAfterFailures ∧
    s.failuresUntilReresolve =
      reresolveAfterFailures-trailing failed (ts.take k) % reresolveAfterFailures := by
  intro s
  have hleft : s.failuresUntilReresolve =
      reresolveAfterFailures-trailing failed (ts.take k) % reresolveAfterFailures := by
    have hprogress := before_progress ryu dst interval l ts k hrun
    rw [← countdown_final l.progress (launched_selection hl).2.1, ← hprogress]
    rfl
  have hmod := Nat.mod_lt (trailing failed (ts.take k)) (show 0 < reresolveAfterFailures by decide)
  refine ⟨?_,by omega,by omega,hleft⟩
  rw [turn_reresolve (step_turn ryu dst interval s ts[k] hrun), recovery_reresolves,
    List.take_succ_eq_append_getElem hk, trailing_concat,
    show s.progress.left = s.failuresUntilReresolve from rfl, hleft]
  apply and_congr_right
  intro hfailed
  simp only [hfailed, if_true, reresolveAfterFailures] at hmod ⊢
  omega

theorem countdown_is_modulo_fifth :
    .reresolve ∈ (step (fun _ : ℕ => []) .collectdExec 10
      (before (fun _ : ℕ => []) .collectdExec 10 launched
        (List.replicate 5 (refused (.error ()) (.ok ()))) 4) (refused (.error ()) (.ok ()))).2 :=
  (countdown_is_modulo (fun _ : ℕ => []) .collectdExec 10 launched launched_launched
    (List.replicate 5 (refused (.error ()) (.ok ()))) 4 (by decide) (by decide)).1.mpr
    (by decide)

/-! ### Where a rotation leads -/

/-- A loop that some run of `run_probe` reaches. -/
def Reached (l : Loop α) : Prop :=
  Transducer.Reachable (step (α := α) (E := E) ryu dst interval) Launched l

theorem reached_choice {l : Loop α} (h : Reached (E := E) ryu dst interval l) :
    ∃ r : Choice α, l.selection = r.selection := by
  refine Transducer.reachable_invariant (P := fun l : Loop α => ∃ r : Choice α,
    l.selection = r.selection) (fun l hl => (launched_selection hl).1) ?_ h
  rintro l t ⟨r,hr⟩
  cases hl : l.ended with
  | true => exact ⟨r,by rw [step_ended ryu dst interval t hl, hr]⟩
  | false =>
    have hprogress := (step_turn ryu dst interval l t hl).progress
    have hchoice := advance_choice l.progress t r hr
    rw [← hprogress] at hchoice
    exact ⟨_,hchoice⟩

/-- The turn that resolves the target again takes the loop off the address that
has failed, or finds it to be the only one left, exactly where the resolver
names an address at all. -/
theorem leaves_failing_iff (l : Loop α) (hl : Reached (E := E) ryu dst interval l)
    (t : Tick α E R) (hturn : .reresolve ∈ (step ryu dst interval l t).2) :
    ((step ryu dst interval l t).1.selection.current ≠ l.selection.current ∨
      ∃ fresh, t.answer = .ok fresh ∧ fresh.toFinset = {l.selection.current}) ↔
    ∃ fresh, t.answer = .ok fresh ∧ fresh ≠ [] := by
  obtain ⟨r,hr⟩ := reached_choice ryu dst interval hl
  have hrun : l.ended = false := by
    by_contra hended
    rw [step_ended ryu dst interval t (by simpa using hended)] at hturn
    cases hturn
  have hspec := step_turn ryu dst interval l t hrun
  have hadvance := advance_choice l.progress t r hr
  rw [if_pos ((recovery_reresolves _ _).mp ((turn_reresolve hspec).mp hturn)),
    ← hspec.progress] at hadvance
  have hcurrent : (step ryu dst interval l t).1.selection.current =
      (r.resolve (answered t.answer)).selected := congrArg Selection.current hadvance
  rw [hcurrent, hr, selection_current, resolve_moves_iff]
  cases t.answer with
  | error e => simp [answered, Except.toOption]
  | ok fresh =>
    simp only [answered, Except.toOption, Option.getD_some, Except.ok.injEq, exists_eq_left']
    constructor
    · rintro (⟨hne,-⟩ | hsingle)
      · exact hne
      · rintro rfl
        simp at hsingle
    · intro hne
      by_cases hsingle : fresh.toFinset = {r.selected}
      · exact Or.inr hsingle
      · exact Or.inl ⟨hne,hsingle⟩

/-- Four failures after startup. -/
def failing : Loop SocketAddr :=
  final (step (fun _ : ℕ => []) .collectdExec 10) launched
    (List.replicate 4 (refused (.error ()) (.ok ())))

theorem failing_reached : Reached (E := Unit) (fun _ : ℕ => []) .collectdExec 10 failing :=
  ⟨launched,_,launched_launched,rfl⟩

theorem leaves_failing_endpoint :
    (step (fun _ : ℕ => []) .collectdExec 10 failing
      (refused (.ok [endpoint 1,endpoint 2]) (.ok ()))).1.selection.current ≠ endpoint 1 :=
  ((leaves_failing_iff (fun _ : ℕ => []) .collectdExec 10 failing failing_reached
    (refused (.ok [endpoint 1,endpoint 2]) (.ok ())) (by decide)).mpr
    ⟨_,rfl,by simp⟩).resolve_right (by rintro ⟨fresh,⟨⟩,h⟩; exact absurd h (by decide))

/-- A resolver that is down together with the address pins the probe to it. -/
theorem failed_resolution_pins :
    ¬ ∀ l : Loop SocketAddr, Reached (E := Unit) (fun _ : ℕ => []) .collectdExec 10 l →
      2 ≤ l.selection.addrs.length → ∀ t : Tick SocketAddr Unit ℕ,
      .reresolve ∈ (step (fun _ : ℕ => []) .collectdExec 10 l t).2 →
      (step (fun _ : ℕ => []) .collectdExec 10 l t).1.selection.current ≠ l.selection.current ∨
        ∃ fresh, t.answer = .ok fresh ∧ fresh.toFinset = {l.selection.current} := by
  intro h
  rcases h failing failing_reached (by decide) (refused (.error ()) (.ok ())) (by decide) with
    hmoved | ⟨fresh,⟨⟩,-⟩
  exact absurd hmoved (by decide)

end Runs

end WireProbe.ProbeRotation
