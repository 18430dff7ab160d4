import Mathlib.Tactic.Ring
import WireProbe.ProbeRotation
import WireProbe.RotationProgress

/-!
# How long a probe reports an outage

A network answers each handshake by the address it is sent to. While one
address of the target answers and stays in what the resolver returns, the
rotations that the failures of the others bring about lead to it, and the probe
then stays with it.
-/

set_option autoImplicit false

namespace WireProbe.Outage
open WireProbe.CyclicOrder WireProbe.Transducer WireProbe.AddressRotation
open WireProbe.RotationProgress WireProbe.ProbeLoop WireProbe.ProbeReporting
open WireProbe.ProbeRotation

variable {α E R : Type*}

/-! ### Counting what a cycle does -/

def reresolutions (actions : List (Action α E R)) : ℕ :=
  actions.countP fun
    | .reresolve => true
    | _ => false

def failureReports (actions : List (Action α E R)) : ℕ :=
  (exports actions).countP fun
    | (.sendFailure _,_) => true
    | _ => false

def successReports (actions : List (Action α E R)) : ℕ :=
  (exports actions).countP fun
    | (.send _ _,_) => true
    | _ => false

@[simp] theorem reresolutions_append (as bs : List (Action α E R)) :
    reresolutions (as++bs) = reresolutions as+reresolutions bs := List.countP_append

theorem failureReports_append (as bs : List (Action α E R)) :
    failureReports (as++bs) = failureReports as+failureReports bs := by
  rw [failureReports, exports_append, List.countP_append]
  rfl

@[simp] theorem reresolutions_connect (addr : α) (as : List (Action α E R)) :
    reresolutions (.connect addr::as) = reresolutions as := rfl

@[simp] theorem reresolutions_exported (r : Report R) (sent : Except Collectd.ErrorKind Unit)
    (as : List (Action α E R)) : reresolutions (.exported r sent::as) = reresolutions as := rfl

theorem reresolutions_closing {actions : List (Action α E R)} (h : ∀ a ∈ actions, a.Closing) :
    reresolutions actions = 0 := by
  rw [reresolutions, List.countP_eq_zero]
  intro a ha
  cases a with
  | reresolve => exact (h _ ha).elim
  | _ => simp

variable [LinearOrder α]

theorem reresolutions_recovery (p : Progress α) (t : Tick α E R) :
    reresolutions (recovery p t) = if failed t = true ∧ p.left-1 = 0 then 1 else 0 := by
  unfold recovery failed
  cases t.measured with
  | ok rttMs => rfl
  | error e =>
    by_cases hleft : p.left-1 = 0
    · simp [hleft, reresolutions, List.countP_map, Function.comp_def]
    · simp [hleft, reresolutions]

/-- A turn rotates, or leaves the selection as it is. -/
theorem advance_eq (p : Progress α) (t : Tick α E R) : advance p t =
    if failed t = true ∧ p.left-1 = 0 then
      ⟨(rotateTarget p.selection t.answer).1,reresolveAfterFailures⟩
    else ⟨p.selection,if failed t = true then p.left-1 else reresolveAfterFailures⟩ := by
  unfold advance failed
  cases t.measured with
  | ok rttMs => simp
  | error e => simp

section Turn
variable {ryu : R → Collectd.Bytes} {dst : ExportDst} {l l' : Loop α} {t : Tick α E R}
  {actions : List (Action α E R)}

theorem turn_reresolutions (h : Turn ryu dst l t l' actions) : reresolutions actions =
    if failed t = true ∧ l.failuresUntilReresolve-1 = 0 then 1 else 0 := by
  obtain ⟨rest,rfl,hclosing,-⟩ := h.actions
  simp [reresolutions_recovery, reresolutions_closing hclosing, Loop.progress]

theorem turn_failureReports (h : Turn ryu dst l t l' actions) :
    failureReports actions = if failed t = true then 1 else 0 := by
  rw [failureReports, turn_exports h]
  unfold reported failed
  cases t.measured <;> rfl

theorem turn_successReports (h : Turn ryu dst l t l' actions) :
    successReports actions = if failed t = true then 0 else 1 := by
  rw [successReports, turn_exports h]
  unfold reported failed
  cases t.measured <;> rfl

end Turn

/-! ### Towards the address that answers -/

/-- The resolver names no address, or only ones of `U`, with `b` among them. -/
def Held (U : Finset α) (b : α) (answer : Except E (List α)) : Prop :=
  answered answer = [] ∨ b ∈ answered answer ∧ ∀ a ∈ answered answer, a ∈ U

theorem held_iff (U : Finset α) (b : α) (answer : Except E (List α)) :
    ((answered answer).isEmpty = true ∨ (answered answer).contains b = true ∧
      (answered answer).all (fun a => decide (a ∈ U)) = true) ↔ Held U b answer := by
  simp [Held]

instance (U : Finset α) (b : α) (answer : Except E (List α)) : Decidable (Held U b answer) :=
  decidable_of_iff _ (held_iff U b answer)

/-- A rotation away from another address gets closer, unless the answer lacks
that address; then it may land anywhere. -/
theorem rotate_distance {U : Finset α} {b : α} (hb : b ∈ U) (s : Selection α)
    (answer : Except E (List α)) (hheld : Held U b answer) (hne : s.current ≠ b) :
    1+distance U b (rotateTarget s answer).1.current ≤
      distance U b s.current+(if (answered answer).contains s.current then 0 else U.card) := by
  have hpos := distance_pos hb hne
  have hcard := distance_le_card U b s.current
  match answer, hheld with
  | .error e, _ =>
    show 1+distance U b s.current ≤ _
    rw [if_neg (by simp [answered, Except.toOption])]
    omega
  | .ok [], _ =>
    show 1+distance U b s.current ≤ _
    rw [if_neg (by simp [answered, Except.toOption])]
    omega
  | .ok (addr::addrs), hheld =>
    obtain ⟨hmem,hsub⟩ := hheld.resolve_left (by simp [answered, Except.toOption])
    show 1+distance U b (applyResolution s (addr::addrs)).1.current ≤
      distance U b s.current+(if (addr::addrs).contains s.current then 0 else U.card)
    by_cases hpresent : s.current ∈ addr::addrs
    · have hcloser := distance_next (U := U) (T := (addr::addrs).toFinset)
        (fun a ha => hsub a (List.mem_toFinset.mp ha)) (List.mem_toFinset.mpr hmem) hne
      rw [if_pos (List.contains_iff_mem.mpr hpresent), rotate_present s _ hpresent]
      exact hcloser
    · have hlanded := distance_le_card U b (applyResolution s (addr::addrs)).1.current
      rw [if_neg (mt List.contains_iff_mem.mp hpresent)]
      omega

/-! ### The way to an address -/

section Runs
variable (ryu : R → Collectd.Bytes) (dst : ExportDst) (interval : ℕ)

/-- In this turn `b` answers where it is in use, and what the resolver names has
`b` in it. -/
def Serves (U : Finset α) (b : α) (l : Loop α) (t : Tick α E R) : Prop :=
  (l.selection.current = b → failed t = false) ∧ Held U b t.answer

instance (U : Finset α) (b : α) (l : Loop α) (t : Tick α E R) : Decidable (Serves U b l t) :=
  inferInstanceAs (Decidable (_ ∧ _))

/-- The times a turn resolves the target again, where the answer lacks the
address in use. -/
def setbacks (l : Loop α) (t : Tick α E R) : ℕ :=
  if (answered t.answer).contains l.selection.current then 0
  else reresolutions (step ryu dst interval l t).2

/-- A success of another address than `b`. -/
def elsewhere (b : α) (l : Loop α) (t : Tick α E R) : ℕ :=
  if l.selection.current = b then 0 else successReports (step ryu dst interval l t).2

variable {U : Finset α} {b : α}

/-- A turn of the address that answers stays there. -/
theorem step_stays {l : Loop α} {t : Tick α E R} (hserves : Serves U b l t)
    (hat : l.selection.current = b) :
    (step ryu dst interval l t).1.selection.current = b ∧
      reresolutions (step ryu dst interval l t).2 = 0 ∧
      failureReports (step ryu dst interval l t).2 = 0 := by
  have hup := hserves.1 hat
  cases hrun : l.ended with
  | true =>
    rw [step_ended ryu dst interval t hrun]
    exact ⟨hat,rfl,rfl⟩
  | false =>
    have hturn := step_turn ryu dst interval l t hrun
    have hselection : (step ryu dst interval l t).1.selection = l.selection := by
      have hprogress := hturn.progress
      rw [advance_eq, if_neg (by simp [hup])] at hprogress
      exact congrArg Progress.selection hprogress
    refine ⟨hselection ▸ hat,?_,?_⟩
    · rw [turn_reresolutions hturn, hup]
      rfl
    · rw [turn_failureReports hturn, hup]
      rfl

/-- A running turn away from `b` rotates and gets closer, or stays put. -/
structure Approaches (U : Finset α) (b : α) (l : Loop α) (t : Tick α E R) (l' : Loop α)
    (actions : List (Action α E R)) (setback : ℕ) : Prop where
  failures : failureReports actions = if failed t = true then 1 else 0
  rotates : failed t = true → l.failuresUntilReresolve-1 = 0 →
    l'.failuresUntilReresolve = reresolveAfterFailures ∧ reresolutions actions = 1 ∧
    1+distance U b l'.selection.current ≤ distance U b l.selection.current+setback*U.card
  waits : ¬ (failed t = true ∧ l.failuresUntilReresolve-1 = 0) →
    l'.selection = l.selection ∧ reresolutions actions = 0 ∧
    l'.failuresUntilReresolve =
      if failed t = true then l.failuresUntilReresolve-1 else reresolveAfterFailures

theorem step_approaches (hb : b ∈ U) {l : Loop α} {t : Tick α E R} (hserves : Serves U b l t)
    (hrun : l.ended = false) (haway : l.selection.current ≠ b) :
    Approaches U b l t (step ryu dst interval l t).1 (step ryu dst interval l t).2
      (setbacks ryu dst interval l t) := by
  have hturn := step_turn ryu dst interval l t hrun
  have hprogress := hturn.progress
  have hcount := turn_reresolutions hturn
  rw [advance_eq] at hprogress
  refine ⟨turn_failureReports hturn,?_,?_⟩
  · intro hfailed hleft
    rw [if_pos ⟨hfailed,hleft⟩] at hcount hprogress
    have hcurrent : (step ryu dst interval l t).1.selection =
        (rotateTarget l.selection t.answer).1 := congrArg Progress.selection hprogress
    have hdistance := rotate_distance hb l.selection _ hserves.2 haway
    refine ⟨congrArg Progress.left hprogress,hcount,?_⟩
    rw [hcurrent, setbacks, hcount]
    split_ifs at hdistance ⊢ <;> omega
  · intro hwaits
    rw [if_neg hwaits] at hcount
    rw [if_neg (show ¬ (_ ∧ l.progress.left-1 = 0) from hwaits)] at hprogress
    exact ⟨congrArg Progress.selection hprogress,hcount,congrArg Progress.left hprogress⟩

/-- Each rotation is paid for by the way it covers, or by its setback. -/
theorem step_distance (hb : b ∈ U) {l : Loop α} {t : Tick α E R} (hserves : Serves U b l t) :
    reresolutions (step ryu dst interval l t).2+
        distance U b (step ryu dst interval l t).1.selection.current ≤
      distance U b l.selection.current+setbacks ryu dst interval l t*U.card := by
  by_cases hat : l.selection.current = b
  · obtain ⟨hstays,hnone,-⟩ := step_stays ryu dst interval hserves hat
    rw [hnone, distance, if_pos hstays]
    omega
  cases hrun : l.ended with
  | true =>
    rw [step_ended ryu dst interval t hrun]
    exact (Nat.zero_add _).trans_le (Nat.le_add_right _ _)
  | false =>
    have h := step_approaches ryu dst interval hb hserves hrun hat
    by_cases hrotates : failed t = true ∧ l.failuresUntilReresolve-1 = 0
    · obtain ⟨-,hone,hcloser⟩ := h.rotates hrotates.1 hrotates.2
      rw [hone]
      exact hcloser
    · obtain ⟨hsame,hnone,-⟩ := h.waits hrotates
      rw [hsame, hnone]
      omega

/-! ### The failures on the way -/

/-- How many failures are left until `b` is in use, with no setback. -/
def remaining (U : Finset α) (b : α) (l : Loop α) : ℕ :=
  if l.selection.current = b then 0
  else reresolveAfterFailures*(distance U b l.selection.current-1)+l.failuresUntilReresolve

def Counting (l : Loop α) : Prop :=
  1 ≤ l.failuresUntilReresolve ∧ l.failuresUntilReresolve ≤ reresolveAfterFailures

theorem step_counting (l : Loop α) (t : Tick α E R) (hl : Counting l) :
    Counting (step ryu dst interval l t).1 := by
  cases hrun : l.ended with
  | true => rwa [step_ended ryu dst interval t hrun]
  | false =>
    have hleft := congrArg Progress.left (step_turn ryu dst interval l t hrun).progress
    rw [advance_left] at hleft
    obtain ⟨hlow,hhigh⟩ := hl
    have hleft' : (step ryu dst interval l t).1.failuresUntilReresolve = _ := hleft
    rw [Counting, hleft']
    split_ifs with h
    · have hne : l.failuresUntilReresolve-1 ≠ 0 := h.2
      show 1 ≤ l.failuresUntilReresolve-1 ∧ l.failuresUntilReresolve-1 ≤ reresolveAfterFailures
      omega
    · exact ⟨by decide,le_refl _⟩

theorem reached_counting {l : Loop α} (h : Reached (E := E) ryu dst interval l) : Counting l := by
  refine Transducer.reachable_invariant (fun l hl => ?_)
    (fun l t => step_counting ryu dst interval l t) h
  rw [Counting, (launched_selection hl).2.1]
  exact ⟨by decide,le_refl _⟩

/-- Each failure is paid for by the way it covers, by a setback or by a success
elsewhere, which starts the count again. -/
theorem step_remaining (hb : b ∈ U) {l : Loop α} {t : Tick α E R} (hcounting : Counting l)
    (hserves : Serves U b l t) :
    failureReports (step ryu dst interval l t).2+remaining U b (step ryu dst interval l t).1 ≤
      remaining U b l+(setbacks ryu dst interval l t*(U.card*reresolveAfterFailures)+
        elsewhere ryu dst interval b l t*4) := by
  by_cases hat : l.selection.current = b
  · obtain ⟨hstays,-,hnone⟩ := step_stays ryu dst interval hserves hat
    rw [hnone, remaining, if_pos hstays]
    omega
  cases hrun : l.ended with
  | true =>
    rw [step_ended ryu dst interval t hrun]
    exact (Nat.zero_add _).trans_le (Nat.le_add_right _ _)
  | false =>
    have h := step_approaches ryu dst interval hb hserves hrun hat
    have hsuccess : elsewhere ryu dst interval b l t = _ :=
      (if_neg hat).trans (turn_successReports (step_turn ryu dst interval l t hrun))
    have hpos := distance_pos hb hat
    obtain ⟨hlow,hhigh⟩ := hcounting
    rw [h.failures, hsuccess, remaining, remaining, if_neg hat, ← Nat.mul_assoc]
    by_cases hrotates : failed t = true ∧ l.failuresUntilReresolve-1 = 0
    · obtain ⟨hleft',-,hcloser⟩ := h.rotates hrotates.1 hrotates.2
      have hlast : l.failuresUntilReresolve = 1 := by omega
      rw [hleft', hlast, if_pos hrotates.1, if_pos hrotates.1]
      simp only [reresolveAfterFailures]
      split_ifs with harrived
      · omega
      · have hpos' := distance_pos hb harrived
        omega
    · obtain ⟨hsame,-,hleft'⟩ := h.waits hrotates
      rw [hsame, hleft', if_neg hat]
      simp only [reresolveAfterFailures] at *
      by_cases hfailed : failed t = true
      · simp only [hfailed, true_and, if_true] at hrotates ⊢
        omega
      · simp only [hfailed, Bool.false_eq_true, if_false]
        omega

theorem remaining_le (hb : b ∈ U) {l : Loop α} (hcounting : Counting l) :
    remaining U b l ≤ U.card*reresolveAfterFailures := by
  have hcard := distance_le_card U b l.selection.current
  have hpos : 0 < U.card := Finset.card_pos.mpr ⟨b,hb⟩
  obtain ⟨-,hhigh⟩ := hcounting
  unfold remaining
  simp only [reresolveAfterFailures] at *
  split_ifs <;> omega

/-! ### Whole runs -/

variable {ts : List (Tick α E R)}

theorem run_stays {l : Loop α} (hserves : Along (step ryu dst interval) (Serves U b) l ts)
    (hat : l.selection.current = b) :
    (final (step ryu dst interval) l ts).selection.current = b :=
  final_along (Q := fun l : Loop α => l.selection.current = b)
    (fun _ _ h hserves => (step_stays ryu dst interval hserves h).1) hserves hat

/-- While `b` is out of use every turn reports a failure or a success elsewhere. -/
theorem reports_away {l : Loop α} (hserves : Along (step ryu dst interval) (Serves U b) l ts)
    (hrun : (final (step ryu dst interval) l ts).ended = false)
    (haway : (final (step ryu dst interval) l ts).selection.current ≠ b) :
    charged (step ryu dst interval)
        (fun l t => failureReports (step ryu dst interval l t).2) l ts+
      charged (step ryu dst interval) (elsewhere ryu dst interval b) l ts = ts.length := by
  induction ts generalizing l with
  | nil => rfl
  | cons t ts ih =>
    have hrunning : l.ended = false := running_earlier ryu dst interval [] (t::ts) hrun
    have hnot : l.selection.current ≠ b := fun hat => haway (run_stays ryu dst interval hserves hat)
    have hturn := step_turn ryu dst interval l t hrunning
    have hone : failureReports (step ryu dst interval l t).2+
        elsewhere ryu dst interval b l t = 1 := by
      rw [elsewhere, if_neg hnot, turn_failureReports hturn, turn_successReports hturn]
      split_ifs <;> rfl
    have hrest := ih hserves.2 hrun haway
    rw [charged, charged, List.length_cons]
    omega

theorem shown_reresolutions (l : Loop α) (ts : List (Tick α E R)) :
    reresolutions (outputs (step ryu dst interval) l ts).flatten =
      charged (step ryu dst interval)
        (fun l t => reresolutions (step ryu dst interval l t).2) l ts :=
  charged_flatten rfl reresolutions_append l ts

theorem shown_failureReports (l : Loop α) (ts : List (Tick α E R)) :
    failureReports (outputs (step ryu dst interval) l ts).flatten =
      charged (step ryu dst interval)
        (fun l t => failureReports (step ryu dst interval l t).2) l ts :=
  charged_flatten rfl failureReports_append l ts

/-- While `b` answers whenever it is in use, and each answer of the resolver
that names an address has it among those of `U`, the rotations are paid for by
the way to `b` and by the setbacks, and the probe stays on `b` once it is there.
The failures it reports stay within one lap of five for each setback and one
more, and four for each success of another address; after as many cycles and
one for each such success `b` is in use. -/
theorem outage_ends (U : Finset α) (b : α) (hb : b ∈ U) (l : Loop α)
    (hl : Reached (E := E) ryu dst interval l) (ts : List (Tick α E R))
    (hserves : Along (step ryu dst interval) (Serves U b) l ts) :
    let ends := final (step ryu dst interval) l ts
    let shown := (outputs (step ryu dst interval) l ts).flatten
    let thrown := charged (step ryu dst interval) (setbacks ryu dst interval) l ts
    let others := charged (step ryu dst interval) (elsewhere ryu dst interval b) l ts
    reresolutions shown+distance U b ends.selection.current ≤
      distance U b l.selection.current+thrown*U.card ∧
    (∀ k, (before ryu dst interval l ts k).selection.current = b → ends.selection.current = b) ∧
    failureReports shown ≤ (thrown+1)*(U.card*reresolveAfterFailures)+others*4 ∧
    (ends.ended = false → (thrown+1)*(U.card*reresolveAfterFailures)+others*5 ≤ ts.length →
      ends.selection.current = b) := by
  intro ends shown thrown others
  have hcounting := reached_counting ryu dst interval hl
  have hbound : failureReports shown+remaining U b ends ≤
      (thrown+1)*(U.card*reresolveAfterFailures)+others*4 := by
    have hpaid : charged (step ryu dst interval)
        (fun l t => failureReports (step ryu dst interval l t).2) l ts+remaining U b ends ≤
        remaining U b l+charged (step ryu dst interval)
          (fun l t => setbacks ryu dst interval l t*(U.card*reresolveAfterFailures)+
            elsewhere ryu dst interval b l t*4) l ts :=
      charged_le (Q := Counting) (remaining U b) (fun l t hcounting hserves =>
        ⟨step_counting ryu dst interval l t hcounting,
          step_remaining ryu dst interval hb hcounting hserves⟩) hserves hcounting
    rw [charged_add, charged_mul, charged_mul, ← shown_failureReports] at hpaid
    calc failureReports shown+remaining U b ends
        ≤ remaining U b l+(thrown*(U.card*reresolveAfterFailures)+others*4) := hpaid
      _ ≤ U.card*reresolveAfterFailures+(thrown*(U.card*reresolveAfterFailures)+others*4) :=
        Nat.add_le_add_right (remaining_le hb hcounting) _
      _ = (thrown+1)*(U.card*reresolveAfterFailures)+others*4 := by ring
  refine ⟨?_,?_,le_of_add_le_left hbound,?_⟩
  · have hpaid : charged (step ryu dst interval)
        (fun l t => reresolutions (step ryu dst interval l t).2) l ts+
          distance U b ends.selection.current ≤ distance U b l.selection.current+
        charged (step ryu dst interval)
          (fun l t => setbacks ryu dst interval l t*U.card) l ts :=
      charged_le (Q := fun _ => True) (fun l => distance U b l.selection.current)
        (fun l t _ hserves => ⟨trivial,step_distance ryu dst interval hb hserves⟩) hserves trivial
    rwa [charged_mul, ← shown_reresolutions] at hpaid
  · intro k hat
    have hrest := run_stays ryu dst interval (along_drop l ts k hserves) hat
    rwa [← final_append, List.take_append_drop] at hrest
  · intro hrun hlength
    by_contra haway
    have hall := reports_away ryu dst interval hserves hrun haway
    have hleft : 0 < remaining U b ends := by
      have hends : Counting ends := final_along (Q := Counting)
        (fun l t hl _ => step_counting ryu dst interval l t hl) hserves hcounting
      rw [remaining, if_neg haway]
      exact Nat.lt_of_lt_of_le hends.1 (Nat.le_add_left _ _)
    rw [← shown_failureReports] at hall
    have hshown : failureReports shown+others = ts.length := hall
    omega

/-- The first endpoint is down, and the second answers. -/
def halfDown : List (Tick SocketAddr Unit ℕ) :=
  List.replicate 5 (refused (.ok [endpoint 2,endpoint 1]) (.ok ()))++
    List.replicate 5 ⟨0,.ok 4,.error (),flushing (.ok ()),0⟩

theorem outage_ends_endpoint : (final (step (fun _ : ℕ => []) .collectdExec 10) launched
    halfDown).selection.current = endpoint 2 :=
  (outage_ends (fun _ : ℕ => []) .collectdExec 10 {endpoint 1,endpoint 2} (endpoint 2) (by decide)
    launched ⟨launched,[],launched_launched,rfl⟩ halfDown (by decide)).2.2.2 (by decide)
    (by decide)

end Runs

end WireProbe.Outage
