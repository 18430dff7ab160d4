import WireProbe.ProbeLoop

/-!
# The log of the probe loop

The lines a run prints are enough to follow it: from the selection it started
with they give the address of every handshake, and none of them repeats what
was known. The loop sleeps out every cycle shorter than the interval and warns
of the first that is longer.
-/

set_option autoImplicit false

namespace WireProbe.ProbeLog
open WireProbe.Transducer WireProbe.AddressRotation WireProbe.Collectd WireProbe.ProbeLoop

variable {α E R : Type*}

/-! ### Reading the log -/

/-- The selection after one more line. -/
def heed (s : Selection α) : Action α E R → Selection α
  | .notice (.nowResolvesTo addrs) => ⟨addrs,s.current⟩
  | .notice (.tryingNext current) => ⟨s.addrs,current⟩
  | _ => s

def replay (s : Selection α) (log : List (Action α E R)) : Selection α := log.foldl heed s

/-- What a line may say to a reader who has followed the log so far. -/
def Tells (s : Selection α) : Action α E R → Prop
  | .connect addr => addr = s.current
  | .notice (.nowResolvesTo addrs) => addrs ≠ s.addrs
  | .notice (.tryingNext current) => current ≠ s.current
  | _ => True

def Followed : Selection α → List (Action α E R) → Prop
  | _, [] => True
  | s, a::log => Tells s a ∧ Followed (heed s a) log

@[simp] theorem replay_nil (s : Selection α) : replay s ([] : List (Action α E R)) = s := rfl

@[simp] theorem replay_cons (s : Selection α) (a : Action α E R) (log : List (Action α E R)) :
    replay s (a::log) = replay (heed s a) log := rfl

@[simp] theorem replay_append (s : Selection α) (log more : List (Action α E R)) :
    replay s (log++more) = replay (replay s log) more := List.foldl_append

theorem followed_append (s : Selection α) (log more : List (Action α E R)) :
    Followed s (log++more) ↔ Followed s log ∧ Followed (replay s log) more := by
  induction log generalizing s with
  | nil => simp [Followed]
  | cons a log ih => simp [Followed, ih, and_assoc]

theorem Followed.tells {s : Selection α} {before after : List (Action α E R)} {a : Action α E R}
    (h : Followed s (before++a::after)) : Tells (replay s before) a :=
  ((followed_append s before (a::after)).mp h).2.1

/-- Nothing about the selection. -/
def Quiet (a : Action α E R) : Prop := ∀ s : Selection α, Tells s a ∧ heed s a = s

theorem quiet_followed {log : List (Action α E R)} (h : ∀ a ∈ log, Quiet a) (s : Selection α) :
    Followed s log ∧ replay s log = s := by
  induction log generalizing s with
  | nil => exact ⟨trivial,rfl⟩
  | cons a log ih =>
    obtain ⟨ha,hlog⟩ := List.forall_mem_cons.mp h
    obtain ⟨htells,hheed⟩ := ha s
    rw [Followed, replay_cons, hheed]
    exact ⟨⟨htells,(ih hlog s).1⟩,(ih hlog s).2⟩

def sleeps (log : List (Action α E R)) : List ℕ :=
  log.filterMap fun
    | .sleep remaining => some remaining
    | _ => none

def overruns (log : List (Action α E R)) : List (ℕ × ℕ) :=
  log.filterMap fun
    | .overranInterval elapsed interval => some (elapsed,interval)
    | _ => none

@[simp] theorem sleeps_append (log more : List (Action α E R)) :
    sleeps (log++more) = sleeps log++sleeps more := List.filterMap_append

@[simp] theorem overruns_append (log more : List (Action α E R)) :
    overruns (log++more) = overruns log++overruns more := List.filterMap_append

/-! ### One turn -/

theorem pause_quiet (interval : ℕ) (l : Loop α) (elapsed : ℕ) :
    ∀ a ∈ (pause interval l elapsed : Loop α × List (Action α E R)).2, Quiet a := by
  unfold pause
  split_ifs <;> simp [Quiet, Tells, heed]

/-- What a turn shows of its pace, and what it leaves of the latch. -/
structure Paced (interval : ℕ) (l : Loop α) (t : Tick α E R) (l' : Loop α)
    (actions : List (Action α E R)) : Prop where
  sleeps : sleeps actions = if t.elapsed ≤ interval then [interval-t.elapsed] else []
  overruns : overruns actions =
    if t.elapsed ≤ interval ∨ l.overran = true then [] else [(t.elapsed,interval)]
  overran : l'.overran = (l.overran || decide (interval < t.elapsed))

theorem pause_paced (interval : ℕ) (l : Loop α) (t : Tick α E R) :
    Paced interval l t (pause (E := E) (R := R) interval l t.elapsed).1
      (pause interval l t.elapsed).2 := by
  unfold pause
  split_ifs with hslow hover
  · exact ⟨by simp [sleeps, hslow],by simp [overruns, hslow],by simp [Nat.not_lt.mpr hslow]⟩
  · exact ⟨by simp [sleeps, hslow],by simp [overruns, hover],by simp [hover]⟩
  · exact ⟨by simp [sleeps, hslow],by simp [overruns, hslow, hover],by simp [Nat.not_le.mp hslow]⟩

section Turn
variable [LinearOrder α]

/-- A resolution tells truly what it changed. -/
theorem applyResolution_told (s : Selection α) (fresh : List α) :
    (applyResolution s fresh).2 = ⟨decide ((applyResolution s fresh).1.current ≠ s.current),
      decide ((applyResolution s fresh).1.addrs ≠ s.addrs)⟩ := by
  unfold applyResolution
  split
  · simp
  · rfl

/-- The lines of `rotate_target` are those that its caller's variables need. -/
theorem rotate_followed (s : Selection α) (answer : Except E (List α)) :
    Followed s ((rotateTarget s answer).2.map (.notice : Notice α E → Action α E R)) ∧
      replay s ((rotateTarget s answer).2.map (.notice : Notice α E → Action α E R)) =
        (rotateTarget s answer).1 := by
  unfold rotateTarget
  cases resolve answer with
  | error e => exact ⟨⟨trivial,trivial⟩,rfl⟩
  | ok fresh =>
    have htold := applyResolution_told s fresh
    simp only [htold]
    generalize (applyResolution s fresh).1 = s'
    obtain ⟨addrs,current⟩ := s
    obtain ⟨addrs',current'⟩ := s'
    by_cases hlist : addrs' = addrs <;> by_cases hmoved : current' = current <;>
      simp [hlist, hmoved, Followed, Tells, heed]

theorem recovery_followed (p : Progress α) (t : Tick α E R) :
    Followed p.selection (recovery p t) ∧
      replay p.selection (recovery p t) = (advance p t).selection := by
  unfold recovery advance
  cases t.measured with
  | ok rttMs => exact ⟨trivial,rfl⟩
  | error e =>
    by_cases hleft : p.left-1 = 0
    · obtain ⟨hfollowed,hreplay⟩ := rotate_followed (R := R) p.selection t.answer
      simp only [hleft, if_true]
      exact ⟨⟨trivial,trivial,hfollowed⟩,hreplay⟩
    · simp only [hleft, if_false]
      exact ⟨⟨trivial,trivial⟩,rfl⟩

variable (ryu : R → Bytes) (dst : ExportDst) (interval : ℕ)

/-- What a turn does past its export. -/
def tail (l : Loop α) (t : Tick α E R) : List (Action α E R) :=
  let pausing := (pause interval (settled ryu l t) t.elapsed : Loop α × List (Action α E R))
  match sent ryu l t with
  | .ok () => pausing.2
  | .error kind =>
    if kind = .brokenPipe ∧ dst = .collectdExec then [.stdoutClosed]
    else .exportError kind::pausing.2

theorem step_log (l : Loop α) (t : Tick α E R) (hl : l.ended = false) :
    (step ryu dst interval l t).2 = .connect l.selection.current :: recovery l.progress t ++
      .exported (reported t) (sent ryu l t) :: tail ryu dst interval l t := by
  rw [step_eq ryu dst interval l t hl, tail]
  cases sent ryu l t with
  | ok => simp
  | error kind => by_cases hend : kind = .brokenPipe ∧ dst = .collectdExec <;> simp [hend]

theorem tail_quiet (l : Loop α) (t : Tick α E R) : ∀ a ∈ tail ryu dst interval l t, Quiet a := by
  have hpause := pause_quiet (E := E) (R := R) interval (settled ryu l t) t.elapsed
  unfold tail
  split
  · exact hpause
  · split_ifs
    · simp [Quiet, Tells, heed]
    · exact List.forall_mem_cons.mpr ⟨fun s => ⟨trivial,rfl⟩,hpause⟩

theorem step_followed (l : Loop α) (t : Tick α E R) :
    Followed l.selection (step ryu dst interval l t).2 ∧
      replay l.selection (step ryu dst interval l t).2 =
        (step ryu dst interval l t).1.selection := by
  cases hl : l.ended with
  | true => exact step_ended ryu dst interval t hl ▸ ⟨trivial,rfl⟩
  | false =>
    have hselection := congrArg Progress.selection (step_turn ryu dst interval l t hl).progress
    obtain ⟨hfollowed,hreplay⟩ := recovery_followed l.progress t
    obtain ⟨hquiet,hsame⟩ := quiet_followed (tail_quiet ryu dst interval l t)
      (advance l.progress t).selection
    rw [step_log ryu dst interval l t hl, List.cons_append, Followed, followed_append, replay_cons,
      replay_append]
    change (l.selection.current = l.selection.current ∧ Followed l.progress.selection _ ∧
      Followed (replay l.progress.selection _) _) ∧ replay (replay l.progress.selection _) _ = _
    rw [hreplay]
    exact ⟨⟨rfl,hfollowed,trivial,hquiet⟩,hsame.trans hselection.symm⟩

/-- Over any run the log gives the selection: each handshake goes to the
address last told of, the last state is the one told, and a line about the
selection tells something new. -/
theorem log_followed (l : Loop α) (ts : List (Tick α E R)) :
    replay l.selection (outputs (step ryu dst interval) l ts).flatten =
        (final (step ryu dst interval) l ts).selection ∧
      ∀ before a after, (outputs (step ryu dst interval) l ts).flatten = before++a::after →
        Tells (replay l.selection before) a := by
  have hrun : Followed l.selection (outputs (step ryu dst interval) l ts).flatten ∧
      replay l.selection (outputs (step ryu dst interval) l ts).flatten =
        (final (step ryu dst interval) l ts).selection := by
    induction ts generalizing l with
    | nil => exact ⟨trivial,rfl⟩
    | cons t ts ih =>
      obtain ⟨hfollowed,hreplay⟩ := step_followed ryu dst interval l t
      rw [outputs_cons, List.flatten_cons, followed_append, replay_append, hreplay]
      exact ⟨⟨hfollowed,(ih _).1⟩,(ih _).2⟩
  refine ⟨hrun.2,fun before a after hsplit => ?_⟩
  exact (hsplit ▸ hrun.1).tells

/-! ### The cadence -/

/-- The turns after which the loop goes on. -/
def completed : Loop α → List (Tick α E R) → List (Tick α E R)
  | _, [] => []
  | l, t::ts =>
    let l' := (step ryu dst interval l t).1
    if l'.ended then [] else t::completed l' ts

theorem completed_ended {l : Loop α} (ts : List (Tick α E R)) (hl : l.ended = true) :
    completed ryu dst interval l ts = [] := by
  cases ts with
  | nil => rfl
  | cons t ts => exact if_pos (step_ended ryu dst interval t hl ▸ hl)

theorem recovery_paced (p : Progress α) (t : Tick α E R) :
    sleeps (recovery p t) = [] ∧ overruns (recovery p t) = [] := by
  unfold recovery
  cases t.measured with
  | ok rttMs => exact ⟨rfl,rfl⟩
  | error e => by_cases hleft : p.left-1 = 0 <;> simp [hleft, sleeps, overruns, List.filterMap_map]

theorem tail_paced (l : Loop α) (t : Tick α E R) (hl : l.ended = false) :
    if (step ryu dst interval l t).1.ended then
      sleeps (tail ryu dst interval l t) = [] ∧ overruns (tail ryu dst interval l t) = []
    else Paced interval l t (step ryu dst interval l t).1 (tail ryu dst interval l t) := by
  have hpause := pause_paced interval (settled ryu l t) t
  obtain ⟨overran,hloop⟩ := pause_loop (E := E) (R := R) interval (settled ryu l t) t.elapsed
  have hended : (settled ryu l t).ended = false := hl
  rw [step_eq ryu dst interval l t hl, tail]
  cases sent ryu l t with
  | ok =>
    rw [if_neg (by simp [hloop, hended])]
    exact ⟨hpause.sleeps,hpause.overruns,hpause.overran⟩
  | error kind =>
    by_cases hend : kind = .brokenPipe ∧ dst = .collectdExec
    · simp [hend, sleeps, overruns]
    · simp only [hend, if_false]
      rw [if_neg (by simp [hloop, hended])]
      exact ⟨hpause.sleeps,hpause.overruns,hpause.overran⟩

theorem step_paced (l : Loop α) (t : Tick α E R) (hl : l.ended = false) :
    if (step ryu dst interval l t).1.ended then
      sleeps (step ryu dst interval l t).2 = [] ∧ overruns (step ryu dst interval l t).2 = []
    else Paced interval l t (step ryu dst interval l t).1 (step ryu dst interval l t).2 := by
  have htail := tail_paced ryu dst interval l t hl
  obtain ⟨hsleeps,hoverruns⟩ := recovery_paced l.progress t
  have hstart : sleeps (step ryu dst interval l t).2 = sleeps (tail ryu dst interval l t) ∧
      overruns (step ryu dst interval l t).2 = overruns (tail ryu dst interval l t) := by
    rw [step_log ryu dst interval l t hl]
    simp only [sleeps, overruns] at hsleeps hoverruns ⊢
    simp [hsleeps, hoverruns]
  rw [hstart.1, hstart.2]
  split_ifs at htail ⊢ with hended
  · exact htail
  · exact ⟨hstart.1.trans htail.sleeps,hstart.2.trans htail.overruns,htail.overran⟩

/-- Over any run the loop sleeps out every cycle that is not longer than the
interval, and warns of the first that is, once. -/
theorem cadence_kept (l : Loop α) (ts : List (Tick α E R)) :
    sleeps (outputs (step ryu dst interval) l ts).flatten =
        ((completed ryu dst interval l ts).filter (·.elapsed ≤ interval)).map
          (interval-·.elapsed) ∧
      overruns (outputs (step ryu dst interval) l ts).flatten =
        (((completed ryu dst interval l ts).filter (interval < ·.elapsed)).take
          (if l.overran then 0 else 1)).map fun t => (t.elapsed,interval) := by
  induction ts generalizing l with
  | nil => simp [sleeps, overruns, completed]
  | cons t ts ih =>
    obtain ⟨hsleeps,hoverruns⟩ := ih (step ryu dst interval l t).1
    rw [outputs_cons, List.flatten_cons, sleeps_append, overruns_append, hsleeps, hoverruns, completed]
    cases hl : l.ended with
    | true =>
      have hstep := step_ended ryu dst interval t hl
      simp [hstep, hl, completed_ended ryu dst interval ts hl, sleeps, overruns]
    | false =>
      have hpaced := step_paced ryu dst interval l t hl
      cases hended : (step ryu dst interval l t).1.ended with
      | true =>
        rw [if_pos hended] at hpaced
        simp [hpaced.1, hpaced.2, completed_ended ryu dst interval ts hended]
      | false =>
        rw [if_neg (by simp [hended])] at hpaced
        rw [hpaced.sleeps, hpaced.overruns, hpaced.overran]
        by_cases hslow : t.elapsed ≤ interval
        · simp [hslow, Nat.not_lt.mpr hslow]
        · cases hover : l.overran <;> simp [hslow, Nat.not_le.mp hslow]

end Turn

end WireProbe.ProbeLog
