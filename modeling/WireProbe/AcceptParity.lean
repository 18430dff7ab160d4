import WireProbe.AcceptRing
import WireProbe.Text

/-!
# The two accept loops

The blocking loop accepts, drops the stream and backs off on every failure.
The loop over the ring does the same for the same outcomes, except that it
takes up a transient failure at once and warns of a close that fails.
-/

set_option autoImplicit false

namespace WireProbe.AcceptParity
open WireProbe.Transitions WireProbe.AcceptRing

/-- `run_blocking` on the answer of one `accept`; the stream is dropped. -/
def onAccept : Answer → List Event
  | .accepted fd => [.closed fd]
  | .failed errno => [.acceptWarning errno,.slept acceptErrorBackoff]

/-- The loop has no exit: after the answers it is in the next `accept`. -/
def runBlocking : List Answer → List Event
  | [] => [.armed]
  | answer::rest => .armed::.delivered answer.result::(onAccept answer++runBlocking rest)

/-- What the loop over the ring does on an outcome. -/
def reaction (o : Outcome) : List Event :=
  match o.answer with
  | .accepted fd =>
    match o.close with
    | .ok () => [.closed fd]
    | .error errno => [.closed fd,.closeWarning fd errno]
  | .failed errno =>
    if errno = eagain ∨ errno = ewouldblock then []
    else [.acceptWarning errno,.slept acceptErrorBackoff]

def runIoUring : List Outcome → List Event
  | [] => [.armed]
  | o::os => .armed::.delivered o.answer.result::(reaction o++runIoUring os)

theorem onResult_eq (o : Outcome) : onResult o.answer.result o.close = reaction o := by
  obtain ⟨answer,close⟩ := o
  cases answer with
  | accepted fd =>
    have hfd : 0 ≤ (fd:ℤ) := Int.natCast_nonneg fd
    cases close <;> exact if_pos hfd
  | failed errno =>
    obtain ⟨n,hpos,hlt⟩ := errno
    have hresult : ¬ 0 ≤ -n := by omega
    have hneg : saturatingNeg (-n) = n := by
      rw [saturatingNeg, if_neg (by omega), neg_neg]
    simp only [onResult, Answer.result, reaction, if_neg hresult, hneg]
    by_cases htransient : n = eagain ∨ n = ewouldblock
    · rw [if_pos htransient, if_neg (by tauto)]
    · rw [if_neg htransient, if_pos (not_or.mp htransient)]

theorem rounds_eq (os : List Outcome) : rounds os++[.armed] = runIoUring os := by
  induction os with
  | nil => rfl
  | cons o os ih =>
    rw [runIoUring, ← ih, ← onResult_eq]
    simp [rounds, acceptRound]

/-! ### Where the loops agree -/

/-- No transient failure, and no close that fails. -/
def Alike (o : Outcome) : Prop :=
  match o.answer with
  | .accepted _ => o.close = .ok ()
  | .failed errno => (errno:ℤ) ≠ eagain ∧ (errno:ℤ) ≠ ewouldblock

theorem reaction_eq_iff (o : Outcome) : reaction o = onAccept o.answer ↔ Alike o := by
  obtain ⟨answer,close⟩ := o
  cases answer with
  | accepted fd => cases close <;> simp [reaction, onAccept, Alike]
  | failed errno =>
    simp only [reaction, onAccept, Alike, ← not_or]
    split_ifs with htransient
    · simp [htransient]
    · simp [htransient]

theorem armed_not_mem_reaction (o : Outcome) : .armed ∉ reaction o := by
  unfold reaction
  split
  · split <;> simp
  · split_ifs <;> simp

theorem armed_not_mem_onAccept (answer : Answer) : .armed ∉ onAccept answer := by
  cases answer <;> simp [onAccept]

theorem runIoUring_head (os : List Outcome) : ∃ rest, runIoUring os = .armed::rest := by
  cases os <;> exact ⟨_,rfl⟩

theorem runBlocking_head (answers : List Answer) : ∃ rest, runBlocking answers = .armed::rest := by
  cases answers <;> exact ⟨_,rfl⟩

/-- Every accept starts a round, so the rounds can be compared one by one. -/
theorem runIoUring_eq_iff (os : List Outcome) :
    runIoUring os = runBlocking (os.map Outcome.answer) ↔ ∀ o ∈ os, Alike o := by
  induction os with
  | nil => simp [runIoUring, runBlocking]
  | cons o os ih =>
    rw [List.forall_mem_cons, ← ih, ← reaction_eq_iff]
    simp only [List.map_cons, runIoUring, runBlocking, List.cons.injEq, true_and]
    constructor
    · intro h
      obtain ⟨rest,hrest⟩ := runIoUring_head os
      obtain ⟨rest',hrest'⟩ := runBlocking_head (os.map Outcome.answer)
      rw [hrest, hrest'] at h ⊢
      obtain ⟨hround,-,htail⟩ := Text.field_unique (· ≠ Event.armed)
        (fun e he heq => armed_not_mem_reaction o (heq ▸ he))
        (fun e he heq => armed_not_mem_onAccept o.answer (heq ▸ he)) (by simp) (by simp) h
      exact ⟨hround,congrArg _ htail⟩
    · rintro ⟨hround,hrest⟩
      rw [hround, hrest]

/-! ### Runs -/

/-- The calls fail with nothing but an interrupted wait. -/
def Undisturbed : Act → Prop
  | .submit _ answer => answer = .ok ()
  | .wait _ answer => answer = .ok () ∨ answer = .error .interrupted
  | _ => True

def answered : Act → Option Answer
  | .complete _ answer => some answer
  | _ => none

def deliveredOf : Event → Option ℤ
  | .delivered result => some result
  | _ => none

theorem step_not_exited {listenerFd : ℤ} {s s' : State} {a : Act} (ha : Undisturbed a)
    (hinv : Inv s) (hs : ∀ e, s.pc ≠ .exited e) (hstep : step listenerFd s a = some s') :
    ∀ e, s'.pc ≠ .exited e := by
  intro e
  cases step_moves hstep with
  | push hpc => simp [AcceptRing.push, (hinv.push hpc listenerFd).1]
  | submit _ consumed answer =>
    obtain rfl : answer = .ok () := ha
    simp [AcceptRing.submit]
  | wait _ consumed answer => rcases ha with rfl | rfl <;> simp [submitAndWait]
  | completion => simp
  | next _ close =>
    unfold handle
    split_ifs <;> simp
  | @finish rearm _ => cases rearm <;> simp
  | complete => exact hs e

theorem onResult_delivered (result : ℤ) (close : Except ℤ Unit) :
    (onResult result close).filterMap deliveredOf = [] := by
  simp only [onResult]
  split_ifs
  · cases close <;> rfl
  · rfl
  · rfl

/-- Only the kernel's own step delivers. -/
theorem step_delivered {listenerFd : ℤ} {s s' : State} {a : Act}
    (hstep : step listenerFd s a = some s') :
    s'.log.filterMap deliveredOf =
      s.log.filterMap deliveredOf++((answered a).map Answer.result).toList := by
  cases step_moves hstep with
  | push =>
    unfold AcceptRing.push
    split <;> simp [deliveredOf, answered]
  | submit => simp [AcceptRing.submit, consume, answered]
  | wait => simp [submitAndWait, consume, answered]
  | completion => simp [answered]
  | next =>
    unfold handle
    split_ifs <;> simp [answered, onResult_delivered]
  | finish => simp [answered]
  | complete => simp [complete, answered, deliveredOf]

theorem run_delivered {listenerFd : ℤ} {s t : State} {acts : List Act}
    (h : run (step listenerFd) s acts = some t) :
    t.log.filterMap deliveredOf =
      s.log.filterMap deliveredOf++(acts.filterMap answered).map Answer.result := by
  induction acts generalizing s with
  | nil =>
    obtain rfl := Option.some.inj h
    simp
  | cons a acts ih =>
    obtain ⟨s',hs',hrest⟩ := Option.bind_eq_some_iff.mp h
    rw [ih hrest, step_delivered hs', List.filterMap_cons, List.append_assoc]
    cases answered a <;> simp

theorem result_injective : Function.Injective Answer.result := by
  intro a b h
  cases a with
  | accepted fd =>
    cases b with
    | accepted fd' => simpa [Answer.result] using h
    | failed errno =>
      have hpos := errno.2.1
      simp only [Answer.result] at h
      omega
  | failed errno =>
    have hpos := errno.2.1
    cases b with
    | accepted fd' =>
      simp only [Answer.result] at h
      omega
    | failed errno' =>
      simp only [Answer.result, neg_inj] at h
      exact congrArg _ (Subtype.ext h)

theorem runIoUring_delivered (os : List Outcome) :
    (runIoUring os).filterMap deliveredOf = (os.map Outcome.answer).map Answer.result := by
  induction os with
  | nil => rfl
  | cons o os ih =>
    have hreaction := onResult_delivered o.answer.result o.close
    rw [onResult_eq] at hreaction
    simp [runIoUring, List.filterMap_cons, deliveredOf, hreaction, ih]

/-- A run that waits with nothing unread has done what its outcomes ask for. -/
theorem run_log {listenerFd : ℤ} {s : State} {acts : List Act}
    (h : run (step listenerFd) start acts = some s) (hpc : s.pc = .wait) (hcq : s.cq = []) :
    ∃ os : List Outcome, os.map Outcome.answer = acts.filterMap answered ∧ s.log = runIoUring os := by
  obtain ⟨os,hlog⟩ := (inv_reachable ⟨acts,h⟩).log
  have hopened : s.opened = [.armed] := by
    simp [State.opened, State.pending, hpc, hcq, Pc.outstanding, Pc.batch]
  rw [hopened, rounds_eq] at hlog
  refine ⟨os,?_,hlog⟩
  apply List.map_injective_iff.mpr result_injective
  rw [← runIoUring_delivered, ← hlog, run_delivered h]
  rfl

/-! ### Every sequence of outcomes -/

/-- A wait that is interrupted some times, and then the outcome. -/
def turn (interruptions : ℕ) (o : Outcome) : List Act :=
  .submit 1 (.ok ())::(List.replicate interruptions (.wait 0 (.error .interrupted))++
    [.complete 0 o.answer,.wait 0 (.ok ()),.completion,.next o.close,.finish,.push])

def schedule (turns : List (ℕ × Outcome)) : List Act :=
  .push::(turns.flatMap (fun t => turn t.1 t.2)++[.submit 1 (.ok ())])

def pushed (listenerFd : ℤ) (log : List Event) : State :=
  ⟨.submit,[⟨listenerFd,sockCloexec,acceptToken⟩],[],[],[],log⟩

def waiting (listenerFd : ℤ) (log : List Event) : State :=
  ⟨.wait,[],[⟨listenerFd,sockCloexec,acceptToken⟩],[],[],log⟩

theorem run_interrupted (listenerFd : ℤ) (log : List Event) (n : ℕ) :
    run (step listenerFd) (waiting listenerFd log)
      (List.replicate n (.wait 0 (.error .interrupted))) = some (waiting listenerFd log) := by
  induction n with
  | zero => rfl
  | succ n ih => exact ih

theorem run_turn (listenerFd : ℤ) (log : List Event) (n : ℕ) (o : Outcome) :
    run (step listenerFd) (pushed listenerFd log) (turn n o) =
      some (pushed listenerFd (log++.delivered o.answer.result::(reaction o++[.armed]))) := by
  rw [turn, run_cons]
  show run (step listenerFd) (waiting listenerFd log) _ = _
  rw [run_append, run_interrupted, ← onResult_eq, Option.bind_some]
  by_cases hresult : 0 ≤ o.answer.result
  · simp [step, waiting, complete, submitAndWait, consume, handle, AcceptRing.push, pushAccept, pushed,
      sqEntries, hresult]
  · simp [step, waiting, complete, submitAndWait, consume, handle, AcceptRing.push, pushAccept, pushed,
      sqEntries, hresult]

theorem run_schedule (listenerFd : ℤ) (turns : List (ℕ × Outcome)) :
    run (step listenerFd) start (schedule turns) =
      some (waiting listenerFd (runIoUring (turns.map Prod.snd))) := by
  have hturns : ∀ (log : List Event), run (step listenerFd) (pushed listenerFd (log++[.armed]))
      (turns.flatMap fun t => turn t.1 t.2) =
        some (pushed listenerFd (log++runIoUring (turns.map Prod.snd))) := by
    induction turns with
    | nil => exact fun log => rfl
    | cons t turns ih =>
      intro log
      rw [List.flatMap_cons, run_append, run_turn, Option.bind_some]
      have hrest := ih (log++.armed::.delivered t.2.answer.result::reaction t.2)
      simpa [runIoUring] using hrest
  rw [schedule, run_cons]
  show run (step listenerFd) (pushed listenerFd [.armed]) _ = _
  rw [run_append, show ([.armed] : List Event) = []++[.armed] from rfl, hturns]
  rfl

theorem turn_undisturbed (n : ℕ) (o : Outcome) : ∀ a ∈ turn n o, Undisturbed a := by
  refine List.forall_mem_cons.mpr ⟨rfl,List.forall_mem_append.mpr ⟨?_,?_⟩⟩
  · intro a ha
    obtain rfl := List.eq_of_mem_replicate ha
    exact .inr rfl
  · simp [Undisturbed]

theorem schedule_undisturbed (turns : List (ℕ × Outcome)) :
    ∀ a ∈ schedule turns, Undisturbed a := by
  refine List.forall_mem_cons.mpr ⟨trivial,List.forall_mem_append.mpr ⟨?_,?_⟩⟩
  · intro a ha
    obtain ⟨t,-,hturn⟩ := List.mem_flatMap.mp ha
    exact turn_undisturbed t.1 t.2 a hturn
  · exact List.forall_mem_singleton.mpr rfl

theorem run_not_exited {listenerFd : ℤ} {s : State} {acts : List Act}
    (hacts : ∀ a ∈ acts, Undisturbed a) (h : run (step listenerFd) start acts = some s) :
    ∀ e, s.pc ≠ .exited e := by
  have hboth : Inv s ∧ ∀ e, s.pc ≠ .exited e := by
    refine run_invariant (P := fun s => Inv s ∧ ∀ e, s.pc ≠ .exited e) ?_ h ⟨inv_start,?_⟩
    · rintro s s' a ha ⟨hinv,hs⟩ hstep
      exact ⟨hinv.step hstep,step_not_exited (hacts a ha) hinv hs hstep⟩
    · simp [start]
  exact hboth.2

/-- As long as no call fails but by an interruption, the loop over the ring does
not end, and what it does is a function of the outcomes; every sequence of
outcomes comes up, with any interruptions. The blocking loop does the same
exactly where no outcome is a transient failure or has a close that fails. -/
theorem accept_loops_alike (listenerFd : ℤ) :
    (∀ (acts : List Act) (s : State), (∀ a ∈ acts, Undisturbed a) →
      run (step listenerFd) start acts = some s → (∀ e, s.pc ≠ .exited e) ∧
        (s.pc = .wait → s.cq = [] → ∃ os : List Outcome,
          os.map Outcome.answer = acts.filterMap answered ∧ s.log = runIoUring os)) ∧
    (∀ turns : List (ℕ × Outcome), (∀ a ∈ schedule turns, Undisturbed a) ∧
      ∃ s, run (step listenerFd) start (schedule turns) = some s ∧ s.pc = .wait ∧ s.cq = [] ∧
        s.log = runIoUring (turns.map Prod.snd)) ∧
    ∀ os : List Outcome, runIoUring os = runBlocking (os.map Outcome.answer) ↔ ∀ o ∈ os, Alike o := by
  refine ⟨?_,?_,runIoUring_eq_iff⟩
  · intro acts s hacts h
    exact ⟨run_not_exited hacts h,run_log h⟩
  · intro turns
    exact ⟨schedule_undisturbed turns,_,run_schedule listenerFd turns,rfl,rfl,rfl⟩

theorem accept_loops_alike_connection : ∃ s,
    run (step 3) start (schedule [(2,⟨.accepted 7,.ok ()⟩)]) = some s ∧
    (∀ e, s.pc ≠ .exited e) ∧ s.log = runBlocking [.accepted 7] := by
  obtain ⟨hrun,hturns,hiff⟩ := accept_loops_alike 3
  obtain ⟨hacts,s,hs,-,-,hlog⟩ := hturns [(2,⟨.accepted 7,.ok ()⟩)]
  refine ⟨s,hs,(hrun _ s hacts hs).1,?_⟩
  rw [hlog]
  exact (hiff [⟨.accepted 7,.ok ()⟩]).mpr (by simp [Alike])

/-- A transient failure is taken up at once, without a warning or a sleep. -/
theorem transient_failure_at_once : ¬ ∀ (turns : List (ℕ × Outcome)) (s : State),
    run (step 3) start (schedule turns) = some s →
      s.log = runBlocking (turns.map fun t => t.2.answer) := by
  intro h
  have hlog := h [(0,⟨.failed ⟨11,by decide⟩,.ok ()⟩)] _ rfl
  exact absurd hlog (by decide)

end WireProbe.AcceptParity
