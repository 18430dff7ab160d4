import WireProbe.AcceptParity

/-!
# Progress of the accept loop

The loop is never stuck: short of its exit it always has a call to make. A
completion in the ring is handled and the next accept armed within six of the
loop's own steps, interruptions aside; and only a call that fails otherwise
makes it exit, with the error of that call.
-/

set_option autoImplicit false

namespace WireProbe.AcceptProgress
open WireProbe.Transitions WireProbe.AcceptRing WireProbe.AcceptParity

/-- A step of the program that gets on: no completion by the kernel, and no
wait that is interrupted. -/
def advancing : Act → Bool
  | .complete _ _ => false
  | .wait _ (.error .interrupted) => false
  | _ => true

/-- How many steps of the program are left to the next accept, when there is a
completion or it has been handled. -/
def Pc.left : Pc → ℕ
  | .push => 1
  | .drain [] true => 2
  | .drain [] false => 6
  | .drain (_::_) _ => 3
  | .completion => 4
  | .wait => 5
  | .submit => 6
  | .exited _ => 0

/-- A completion waits to be handled, or the accept for the next to be pushed. -/
def Due (s : State) : Prop := s.pending ≠ [] ∨ s.pc.outstanding = 0

theorem Due.cq {s : State} (h : Due s) {pc : Pc} (hpc : s.pc = pc) (hbatch : pc.batch = [])
    (hout : pc.outstanding = 1) : s.cq ≠ [] := by
  rcases h with hpending | hidle
  · simpa [State.pending, hpc, hbatch] using hpending
  · rw [hpc, hout] at hidle
    cases hidle

/-- A completion stays where it is while the program goes to wait for it. -/
theorem Due.waiting {s s' : State} (h : Due s) {pc : Pc} (hpc : s.pc = pc) (hbatch : pc.batch = [])
    (hout : pc.outstanding = 1) (hcq : s'.cq = s.cq) (hbatch' : s'.pc.batch = []) : Due s' :=
  .inl (by simpa [State.pending, hbatch', hcq] using h.cq hpc hbatch hout)

structure Busy (n : ℕ) (s : State) : Prop where
  inv : Inv s
  running : ∀ e, s.pc ≠ .exited e
  due : Due s
  armed : s.log.count .armed = n

theorem onResult_not_armed (result : ℤ) (close : Except ℤ Unit) :
    (onResult result close).count .armed = 0 := by
  refine List.count_eq_zero.mpr ?_
  simp only [onResult]
  split_ifs
  · cases close <;> simp
  · simp
  · simp

/-- Nothing that is due is with the kernel any more. -/
theorem Busy.kernel_nil {n : ℕ} {s : State} (h : Busy n s) : s.kernel = [] := by
  have hload := h.inv.load
  have hone := s.pc.outstanding_le
  rcases h.due with hpending | hout
  · have hpos := List.length_pos_of_ne_nil hpending
    exact List.length_eq_zero_iff.mp (by omega)
  · exact List.length_eq_zero_iff.mp (by omega)

theorem busy_step {listenerFd : ℤ} {n : ℕ} {s s' : State} {a : Act} (ha : Undisturbed a)
    (h : Busy n s) (hstep : step listenerFd s a = some s') :
    s'.log.count .armed = n+1 ∨
      Busy n s' ∧ Pc.left s'.pc+(if advancing a then 1 else 0) ≤ Pc.left s.pc := by
  have hinv := h.inv.step hstep
  have hrunning := step_not_exited ha h.inv h.running hstep
  cases step_moves hstep with
  | push hpc =>
    left
    simp [AcceptRing.push, (h.inv.push hpc listenerFd).1, h.armed]
  | submit hpc consumed answer =>
    obtain rfl : answer = .ok () := ha
    refine .inr ⟨⟨hinv,hrunning,h.due.waiting hpc rfl rfl rfl rfl,h.armed⟩,?_⟩
    simp [AcceptRing.submit, hpc, Pc.left, advancing]
  | wait hpc consumed answer =>
    rcases ha with rfl | rfl
    · refine .inr ⟨⟨hinv,hrunning,h.due.waiting hpc rfl rfl rfl rfl,h.armed⟩,?_⟩
      simp [submitAndWait, hpc, Pc.left, advancing]
    · refine .inr ⟨⟨hinv,hrunning,h.due.waiting hpc rfl rfl rfl rfl,h.armed⟩,?_⟩
      simp [submitAndWait, hpc, Pc.left, advancing]
  | completion hpc =>
    obtain ⟨cqe,rest,hcq⟩ := List.exists_cons_of_ne_nil (h.due.cq hpc rfl rfl)
    refine .inr ⟨⟨hinv,hrunning,.inl (by simp [State.pending, Pc.batch, hcq]),h.armed⟩,?_⟩
    simp [hpc, hcq, Pc.left, advancing]
  | @next cqe rest rearm hpc close =>
    obtain ⟨answer,rfl⟩ := h.inv.cqes cqe (by simp [State.pending, hpc, Pc.batch])
    have hrest : rest = [] := by
      have hload := h.inv.load
      have hone := s.pc.outstanding_le
      rw [State.pending, hpc] at hload
      simp only [Pc.batch, List.cons_append, List.length_cons, List.length_append, hpc] at hload hone
      exact List.length_eq_zero_iff.mp (by omega)
    subst hrest
    refine .inr ⟨⟨hinv,hrunning,.inr ?_,?_⟩,?_⟩
    · simp [handle, Pc.outstanding]
    · simp [handle, h.armed, onResult_not_armed]
    · simp [handle, hpc, Pc.left, advancing]
  | @finish rearm hpc =>
    cases rearm with
    | true => exact .inr ⟨⟨hinv,hrunning,.inr rfl,h.armed⟩,by simp [hpc, Pc.left, advancing]⟩
    | false =>
      refine .inr ⟨⟨hinv,hrunning,h.due.waiting hpc rfl rfl rfl rfl,h.armed⟩,?_⟩
      simp [hpc, Pc.left, advancing]
  | complete hsqe answer => simp [h.kernel_nil] at hsqe

theorem step_armed {listenerFd : ℤ} {s s' : State} {a : Act} (hstep : step listenerFd s a = some s') :
    s.log.count .armed ≤ s'.log.count .armed := by
  have hlog : s.log <+: s'.log := by
    cases step_moves hstep with
    | push hpc =>
      unfold AcceptRing.push
      split
      · exact List.prefix_append _ _
      · exact List.prefix_refl _
    | submit hpc consumed answer => exact List.prefix_refl _
    | wait hpc consumed answer => exact List.prefix_refl _
    | completion hpc => exact List.prefix_refl _
    | next hpc close =>
      unfold handle
      split
      · exact List.prefix_append _ _
      · exact List.prefix_refl _
    | finish hpc => exact List.prefix_refl _
    | complete hsqe answer => exact List.prefix_append _ _
  exact hlog.sublist.count_le _

theorem left_le (pc : Pc) : Pc.left pc ≤ 6 := by
  unfold Pc.left
  split <;> simp

theorem left_pos {pc : Pc} (h : ∀ e, pc ≠ .exited e) : 0 < Pc.left pc := by
  unfold Pc.left
  split <;> simp_all

/-- Within six steps that get on, the completion is handled and the accept for
the next one armed. -/
theorem rearmed {listenerFd : ℤ} {s t : State} {acts : List Act} (hinv : Inv s)
    (hrunning : ∀ e, s.pc ≠ .exited e) (hdue : Due s) (hacts : ∀ a ∈ acts, Undisturbed a)
    (h : run (step listenerFd) s acts = some t) (hcount : 6 ≤ acts.countP advancing) :
    s.log.count .armed < t.log.count .armed := by
  have hstep : ∀ u u', ∀ a ∈ acts, Busy (s.log.count .armed) u → step listenerFd u a = some u' →
      s.log.count .armed < u'.log.count .armed ∨ Busy (s.log.count .armed) u' ∧
        Pc.left u'.pc+(if advancing a then 1 else 0) ≤ Pc.left u.pc :=
    fun u u' a ha hu hstep => (busy_step (hacts a ha) hu hstep).imp_left fun harmed => by omega
  have hdone : ∀ u u', ∀ a ∈ acts, s.log.count .armed < u.log.count .armed →
      step listenerFd u a = some u' → s.log.count .armed < u'.log.count .armed :=
    fun u u' a _ hu hstep => lt_of_lt_of_le hu (step_armed hstep)
  have hrun : _ ∨ Busy _ t ∧ Pc.left t.pc+acts.countP advancing ≤ Pc.left s.pc :=
    run_progress hstep hdone h ⟨hinv,hrunning,hdue,rfl⟩
  rcases hrun with harmed | ⟨hbusy,hrank⟩
  · exact harmed
  · have hle := left_le s.pc
    have hpos := left_pos hbusy.running
    omega

/-! ### No dead end -/

/-- A call the program can make next, when nothing disturbs it. -/
def Pc.call : Pc → Act
  | .push => .push
  | .submit => .submit 1 (.ok ())
  | .wait => .wait 0 (.ok ())
  | .completion => .completion
  | .drain (_::_) _ => .next (.ok ())
  | .drain [] _ => .finish
  | .exited _ => .finish

theorem call_enabled (listenerFd : ℤ) (s : State) (hrunning : ∀ e, s.pc ≠ .exited e) :
    advancing (Pc.call s.pc) = true ∧ Undisturbed (Pc.call s.pc) ∧
      (step listenerFd s (Pc.call s.pc)).isSome = true := by
  cases hpc : s.pc with
  | push => simp [Pc.call, advancing, Undisturbed, step, hpc]
  | submit => simp [Pc.call, advancing, Undisturbed, step, hpc]
  | wait => simp [Pc.call, advancing, Undisturbed, step, hpc]
  | completion => simp [Pc.call, advancing, Undisturbed, step, hpc]
  | drain batch rearm => cases batch <;> simp [Pc.call, advancing, Undisturbed, step, hpc]
  | exited e => exact absurd hpc (hrunning e)

/-! ### The exit -/

/-- A call of the ring that fails for good. -/
def FailsWith (e : ErrorKind) : Act → Prop
  | .submit _ answer => answer = .error e
  | .wait _ answer => answer = .error e ∧ e ≠ .interrupted
  | _ => False

theorem exit_step {listenerFd : ℤ} {s s' : State} {a : Act} (hinv : Inv s)
    (hrunning : ∀ e, s.pc ≠ .exited e) (hstep : step listenerFd s a = some s') {e : ErrorKind}
    (he : s'.pc = .exited e) : FailsWith e a := by
  cases step_moves hstep with
  | push hpc => simp [AcceptRing.push, (hinv.push hpc listenerFd).1] at he
  | submit hpc consumed answer =>
    cases answer with
    | ok => simp [AcceptRing.submit] at he
    | error e' => simpa [AcceptRing.submit, FailsWith] using he
  | wait hpc consumed answer =>
    rcases answer with (_ | _ | _) | _ <;> simp [submitAndWait, FailsWith] at he ⊢
    · exact ⟨he,he ▸ by simp⟩
    · exact ⟨he,he ▸ by simp⟩
  | completion hpc => cases he
  | next hpc close =>
    unfold handle at he
    split at he <;> cases he
  | @finish rearm hpc => cases rearm <;> cases he
  | complete hsqe answer => exact absurd he (hrunning e)

/-- Past its exit only the kernel moves. -/
theorem exited_step {listenerFd : ℤ} {s s' : State} {a : Act} {e : ErrorKind}
    (hpc : s.pc = .exited e) (hstep : step listenerFd s a = some s') :
    s'.pc = .exited e ∧ ∃ i answer, a = .complete i answer := by
  cases step_moves hstep with
  | complete hsqe answer => exact ⟨hpc,_,_,rfl⟩
  | _ => simp_all

theorem exited_run {listenerFd : ℤ} {s t : State} {acts : List Act} {e : ErrorKind}
    (hpc : s.pc = .exited e) (h : run (step listenerFd) s acts = some t) :
    t.pc = .exited e ∧ ∀ a ∈ acts, ∃ i answer, a = .complete i answer := by
  induction acts generalizing s with
  | nil => exact ⟨Option.some.inj h ▸ hpc,by simp⟩
  | cons a acts ih =>
    obtain ⟨s',hs',hrest⟩ := Option.bind_eq_some_iff.mp h
    obtain ⟨hpc',hkernel⟩ := exited_step hpc hs'
    obtain ⟨ht,hacts⟩ := ih hpc' hrest
    exact ⟨ht,List.forall_mem_cons.mpr ⟨hkernel,hacts⟩⟩

theorem exit_run {listenerFd : ℤ} {s t : State} {acts : List Act} {e : ErrorKind} (hinv : Inv s)
    (hrunning : ∀ e, s.pc ≠ .exited e) (h : run (step listenerFd) s acts = some t)
    (he : t.pc = .exited e) : ∃ before a after, acts = before++a::after ∧ FailsWith e a ∧
      ∀ b ∈ after, ∃ i answer, b = .complete i answer := by
  induction acts generalizing s with
  | nil => exact absurd (Option.some.inj h ▸ he) (hrunning e)
  | cons a acts ih =>
    obtain ⟨s',hs',hrest⟩ := Option.bind_eq_some_iff.mp h
    by_cases hexited : ∃ e', s'.pc = .exited e'
    · obtain ⟨e',he'⟩ := hexited
      obtain ⟨ht,hacts⟩ := exited_run he' hrest
      obtain rfl : e' = e := Pc.exited.inj (ht.symm.trans he)
      exact ⟨[],a,acts,rfl,exit_step hinv hrunning hs' he',hacts⟩
    · obtain ⟨before,b,after,rfl,hb,hafter⟩ := ih (hinv.step hs')
        (fun e' he' => hexited ⟨e',he'⟩) hrest
      exact ⟨a::before,b,after,rfl,hb,hafter⟩

/-- A call that fails for good is the exit. -/
theorem fails_step {listenerFd : ℤ} {s s' : State} {a : Act} {e : ErrorKind} (ha : FailsWith e a)
    (hstep : step listenerFd s a = some s') : s'.pc = .exited e := by
  cases step_moves hstep with
  | submit hpc consumed answer =>
    obtain rfl : answer = .error e := ha
    rfl
  | wait hpc consumed answer =>
    obtain ⟨rfl,he⟩ := ha
    cases e with
    | interrupted => exact absurd rfl he
    | wouldBlock => rfl
    | other kind => rfl
  | _ => exact ha.elim

theorem fails_run {listenerFd : ℤ} {s t : State} {before after : List Act} {a : Act} {e : ErrorKind}
    (ha : FailsWith e a) (h : run (step listenerFd) s (before++a::after) = some t) :
    t.pc = .exited e := by
  obtain ⟨mid,-,hrest⟩ := run_split h
  obtain ⟨s',hs',hafter⟩ := Option.bind_eq_some_iff.mp hrest
  exact (exited_run (fails_step ha hs') hafter).1

/-- From every state a run reaches: short of its exit the loop can make its
next call; with a completion in the ring it takes at most six steps to arm the
next accept; and it exits exactly where `submit` fails, or `submit_and_wait`
other than by an interruption, with that error and for good. -/
theorem loop_progresses (listenerFd : ℤ) (s : State) (h : Reachable (step listenerFd) start s) :
    ((∀ e, s.pc ≠ .exited e) → ∃ a, advancing a = true ∧ Undisturbed a ∧
      (step listenerFd s a).isSome = true) ∧
    (∀ acts t, (∀ e, s.pc ≠ .exited e) → s.pending ≠ [] → (∀ a ∈ acts, Undisturbed a) →
      run (step listenerFd) s acts = some t → 6 ≤ acts.countP advancing →
      s.log.count .armed < t.log.count .armed) ∧
    ∀ e acts, run (step listenerFd) start acts = some s →
      (s.pc = .exited e ↔ ∃ a ∈ acts, FailsWith e a) ∧
      (s.pc = .exited e → ∃ before a after, acts = before++a::after ∧ FailsWith e a ∧
        ∀ b ∈ after, ∃ i answer, b = .complete i answer) := by
  have hinv := inv_reachable h
  refine ⟨fun hrunning => ⟨_,call_enabled listenerFd s hrunning⟩,?_,?_⟩
  · intro acts t hrunning hpending hacts hrun hcount
    exact rearmed hinv hrunning (.inl hpending) hacts hrun hcount
  · intro e acts hrun
    have hexit := exit_run (e := e) inv_start (by simp [start]) hrun
    refine ⟨⟨?_,?_⟩,hexit⟩
    · intro he
      obtain ⟨before,a,after,rfl,ha,-⟩ := hexit he
      exact ⟨a,by simp,ha⟩
    · rintro ⟨a,ha,hfails⟩
      obtain ⟨before,after,rfl⟩ := List.append_of_mem ha
      exact fails_run hfails hrun

/-- A connection is there before the program waits. -/
def arriving : List Act := [.push,.submit 1 (.ok ()),.complete 0 (.accepted 7)]

/-- The round of that connection, its wait interrupted twice. -/
def serving : List Act :=
  [.wait 0 (.error .interrupted),.wait 0 (.error .interrupted),.wait 0 (.ok ()),.completion,
    .next (.ok ()),.finish,.push,.submit 1 (.ok ())]

theorem loop_progresses_interrupted : ∃ s t, run (step 3) start arriving = some s ∧
    run (step 3) s serving = some t ∧ s.log.count .armed < t.log.count .armed := by
  obtain ⟨-,hrearmed,-⟩ := loop_progresses 3 _ ⟨arriving,rfl⟩
  exact ⟨_,_,rfl,rfl,hrearmed serving _ (by rintro e ⟨⟩) (by decide)
    (by simp [serving, Undisturbed]) rfl (by decide)⟩

end WireProbe.AcceptProgress
