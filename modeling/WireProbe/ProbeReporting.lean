import WireProbe.ProbeLoop

/-!
# Reports of the probe loop

Every turn of the running loop calls the exporter once, with the outcome of
its own handshake, and only a closed stdout ends the loop. What the exports
answer reaches neither the selection nor the countdown: two runs over the same
handshakes and resolver answers probe the same addresses while both last.
-/

set_option autoImplicit false

namespace WireProbe.ProbeReporting
open WireProbe.Transducer WireProbe.AddressRotation WireProbe.Collectd WireProbe.ProbeLoop

variable {α E R : Type*}

/-! ### Reading off a list of actions -/

def exports (actions : List (Action α E R)) : List (Report R × Except ErrorKind Unit) :=
  actions.filterMap fun
    | .exported r sent => some (r,sent)
    | _ => none

def probed (actions : List (Action α E R)) : List α :=
  actions.filterMap fun
    | .connect addr => some addr
    | _ => none

@[simp] theorem exports_append (as bs : List (Action α E R)) :
    exports (as++bs) = exports as++exports bs := List.filterMap_append

@[simp] theorem probed_append (as bs : List (Action α E R)) :
    probed (as++bs) = probed as++probed bs := List.filterMap_append

@[simp] theorem exports_exported (r : Report R) (sent : Except ErrorKind Unit)
    (as : List (Action α E R)) : exports (.exported r sent::as) = (r,sent)::exports as := rfl

@[simp] theorem exports_connect (addr : α) (as : List (Action α E R)) :
    exports (.connect addr::as) = exports as := rfl

@[simp] theorem probed_exported (r : Report R) (sent : Except ErrorKind Unit)
    (as : List (Action α E R)) : probed (.exported r sent::as) = probed as := rfl

@[simp] theorem probed_connect (addr : α) (as : List (Action α E R)) :
    probed (.connect addr::as) = addr::probed as := rfl

theorem closing_plain {actions : List (Action α E R)} (h : ∀ a ∈ actions, a.Closing) :
    exports actions = [] ∧ probed actions = [] ∧ .reresolve ∉ actions := by
  refine ⟨List.filterMap_eq_nil_iff.mpr ?_,List.filterMap_eq_nil_iff.mpr ?_,fun hmem => h _ hmem⟩
  · intro a ha
    cases a with
    | exported r sent => exact (h _ ha).elim
    | _ => rfl
  · intro a ha
    cases a with
    | connect addr => exact (h _ ha).elim
    | _ => rfl

variable [LinearOrder α]

theorem recovery_plain (p : Progress α) (t : Tick α E R) :
    exports (recovery p t) = [] ∧ probed (recovery p t) = [] := by
  unfold recovery
  cases t.measured with
  | ok rttMs => exact ⟨rfl,rfl⟩
  | error e =>
    by_cases hleft : p.left-1 = 0
    · simp [hleft, exports, probed, List.filterMap_map]
    · simp [hleft, exports, probed]

/-! ### One turn -/

section Turn
variable (ryu : R → Bytes) (dst : ExportDst)

/-- The report of a turn from `l`: one call of the exporter, decided by the
handshake, and the end of the loop right after it where it found stdout closed. -/
def Reports (l : Loop α) (t : Tick α E R) (l' : Loop α) (actions : List (Action α E R)) : Prop :=
  ∃ r sent, exports actions = [(r,sent)] ∧ (l'.exporter,sent) = l.exporter.call ryu t.io r ∧
    (∀ rttMs, r = .send rttMs t.tsNs ↔ t.measured = .ok rttMs) ∧
    (r = .sendFailure t.tsNs ↔ ∃ e, t.measured = .error e) ∧
    (l'.ended = true ↔ sent = .error .brokenPipe ∧ dst = .collectdExec) ∧
    (l'.ended = true → ∃ earlier, actions = earlier++[.exported r sent,.stdoutClosed])

variable {ryu dst} {l l' : Loop α} {t : Tick α E R} {actions : List (Action α E R)}

theorem turn_exports (h : Turn ryu dst l t l' actions) :
    exports actions = [(reported t,sent ryu l t)] := by
  obtain ⟨rest,rfl,hclosing,-⟩ := h.actions
  simp [(recovery_plain _ _).1, (closing_plain hclosing).1]

theorem turn_probed (h : Turn ryu dst l t l' actions) : probed actions = [l.selection.current] := by
  obtain ⟨rest,rfl,hclosing,-⟩ := h.actions
  simp [(recovery_plain _ _).2, (closing_plain hclosing).2.1]

theorem turn_reresolve (h : Turn ryu dst l t l' actions) :
    .reresolve ∈ actions ↔ .reresolve ∈ recovery l.progress t := by
  obtain ⟨rest,rfl,hclosing,-⟩ := h.actions
  simp [(closing_plain hclosing).2.2]

theorem turn_reports (h : Turn ryu dst l t l' actions) : Reports ryu dst l t l' actions := by
  refine ⟨reported t,sent ryu l t,turn_exports h,?_,?_,?_,?_,?_⟩
  · rw [h.exporter]
    rfl
  · intro rttMs
    unfold reported
    cases t.measured <;> simp
  · unfold reported
    cases t.measured <;> simp
  · rw [h.ended, and_comm]
  · intro hended
    obtain ⟨rest,hactions,-,hrest⟩ := h.actions
    rw [hactions, hrest hended]
    exact ⟨_,rfl⟩

end Turn

/-! ### Whole runs -/

section Runs
variable (ryu : R → Bytes) (dst : ExportDst) (interval : ℕ)

/-- A run ends exactly where an export of the Exec destination finds stdout
closed. -/
theorem ended_iff (l : Loop α) (hl : l.ended = false) (ts : List (Tick α E R)) :
    (final (step ryu dst interval) l ts).ended = true ↔ dst = .collectdExec ∧
      ∃ r, (r,.error .brokenPipe) ∈ exports (outputs (step ryu dst interval) l ts).flatten := by
  induction ts generalizing l with
  | nil => simp [hl, exports]
  | cons t ts ih =>
    have hturn := step_turn ryu dst interval l t hl
    rw [final_cons, outputs_cons, List.flatten_cons, exports_append, turn_exports hturn]
    cases hnext : (step ryu dst interval l t).1.ended with
    | true =>
      obtain ⟨hdst,hsent⟩ := hturn.ended.mp hnext
      rw [final_ended ryu dst interval ts hnext, hnext, hsent]
      exact iff_of_true rfl ⟨hdst,reported t,by simp⟩
    | false =>
      have hsent : dst = .collectdExec → sent ryu l t ≠ .error .brokenPipe := by
        intro hdst hsent
        rw [hturn.ended.mpr ⟨hdst,hsent⟩] at hnext
        cases hnext
      rw [ih _ hnext]
      apply and_congr_right
      intro hdst
      simp [(hsent hdst).symm]

/-- What the handshake and the resolver answer. -/
def answers (t : Tick α E R) : Except E R × Except E (List α) := (t.measured,t.answer)

theorem rotationStep_answers (p : Progress α) (t t' : Tick α E R) (h : answers t = answers t') :
    rotationStep p t = rotationStep p t' := by
  obtain ⟨hmeasured,hanswer⟩ := Prod.mk.inj h
  rw [rotationStep, rotationStep, advance, advance, recovery, recovery, hmeasured, hanswer]

theorem before_progress (l : Loop α) (ts : List (Tick α E R)) (k : ℕ)
    (h : (before ryu dst interval l ts k).ended = false) :
    (before ryu dst interval l ts k).progress = final rotationStep l.progress (ts.take k) :=
  final_progress ryu dst interval l (ts.take k) h

/-- Each turn reports its own handshake once, the loop ends on a closed stdout
only, and a second run over the same handshakes and resolver answers, whatever
its exports answer, goes through the same selections and countdowns and probes
and resolves alike in every turn that both take. -/
theorem reports_noninterference (l : Loop α) (hl : l.ended = false) (ts : List (Tick α E R)) :
    (∀ k, ∀ hk : k < ts.length, (before ryu dst interval l ts k).ended = false →
      Reports ryu dst (before ryu dst interval l ts k) ts[k]
        (step ryu dst interval (before ryu dst interval l ts k) ts[k]).1
        (step ryu dst interval (before ryu dst interval l ts k) ts[k]).2) ∧
    ((final (step ryu dst interval) l ts).ended = true ↔ dst = .collectdExec ∧
      ∃ r, (r,.error .brokenPipe) ∈ exports (outputs (step ryu dst interval) l ts).flatten) ∧
    ∀ (dst' : ExportDst) (interval' : ℕ) (l' : Loop α) (ts' : List (Tick α E R)),
      l'.progress = l.progress → ts'.map answers = ts.map answers →
      ∀ k, ∀ hk : k < ts.length, ∀ hk' : k < ts'.length,
        let s := before ryu dst interval l ts k
        let s' := before ryu dst' interval' l' ts' k
        s.ended = false → s'.ended = false →
        s'.progress = s.progress ∧
        (step ryu dst' interval' s' ts'[k]).1.progress =
          (step ryu dst interval s ts[k]).1.progress ∧
        probed (step ryu dst' interval' s' ts'[k]).2 = probed (step ryu dst interval s ts[k]).2 ∧
        (.reresolve ∈ (step ryu dst' interval' s' ts'[k]).2 ↔
          .reresolve ∈ (step ryu dst interval s ts[k]).2) := by
  refine ⟨fun k hk hrun => turn_reports (step_turn ryu dst interval _ _ hrun),
    ended_iff ryu dst interval l hl ts,?_⟩
  intro dst' interval' l' ts' hprogress hanswers k hk hk' s s' hs hs'
  have hsame : s'.progress = s.progress := by
    rw [before_progress ryu dst interval l ts k hs,
      before_progress ryu dst' interval' l' ts' k hs', hprogress]
    apply final_congr answers
    · intro p t t' h
      rw [rotationStep_answers p t t' h]
    · rw [List.map_take, List.map_take, hanswers]
  have hanswer : answers ts'[k] = answers ts[k] := by
    have := congrArg (fun as => as[k]?) hanswers
    simpa [hk, hk'] using this
  have hstep := rotationStep_answers s.progress ts'[k] ts[k] hanswer
  have hturn := step_turn ryu dst interval s ts[k] hs
  have hturn' := step_turn ryu dst' interval' s' ts'[k] hs'
  refine ⟨hsame,?_,?_,?_⟩
  · rw [hturn.progress, hturn'.progress, hsame]
    exact congrArg Prod.fst hstep
  · rw [turn_probed hturn, turn_probed hturn']
    exact congrArg (fun p : Progress α => [p.selection.current]) hsame
  · rw [turn_reresolve hturn, turn_reresolve hturn', hsame]
    exact Iff.of_eq (congrArg (.reresolve ∈ ·.2) hstep)

theorem reports_noninterference_closed :
    (final (step (fun _ : ℕ => []) .collectdExec 10) launched
      [refused (.error ()) (.ok ()),refused (.error ()) (.error .brokenPipe)]).ended = true :=
  (reports_noninterference (fun _ : ℕ => []) .collectdExec 10 launched rfl
    [refused (.error ()) (.ok ()),refused (.error ()) (.error .brokenPipe)]).2.1.mpr
    ⟨rfl,.sendFailure 0,.tail _ (.head _)⟩

end Runs

end WireProbe.ProbeReporting
