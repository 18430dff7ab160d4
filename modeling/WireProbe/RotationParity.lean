import WireProbe.EarnedRotation
import WireProbe.ProbeRotation

/-!
# The two rotations in step

The Rust loop counts down and resolves only to rotate; the plugin counts up
and resolves in every cycle. While the resolver keeps answering with one set of
addresses the countdown is five less the count modulo five, and the two leave
the address they have selected in the same cycles.
-/

set_option autoImplicit false

namespace WireProbe.RotationParity
open WireProbe.CyclicOrder WireProbe.Transducer WireProbe.AddressRotation WireProbe.Collectd
open WireProbe.PluginRotation WireProbe.EarnedRotation WireProbe.ProbeLoop
open WireProbe.ProbeReporting WireProbe.ProbeRotation

variable {α A E R Key : Type*} [LinearOrder α] [LinearOrder A]

/-- A turn of the Rust loop and the resolver's answer to the plugin in the
same cycle. -/
abbrev Cycle (α A E R : Type*) := Tick α E R × List A

/-- The plugin's cycle, with the outcome of the handshake of the turn. -/
def pluginInput (c : Cycle α A E R) : List A × Bool := (c.2,!failed c.1)

/-- Both resolvers answer with the addresses of `S`, in whatever order; `f`
takes an address of the plugin to the same address in the Rust probe. -/
def Steady (f : A → α) (S : Finset A) (c : Cycle α A E R) : Prop :=
  (∃ fresh, c.1.answer = .ok fresh ∧ fresh.Nodup ∧ fresh.toFinset = S.image f) ∧
    c.2.Nodup ∧ c.2.toFinset = S

/-- The simulation relation. -/
structure InStep (f : A → α) (S : Finset A) (key : Key) (p : Progress α)
    (st : AddrState Key A) : Prop where
  choice : ∃ r : Choice α, p.selection = r.selection ∧ r.members = S.image f
  selected : ∀ a ∈ (entry st key).selected, a ∈ S
  countdown : p.left =
    reresolveAfterFailures-(entry st key).failures % reresolveAfterFailures
  few : 2 ≤ S.card → (entry st key).failures < rotateAfterFailures

section Step
variable {f : A → α} {S : Finset A} {key : Key} {p : Progress α} {st : AddrState Key A}
variable {c : Cycle α A E R}

theorem steady_cons (hS : S.Nonempty) (hc : Steady f S c) : ∃ first rest, c.2 = first::rest := by
  apply List.exists_cons_of_ne_nil
  intro hnil
  have hset := hc.2.2
  rw [hnil, List.toFinset_nil] at hset
  exact Finset.not_nonempty_empty (hset ▸ hS)

/-- The Rust probe leaves its address where the countdown runs out with another
address to go to. -/
theorem rust_moves_iff (hinj : Set.InjOn f S) (h : InStep f S key p st) (hc : Steady f S c) :
    (advance p c.1).selection.current ≠ p.selection.current ↔
      failed c.1 = true ∧ p.left-1 = 0 ∧ 2 ≤ S.card := by
  obtain ⟨r,hr,hmembers⟩ := h.choice
  obtain ⟨fresh,hanswer,-,hset⟩ := hc.1
  have hanswered : answered c.1.answer = fresh := by rw [hanswer]; rfl
  rw [advance_choice p c.1 r hr, hr, selection_current, selection_current]
  by_cases hleft : failed c.1 = true ∧ p.left-1 = 0
  · have hcard : (S.image f).card = S.card := Finset.card_image_of_injOn hinj
    have hselected : r.selected ∈ S.image f := hmembers ▸ r.selected_mem
    have hne : fresh ≠ [] := by
      rintro rfl
      rw [← hset] at hselected
      simp at hselected
    rw [if_pos hleft, hanswered, resolve_moves_iff, hset]
    simp only [hne, ne_eq, not_false_eq_true, true_and, hleft]
    rw [← ne_eq, ← Finset.nontrivial_iff_ne_singleton hselected,
      ← Finset.one_lt_card_iff_nontrivial, hcard]
    rfl
  · rw [if_neg hleft]
    simp only [ne_eq, not_true_eq_false, false_iff]
    rintro ⟨hfailed,hzero,-⟩
    exact hleft ⟨hfailed,hzero⟩

theorem steady_length (hc : Steady f S c) : c.2.length = S.card := by
  rw [← hc.2.2, List.toFinset_card_of_nodup hc.2.1]

variable [DecidableEq Key]

/-- The plugin leaves its address where its count completes with another
address to go to. -/
theorem plugin_moves_iff (hS : S.Nonempty) (hc : Steady f S c) :
    Moves key st (pluginInput c) ↔ failed c.1 = true ∧
      rotateAfterFailures ≤ (entry st key).failures+1 ∧ 2 ≤ S.card := by
  obtain ⟨first,rest,haddrs⟩ := steady_cons hS hc
  have hdue : ∃ a ∈ due st key c.2, c.2.count a = 1 := by
    rw [haddrs, due_cons]
    exact ⟨_,rfl,List.count_eq_one_of_mem (haddrs ▸ hc.2.1) (chosen_mem st key first rest)⟩
  rw [moves_iff key st _ (by rw [pluginInput, haddrs]; simp), Completes, pluginInput,
    steady_length hc]
  simp only [hdue, and_true, Bool.not_eq_false']

theorem moves_together (hinj : Set.InjOn f S) (h : InStep f S key p st) (hS : S.Nonempty)
    (hc : Steady f S c) :
    (advance p c.1).selection.current ≠ p.selection.current ↔ Moves key st (pluginInput c) := by
  rw [rust_moves_iff hinj h hc, plugin_moves_iff hS hc]
  apply and_congr_right
  intro _
  apply and_congr_left
  intro htwo
  have hfew := h.few htwo
  rw [h.countdown]
  simp only [reresolveAfterFailures, rotateAfterFailures] at hfew ⊢
  omega

/-- What one cycle preserves. -/
theorem inStep_cycle (h : InStep f S key p st) (hS : S.Nonempty) (hc : Steady f S c) :
    InStep f S key (advance p c.1) (cycle key st (pluginInput c)).1 := by
  obtain ⟨r,hr,hmembers⟩ := h.choice
  obtain ⟨fresh,hanswer,-,hset⟩ := hc.1
  obtain ⟨first,rest,haddrs⟩ := steady_cons hS hc
  have hlength := steady_length hc
  have hchosen := chosen_mem st key first rest
  have hcount : (first::rest).count (chosen st key first rest) = 1 :=
    List.count_eq_one_of_mem (haddrs ▸ hc.2.1) hchosen
  have hmem : ∀ a ∈ first::rest, a ∈ S := by
    intro a ha
    rw [← hc.2.2, List.mem_toFinset, haddrs]
    exact ha
  have hset' : (first::rest).toFinset = S := haddrs ▸ hc.2.2
  have hentry := cycle_entry st key first rest (!failed c.1)
  rw [if_pos hcount, hset'] at hentry
  have hcycle : cycle key st (pluginInput c) = cycle key st (first::rest,!failed c.1) := by
    rw [pluginInput, haddrs]
  have hfailures : (entry (cycle key st (pluginInput c)).1 key).failures =
      if failed c.1 = true ∧ ¬(rotateAfterFailures ≤ (entry st key).failures+1 ∧ 2 ≤ S.card) then
        (entry st key).failures+1 else 0 := by
    have hrest : rest = [] ↔ ¬ 2 ≤ S.card := by
      rw [← hlength, haddrs]
      cases rest <;> simp
    rw [hcycle, hentry]
    simp only [hrest, ← not_le, ← not_and_or, Bool.not_eq_true']
    cases failed c.1 with
    | false => simp
    | true => simp only [Bool.true_eq_false, if_false, true_and]; split_ifs <;> rfl
  refine ⟨?_,?_,?_,?_⟩
  · have hnonempty : fresh ≠ [] := by
      rintro rfl
      rw [List.toFinset_nil, eq_comm, Finset.image_eq_empty] at hset
      exact hS.ne_empty hset
    refine ⟨_,advance_choice p c.1 r hr,?_⟩
    split_ifs
    · rw [hanswer]
      exact (resolve_members r fresh hnonempty).trans hset
    · exact hmembers
  · intro a ha
    rw [hcycle, hentry] at ha
    split_ifs at ha with hok hfew
    · exact Option.some.inj ha ▸ hmem _ hchosen
    · exact Option.some.inj ha ▸ hmem _ hchosen
    · exact Option.some.inj ha ▸ next_mem hS _
  · rw [advance_left, h.countdown, hfailures]
    cases hfailed : failed c.1 with
    | false => simp
    | true =>
      have hfew := h.few
      simp only [reresolveAfterFailures, rotateAfterFailures, true_and] at hfew ⊢
      split_ifs <;> omega
  · intro htwo
    have hfew := h.few htwo
    rw [hfailures]
    simp only [htwo, and_true, rotateAfterFailures] at hfew ⊢
    split_ifs <;> omega

end Step

/-! ### Runs -/

section Runs
variable [DecidableEq Key] {f : A → α} {S : Finset A} {key : Key} {st : AddrState Key A}
variable {dst : ExportDst} {targetName az hostname : List Char} {intervalSecs : ℕ} {io : ExportIo}
variable {resolved : List α} {l : Loop α}

theorem launch_first (hl : launch dst targetName az hostname intervalSecs
    (.ok resolved : Except E (List α)) io = some l) :
    ∃ preferred rest, resolved = preferred::rest ∧
      l.progress = ⟨(Choice.first preferred rest).selection,reresolveAfterFailures⟩ := by
  cases resolved with
  | nil => simp [launch, resolve] at hl
  | cons preferred rest =>
    refine ⟨preferred,rest,rfl,?_⟩
    unfold launch at hl
    split at hl
    next resolved exporter hresolved hexporter =>
      obtain rfl : preferred::rest = resolved := Except.ok.inj hresolved
      rw [start_refines] at hl
      exact Option.some.inj hl ▸ rfl
    next => cases hl

omit [LinearOrder A] [DecidableEq Key] in
theorem launch_inStep (hl : launch dst targetName az hostname intervalSecs
    (.ok resolved : Except E (List α)) io = some l) (hresolved : resolved.toFinset = S.image f)
    (hst : st key = none) : InStep f S key l.progress st := by
  obtain ⟨preferred,rest,rfl,hprogress⟩ := launch_first hl
  have hentry : entry st key = ⟨none,0⟩ := by rw [entry, hst]; rfl
  rw [hprogress]
  refine ⟨⟨Choice.first preferred rest,rfl,hresolved⟩,?_,?_,?_⟩
  · rw [hentry]
    rintro a ⟨⟩
  · rw [hentry]
    rfl
  · rw [hentry]
    exact fun _ => Nat.succ_pos 4

/-- A cycle leaves an address selected, and the next one probes it. -/
theorem selection_kept (hS : S.Nonempty) {c d : Cycle α A E R} (hc : Steady f S c)
    (hd : Steady f S d) {st' : AddrState Key A} (hst' : st' = (cycle key st (pluginInput c)).1)
    (hselected : ∀ a ∈ (entry st' key).selected, a ∈ S) :
    (cycle key st' (pluginInput d)).2.1 = (entry st' key).selected := by
  obtain ⟨a,ha⟩ : ∃ a, (entry st' key).selected = some a := by
    obtain ⟨first,rest,haddrs⟩ := steady_cons hS hc
    rw [hst', pluginInput, haddrs, cycle_entry]
    split_ifs <;> exact ⟨_,rfl⟩
  obtain ⟨first,rest,haddrs⟩ := steady_cons hS hd
  have hmem : a ∈ first::rest := by
    rw [← haddrs, ← List.mem_toFinset, hd.2.2]
    exact hselected a ha
  rw [pluginInput, haddrs, cycle_probed, ha, chosen_present st' key first rest a ha hmem]

theorem inStep_run (p : Progress α) (h : InStep f S key p st) (hS : S.Nonempty)
    (cs : List (Cycle α A E R)) (hcs : ∀ c ∈ cs, Steady f S c) :
    InStep f S key (final rotationStep p (cs.map Prod.fst))
      (final (cycle key) st (cs.map pluginInput)) :=
  final_related (R := fun p st => InStep f S key p st) Prod.fst pluginInput cs
    (fun _ _ c hc h => inStep_cycle h hS (hcs c hc)) p st h

/-- Over resolvers that keep answering with the same addresses, and as long as
the Rust loop runs, the two probes start on the same address, leave the address
they have selected in the same cycles and keep it in between; a single address
is never left. -/
theorem rotate_in_step (ryu : R → Bytes) (interval : ℕ) (hS : S.Nonempty) (hinj : Set.InjOn f S)
    (hl : launch dst targetName az hostname intervalSecs (.ok resolved : Except E (List α)) io =
      some l) (hresolved : resolved.Nodup ∧ resolved.toFinset = S.image f) (hst : st key = none)
    (cs : List (Cycle α A E R)) (hcs : ∀ c ∈ cs, Steady f S c)
    (hfirst : ∀ c ∈ cs.head?, c.2.head?.map f = resolved.head?) (k : ℕ) (hk : k < cs.length) :
    let rust := fun k => (ProbeLoop.before ryu dst interval l (cs.map Prod.fst) k)
    let plugin := fun k => EarnedRotation.before key st (cs.map pluginInput) k
    let probedBy := fun k (hk : k < cs.length) => (cycle key (plugin k) (pluginInput cs[k])).2.1
    (rust k).ended = false →
    ((rust (k+1)).selection.current ≠ (rust k).selection.current ↔
      (entry (plugin (k+1)) key).selected ≠ probedBy k hk) ∧
    (∀ hnext : k+1 < cs.length, probedBy (k+1) hnext = (entry (plugin (k+1)) key).selected) ∧
    (S.card = 1 → (rust (k+1)).selection.current = (rust k).selection.current ∧
      (entry (plugin (k+1)) key).selected = probedBy k hk) ∧
    (k = 0 → (probedBy k hk).map f = some (rust k).selection.current) := by
  intro rust plugin probedBy hrun
  have hc : Steady f S cs[k] := hcs _ (List.getElem_mem hk)
  have hrel : InStep f S key (rust k).progress (plugin k) := by
    have hplugin : plugin k = final (cycle key) st ((cs.take k).map pluginInput) := by
      rw [List.map_take]
      rfl
    rw [before_progress ryu dst interval l _ k hrun, ← List.map_take, hplugin]
    exact inStep_run l.progress (launch_inStep hl hresolved.2 hst) hS (cs.take k)
      (fun c hc => hcs c (List.mem_of_mem_take hc))
  have hrust : (rust (k+1)).progress = advance (rust k).progress cs[k].1 := by
    have hstep := before_succ ryu dst interval l (cs.map Prod.fst) k (by simpa using hk)
    rw [List.getElem_map] at hstep
    rw [show rust (k+1) = _ from hstep, (step_turn ryu dst interval (rust k) cs[k].1 hrun).progress]
  have hplugin : plugin (k+1) = (cycle key (plugin k) (pluginInput cs[k])).1 := by
    have hstep := EarnedRotation.before_succ key st (cs.map pluginInput) k (by simpa using hk)
    rwa [List.getElem_map] at hstep
  have hcurrent : (rust (k+1)).selection.current =
      (advance (rust k).progress cs[k].1).selection.current :=
    congrArg (fun p : Progress α => p.selection.current) hrust
  have hmoves := moves_together hinj hrel hS hc
  rw [hcurrent, hplugin]
  refine ⟨hmoves,?_,?_,?_⟩
  · intro hnext
    have hafter := inStep_cycle hrel hS hc
    rw [← hplugin] at hafter ⊢
    exact selection_kept hS hc (hcs _ (List.getElem_mem hnext)) hplugin hafter.selected
  · intro hone
    have hfew : ¬ 2 ≤ S.card := by omega
    constructor
    · by_contra hmoved
      exact hfew ((rust_moves_iff hinj hrel hc).mp hmoved).2.2
    · by_contra hmoved
      exact hfew ((plugin_moves_iff hS hc).mp hmoved).2.2
  · rintro rfl
    obtain ⟨preferred,rest,rfl,hprogress⟩ := launch_first hl
    obtain ⟨first,more,haddrs⟩ := steady_cons hS hc
    have hhead := hfirst cs[0] (by rw [List.head?_eq_getElem?, List.getElem?_eq_getElem hk]; rfl)
    rw [haddrs] at hhead
    have hchosen : chosen st key first more = first := by
      rw [chosen, entry, hst]
      rfl
    have hprobed : probedBy 0 hk = some first := by
      show (cycle key st (cs[0].2,!failed cs[0].1)).2.1 = some first
      rw [haddrs, cycle_probed, hchosen]
    rw [hprobed]
    exact hhead.trans (congrArg (fun p : Progress α => some p.selection.current) hprogress.symm)

end Runs

section Witness
open GetAddrInfo

/-- The plugin's two addresses as the Rust probe writes them. -/
def written (a : AddrInfo) : SocketAddr := if a = answer1 then endpoint 1 else endpoint 2

/-- A failing cycle under shuffled answers. -/
def shuffled : Cycle SocketAddr AddrInfo Unit ℕ :=
  (refused (.ok [endpoint 2,endpoint 1]) (.ok ()),[answer1,answer2])

theorem rotate_in_step_fifth :
    (ProbeLoop.before (fun _ : ℕ => []) .collectdExec 10 launched
      ((List.replicate 5 shuffled).map Prod.fst) 5).selection.current ≠ endpoint 1 := by
  have h := (rotate_in_step (f := written) (S := {answer1,answer2}) (fun _ : ℕ => []) 10 (by simp)
    (by
      intro a ha b hb
      simp only [Finset.coe_insert, Finset.coe_singleton, Set.mem_insert_iff,
        Set.mem_singleton_iff] at ha hb
      rcases ha with rfl | rfl <;> rcases hb with rfl | rfl <;> decide)
    (show launch .collectdExec [] [] [] 10 (.ok [endpoint 1,endpoint 2] : Except Unit _)
      (flushing (.ok ())) = some launched by decide)
    (by decide) (show fresh target = none from rfl) (List.replicate 5 shuffled)
    (by
      intro c hc
      obtain rfl := List.eq_of_mem_replicate hc
      exact ⟨⟨[endpoint 2,endpoint 1],rfl,by decide,by decide⟩,by decide,by decide⟩)
    (by decide) 4 (by decide) (by decide)).1
  exact h.mpr (by decide)

end Witness

end WireProbe.RotationParity
