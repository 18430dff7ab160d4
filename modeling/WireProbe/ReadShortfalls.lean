import WireProbe.ReadReplay

/-!
# A pass that falls short says so

A pass makes fewer handshakes than configured, or leaves hosts out, for a few
reasons only. Each of them is logged where it happens, or is the exception with
which the pass ends.
-/

set_option autoImplicit false

namespace WireProbe.ReadShortfalls
open WireProbe.Effect WireProbe.PluginConfig WireProbe.GetAddrInfo WireProbe.PluginRead
open WireProbe.PluginRotation WireProbe.ReadTrace
open WireProbe.Transducer WireProbe.ReadRounds WireProbe.ReadReplay

variable {σ : Type}

def isHandshake : Label → Bool
  | .handshake _ _ => true
  | _ => false

def attempts (ls : List Label) : ℕ := ls.countP isHandshake

@[simp] theorem attempts_append (ls ls' : List Label) :
    attempts (ls++ls') = attempts ls+attempts ls' := List.countP_append

/-- What a finished visit logs about its own shortfall. -/
structure Announced (cfg : Config) (host : HostEntry) (seg : List Label) : Prop where
  bound : attempts seg ≤ cfg.pingCount.toNat
  opening : ∃ answer, seg.head? = some (.resolve (stateKey cfg.defaultPort host) (.ok answer)) ∧
    (.warning (unresolvedWarning host.hostname) ∈ seg ↔ answer = none) ∧
    (answer = none → attempts seg = 0) ∧
    (.warning exhaustedWarning ∈ seg ↔ answer ≠ none ∧ attempts seg < cfg.pingCount.toNat)

/-- The call that raised `e`. -/
inductive Raised (e : Failure) : Label → Prop where
  | resolve (key : StateKey) : Raised e (.resolve key (.error e))
  | handshake (addr : AddrInfo) : Raised e (.handshake addr (.error e))

/-! ### One visit -/

theorem attempts_closing (cfg : Config) (host : HostEntry) (rotated : Option AddrInfo)
    (dropped : Reading) (samples : List ℚ) : attempts (closing cfg host rotated dropped samples) = 0 := by
  rw [attempts, List.countP_eq_zero]
  intro x hx
  cases x with
  | handshake addr rtt => exact absurd hx (closing_silent cfg host rotated dropped samples addr rtt)
  | resolve key answer => simp [isHandshake]
  | record key ok => simp [isHandshake]
  | warning message => simp [isHandshake]
  | dispatch typeInstance type value => simp [isHandshake]

theorem attempts_tried (addr : AddrInfo) (outcomes : List (Option ℚ)) {cut : Cut}
    (hcut : cut.failure = none) : attempts (tried addr outcomes cut) = outcomes.length := by
  have hmap : attempts (outcomes.map fun o => .handshake addr (.ok o)) = outcomes.length := by
    rw [attempts, List.countP_map, List.countP_eq_length.mpr (by simp [isHandshake])]
  have hnone : attempts (cut.labels addr) = 0 := by
    cases cut with
    | complete => rfl
    | exhausted => rfl
    | raised e => cases hcut
  rw [tried, attempts_append, hmap, hnone, Nat.add_zero]

/-- The warnings past the recorded outcome are about a rotation. -/
theorem warning_closing {cfg : Config} {host : HostEntry} {rotated : Option AddrInfo}
    {dropped : Reading} {samples : List ℚ} {message : Message}
    (h : .warning message ∈ closing cfg host rotated dropped samples) :
    ∃ key nxt, message = rotationWarning key nxt := by
  rcases List.mem_append.mp h with h | h
  · cases rotated with
    | none => exact absurd h List.not_mem_nil
    | some nxt => exact ⟨_,nxt,Label.warning.inj (List.mem_singleton.mp h)⟩
  · simp [values] at h

theorem unresolved_ne_rotation (hostname : List Char) (key : StateKey) (nxt : AddrInfo) :
    unresolvedWarning hostname ≠ rotationWarning key nxt := by
  simp [unresolvedWarning, rotationWarning]

theorem exhausted_ne_rotation (key : StateKey) (nxt : AddrInfo) :
    exhaustedWarning ≠ rotationWarning key nxt := by
  simp [exhaustedWarning, rotationWarning]

theorem unresolved_ne_exhausted (hostname : List Char) :
    unresolvedWarning hostname ≠ exhaustedWarning := by
  simp [unresolvedWarning, exhaustedWarning]

theorem warning_tried {addr : AddrInfo} {outcomes : List (Option ℚ)} {cut : Cut} {message : Message} :
    .warning message ∈ tried addr outcomes cut ↔ cut = .exhausted ∧ message = exhaustedWarning := by
  cases cut <;> simp [tried, Cut.labels]

theorem visit_announced (st : AddrState StateKey AddrInfo) (cfg : Config) (host : HostEntry)
    {round : Round} (hfits : round.Fits cfg.pingCount.toNat) (hround : round.failure = none) :
    Announced cfg host (visit st (cfg,host,round)).2 := by
  generalize hls : (visit st (cfg,host,round)).2 = ls
  have hshape := visit_shape st cfg host round
  rw [hls] at hshape
  generalize (visit st (cfg,host,round)).1 = st' at hshape
  cases hshape with
  | failed e => cases hround
  | raised => cases hround
  | unresolved =>
    have hattempts : attempts (.resolve (stateKey cfg.defaultPort host) (.ok none)::
        [.warning (unresolvedWarning host.hostname)]++.record (stateKey cfg.defaultPort host) false::
          closing cfg host none (.num 1) []) = 0 := by
      rw [attempts_append]
      exact attempts_closing cfg host none (.num 1) []
    have hexhausted : .warning exhaustedWarning ∉ closing cfg host none (.num 1) [] := by
      intro h
      obtain ⟨key,nxt,hmessage⟩ := warning_closing h
      exact exhausted_ne_rotation key nxt hmessage
    refine ⟨hattempts ▸ Nat.zero_le _,none,rfl,by simp,fun _ => hattempts,?_⟩
    apply iff_of_false
    · simpa [(unresolved_ne_exhausted host.hostname).symm] using hexhausted
    · simp
  | @finished first rest outcomes cut rotated hcut =>
    have hattempts : attempts (.resolve (stateKey cfg.defaultPort host) (.ok (some (first::rest)))::
        tried (chosen st (stateKey cfg.defaultPort host) first rest) outcomes cut++
          .record (stateKey cfg.defaultPort host) (succeeded outcomes)::
            closing cfg host rotated (loss outcomes) outcomes.reduceOption) = outcomes.length := by
      rw [attempts_append]
      calc attempts (tried _ outcomes cut)+attempts (closing cfg host rotated _ _)
          = outcomes.length+0 := congrArg₂ (·+·) (attempts_tried _ _ hcut) (attempts_closing _ _ _ _ _)
        _ = outcomes.length := Nat.add_zero _
    have hwarning : ∀ message, (∀ key nxt, message ≠ rotationWarning key nxt) →
        (.warning message ∈ .resolve (stateKey cfg.defaultPort host) (.ok (some (first::rest)))::
          tried (chosen st (stateKey cfg.defaultPort host) first rest) outcomes cut++
            .record (stateKey cfg.defaultPort host) (succeeded outcomes)::
              closing cfg host rotated (loss outcomes) outcomes.reduceOption ↔
          cut = .exhausted ∧ message = exhaustedWarning) := by
      intro message hmessage
      have hclosing : .warning message ∉
          closing cfg host rotated (loss outcomes) outcomes.reduceOption := by
        intro h
        obtain ⟨key,nxt,rfl⟩ := warning_closing h
        exact hmessage key nxt rfl
      simp [hclosing, warning_tried]
    have hcount : outcomes.length ≤ cfg.pingCount.toNat ∧
        (cut = .exhausted ↔ outcomes.length < cfg.pingCount.toNat) := by
      cases cut with
      | complete =>
        replace hfits : outcomes.length = cfg.pingCount.toNat := hfits
        exact ⟨hfits.le,iff_of_false (by simp) hfits.not_lt⟩
      | exhausted => exact ⟨le_of_lt hfits,iff_of_true rfl hfits⟩
      | raised e => cases hcut
    refine ⟨hattempts ▸ hcount.1,some (first::rest),rfl,?_,by simp,?_⟩
    · rw [hwarning _ (unresolved_ne_rotation host.hostname)]
      simp [unresolved_ne_exhausted]
    · rw [hwarning _ exhausted_ne_rotation, hattempts, ← hcount.2]
      simp

/-! ### One pass -/

/-- The last entry of a visit that raised is the call that did. -/
theorem visit_raised (st : AddrState StateKey AddrInfo) (cfg : Config) (host : HostEntry)
    {round : Round} {e : Failure} (hround : round.failure = some e) :
    ∃ init last, (visit st (cfg,host,round)).2 = init++[last] ∧ Raised e last := by
  generalize hls : (visit st (cfg,host,round)).2 = ls
  have hshape := visit_shape st cfg host round
  rw [hls] at hshape
  generalize (visit st (cfg,host,round)).1 = st' at hshape
  cases hshape with
  | failed e' =>
    obtain rfl := Option.some.inj hround
    exact ⟨[],_,rfl,.resolve _⟩
  | unresolved => cases hround
  | @raised first rest outcomes e' =>
    obtain rfl := Option.some.inj hround
    exact ⟨_::outcomes.map (fun o => .handshake _ (.ok o)),_,rfl,.handshake _⟩
  | finished hcut =>
    rw [Round.failure, hcut] at hround
    cases hround

/-- The segments of the visits a pass finished, and what follows them: the
warning about the host it skips, or the visit that raised. -/
structure Accounted (cfg : Config) (r : Except Failure Unit) (ls : List Label)
    (done rest : List HostEntry) (segs : List (List Label)) (tail : List Label) : Prop where
  log : ls = segs.flatten++tail
  announced : List.Forall₂ (Announced cfg) done segs
  returned : r = .ok () → tail =
    (rest.head?.map fun host => .warning (skipWarning (labelOf cfg.defaultPort host))).toList
  raised : ∀ e, r = .error e → ∃ init last, tail = init++[last] ∧ Raised e last

theorem course_accounted (cfg : Config) {hosts : List HostEntry} {visits : List (HostEntry × Round)}
    {ending : Ending} (h : Course cfg.pingCount.toNat hosts visits ending)
    (st : AddrState StateKey AddrInfo) : ∃ done rest segs tail, hosts = done++rest ∧
      Accounted cfg ending.result
        ((outputs visit st (visits.map (cfg,·))).flatten++ending.labels cfg.defaultPort)
        done rest segs tail := by
  induction h generalizing st with
  | done => exact ⟨[],[],[],[],rfl,rfl,.nil,fun _ => rfl,by rintro e ⟨⟩⟩
  | skipped host hosts => exact ⟨[],host::hosts,[],_,rfl,rfl,.nil,fun _ => rfl,by rintro e ⟨⟩⟩
  | @raised host hosts round e hfits hfailure =>
    obtain ⟨init,last,hlog,hlast⟩ := visit_raised st cfg host hfailure
    refine ⟨[],host::hosts,[],init++[last],rfl,?_,.nil,by rintro ⟨⟩,?_⟩
    · simp [Ending.labels, hlog]
    · rintro e' ⟨⟩
      exact ⟨init,last,rfl,hlast⟩
  | @visited host hosts round hfits hfailure visits ending hrest ih =>
    obtain ⟨done,rest,segs,tail,rfl,hlog,hannounced,hreturned,hraised⟩ :=
      ih (visit st (cfg,host,round)).1
    refine ⟨host::done,rest,_::segs,tail,rfl,?_,
      .cons (visit_announced st cfg host hfits hfailure) hannounced,hreturned,hraised⟩
    rw [List.map_cons, outputs_cons, List.flatten_cons, List.append_assoc, hlog,
      List.flatten_cons, List.append_assoc]

/-- An exception gets out of `_read_budget` where `get_interval` raised one that
it does not handle. -/
theorem readBudget_raised (env : Env σ) (w : World σ) :
    wp (readBudget env) (fun r _ => ∀ e, r = .error e → ∃ x, (env.getInterval w.env).1 = .error x ∧
      x ∉ [.attributeError,.typeError,.valueError] ∧ e = .raised x) w := by
  apply wp_seq (P := fun r _ => ∀ e, r = .error e → ∃ x, (env.getInterval w.env).1 = .error x ∧
    x ∉ [.attributeError,.typeError,.valueError] ∧ e = .raised x)
  · rw [wp_catching]
    unfold wp call
    cases (env.getInterval w.env).1 with
    | ok interval => rintro e ⟨⟩
    | error x => cases x <;> simp [raising]
  · rintro interval w' - e ⟨⟩
  · intro e w' h e' he
    exact h e' he

/-- Whatever the outside does, a pass accounts for every host it leaves out and
every handshake it does not make: with a warning, or with the exception that
ends it, which is that of the last call it logged. A pass that logs nothing and
raises could not read the interval: its exception is the one of `get_interval`,
and none that `_read_budget` handles. -/
theorem shortfalls_announced (env : Env σ) (cfg : Config) (w : World σ) : ∃ es,
    (readCb env cfg w).2.log = w.log++es ∧
      ((∃ done rest segs tail, cfg.hosts = done++rest ∧
        Accounted cfg (readCb env cfg w).1 (labels es) done rest segs tail) ∨
      es = [] ∧ ∃ x, (env.getInterval (env.monotonic w.env).2).1 = .error x ∧
        x ∉ [.attributeError,.typeError,.valueError] ∧
        (readCb env cfg w).1 = .error (.raised x)) := by
  have hrun : wp (readCb env cfg) (fun r w' => ∃ es, w'.log = w.log++es ∧
      ((∃ done rest segs tail, cfg.hosts = done++rest ∧
        Accounted cfg r (labels es) done rest segs tail) ∨
      es = [] ∧ ∃ x, (env.getInterval (env.monotonic w.env).2).1 = .error x ∧
        x ∉ [.attributeError,.typeError,.valueError] ∧ r = .error (.raised x))) w := by
    apply wp_step (show PluginRead.monotonic env w = (.ok _,_) from rfl)
    have hsilent : wp (readBudget env) (fun _ w' => w'.log = w.log)
      {w with env := (env.monotonic w.env).2} := ((external_readBudget env).silent _).1
    apply wp_seq (wp_and hsilent (readBudget_raised env _))
    · rintro budget w₁ ⟨hlog₁,-⟩
      apply wp_mono (readHosts_course env cfg _ cfg.hosts w₁)
      rintro r w₂ ⟨visits,ending,hcourse,rfl,-,es,hlog₂,hlabels⟩
      obtain ⟨done,rest,segs,tail,hhosts,h⟩ := course_accounted cfg hcourse w₁.addrState
      refine ⟨es,hlog₂.trans (congrArg (·++es) hlog₁),.inl ⟨done,rest,segs,tail,hhosts,?_⟩⟩
      rw [hlabels]
      exact h
    · rintro e w₁ ⟨hlog₁,hraised⟩
      obtain ⟨x,hx,hhandled,rfl⟩ := hraised e rfl
      exact ⟨[],hlog₁.trans (List.append_nil _).symm,.inr ⟨rfl,x,hx,hhandled,rfl⟩⟩
  exact hrun

end WireProbe.ReadShortfalls
