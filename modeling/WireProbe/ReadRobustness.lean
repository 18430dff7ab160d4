import WireProbe.ProbeRtt
import WireProbe.ReadRounds
import WireProbe.UsableConfig

/-!
# What can end a pass

The plugin handles the exceptions of the resolver, of `connect` and of
`getsockopt`. A socket that cannot be had is outside of its `try`, and is then
the one thing that ends a pass.
-/

set_option autoImplicit false

namespace WireProbe.ReadRobustness
open WireProbe.Floats WireProbe.Effect WireProbe.PluginConfig WireProbe.KernelRtt
open WireProbe.GetAddrInfo WireProbe.PluginRead WireProbe.ReadTrace WireProbe.StarvedVisits
open WireProbe.UsableConfig WireProbe.ProbeRtt WireProbe.ReadRounds

variable {σ α β : Type}

/-! ### One handshake -/

/-- The outside raises the exceptions it documents: `OSError` from the network,
and from `get_interval` those of a collectd without it. -/
structure Ordinary (env : Env σ) : Prop where
  getInterval : ∀ s e, (env.getInterval s).1 = .error e →
    e = .attributeError ∨ e = .typeError ∨ e = .valueError
  getaddrinfo : ∀ key s e, (env.getaddrinfo key s).1 = .error e → e = .osError
  connect : ∀ addr t s e, (env.connect addr t s).1 = .error e → e = .osError
  getsockopt : ∀ s e, (env.getsockopt s).1 = .error e → e = .osError

def IsOsError (e : Failure) : Prop := e = .raised .osError

theorem raisesOnly_call {P : Failure → Prop} {f : σ → Except Exception α × σ}
    (h : ∀ s e, (f s).1 = .error e → P (.raised e)) : RaisesOnly P (call f) := by
  intro w e he
  change raising (f w.env).1 = .error e at he
  cases hf : (f w.env).1 with
  | ok a =>
    rw [hf] at he
    cases he
  | error x =>
    rw [hf] at he
    exact Except.error.inj he ▸ h w.env x hf

theorem raisesOnly_monotonic (P : Failure → Prop) (env : Env σ) : RaisesOnly P (monotonic env) :=
  raisesOnly_call fun s e he => by cases he

/-- An `OSError` of the network is answered with a default. -/
theorem raisesOnly_caught {P : Failure → Prop} {m : Py σ α} (h : RaisesOnly IsOsError m) (a : α) :
    RaisesOnly P (m.catching fun
      | .raised .osError => some a
      | _ => none) := by
  refine raisesOnly_catching h ?_
  rintro e rfl hnone
  cases hnone

/-- A timeout of the configured window is one a socket takes. -/
theorem settimeout_window {t : FloatVal} (h : Window t) : settimeout t = .ok () := by
  obtain ⟨hpos,hle⟩ := h
  cases t with
  | fin q =>
    rw [FloatVal.fin_lt_fin] at hpos
    rw [FloatVal.fin_le_fin] at hle
    have hmax : (60 : ℚ) < timeoutMax := by norm_num [timeoutMax]
    rw [settimeout, if_neg, if_neg (not_lt.mpr hpos.le)]
    rw [not_or, not_lt, not_lt]
    constructor <;> linarith
  | posInf => exact absurd hle (FloatVal.posInf_le_fin _)
  | negInf => exact absurd hpos (FloatVal.lt_negInf _)
  | nan => exact absurd hpos (FloatVal.lt_nan _)

theorem raisesOnly_ok {P : Failure → Prop} (a : α) :
    RaisesOnly (W := World σ) P (PluginRead.ofExcept (.ok a)) := raisesOnly_pure a

theorem raisesOnly_kernelRttMs (P : Failure → Prop) {env : Env σ} (h : Ordinary env) :
    RaisesOnly P (kernelRttMs env) := by
  unfold kernelRttMs
  split_ifs
  · refine raisesOnly_bind ?_ ?_
    · refine raisesOnly_caught ?_ none
      exact raisesOnly_bind (raisesOnly_call fun s e he => congrArg _ (h.getsockopt s e he))
        fun raw => raisesOnly_pure _
    · intro raw
      cases raw with
      | none => exact raisesOnly_pure none
      | some raw =>
        simp only [blobRttMs_eq]
        exact raisesOnly_ok _
  · exact raisesOnly_pure none

theorem raisesOnly_timedConnect {env : Env σ} (h : Ordinary env) (addr : AddrInfo) {t : FloatVal}
    (ht : Window t) : RaisesOnly IsOsError (timedConnect env addr t) := by
  unfold timedConnect
  rw [settimeout_window ht]
  refine raisesOnly_bind (raisesOnly_ok ()) ?_
  intro _
  refine raisesOnly_bind (raisesOnly_monotonic _ env) ?_
  intro t₀
  refine raisesOnly_bind (raisesOnly_call fun s e he => congrArg _ (h.connect addr.sockaddr t s e he)) ?_
  intro _
  refine raisesOnly_bind (raisesOnly_monotonic _ env) ?_
  intro t₁
  exact raisesOnly_bind (raisesOnly_kernelRttMs _ h) fun _ => raisesOnly_pure _

/-- A handshake raises only what `socket.socket` did. -/
theorem handshake_raises {env : Env σ} (h : Ordinary env) (addr : AddrInfo) {t : FloatVal}
    (ht : Window t) (w : World σ) {e : Failure} (he : (handshake env addr t w).1 = .error e) :
    ∃ x, (env.socket addr.family w.env).1 = .error x ∧ e = .raised x := by
  have hconnect : RaisesOnly (fun _ => False) (Eff.ensuring ((timedConnect env addr t).catching fun
      | .raised .osError => some none
      | _ => none) fun w => {w with env := env.close w.env}) :=
    raisesOnly_ensuring (raisesOnly_caught (raisesOnly_timedConnect h addr ht) none)
  have hrun : wp (handshake env addr t) (fun r _ => ∀ e, r = .error e →
      ∃ x, (env.socket addr.family w.env).1 = .error x ∧ e = .raised x) w := by
    have hsocket : wp (call (env.socket addr.family))
      (fun r _ => r = raising (env.socket addr.family w.env).1) w := rfl
    apply wp_seq hsocket
    · intro a w' _ e he
      exact (hconnect w' e he).elim
    · rintro e w' hraised e' ⟨⟩
      cases hx : (env.socket addr.family w.env).1 with
      | ok a =>
        rw [hx] at hraised
        cases hraised
      | error x =>
        rw [hx] at hraised
        exact ⟨x,rfl,Except.error.inj hraised⟩
  exact hrun e he

/-! ### What ends a pass -/

/-- The last call of the stretch is a handshake that got no socket. -/
def Lost (env : Env σ) (w w' : World σ) (e : Failure) : Prop :=
  ∃ earlier start stop addr timeout x,
    w'.log = w.log++(earlier++[.handshake start stop addr timeout (.error e)]) ∧
    (env.socket addr.family start).1 = .error x ∧ e = .raised x

/-- `m` goes on logging, and raises for want of a socket only. -/
def Steady (env : Env σ) (m : Py σ α) : Prop := ∀ w, wp m (fun r w' => match r with
  | .ok _ => ∃ es, w'.log = w.log++es
  | .error e => Lost env w w' e) w

theorem steady_bind {env : Env σ} {m : Py σ α} {f : α → Py σ β} (hm : Steady env m)
    (hf : ∀ a, Steady env (f a)) : Steady env (m >>= f) := by
  intro w
  apply wp_seq (hm w)
  · rintro a w₁ ⟨es,h₁⟩
    apply wp_mono (hf a w₁)
    intro r w₂ h₂
    cases r with
    | ok b =>
      obtain ⟨es',h₂⟩ := h₂
      exact ⟨es++es',by rw [h₂, h₁, List.append_assoc]⟩
    | error e =>
      obtain ⟨earlier,start,stop,addr,timeout,x,h₂,hsocket⟩ := h₂
      refine ⟨es++earlier,start,stop,addr,timeout,x,?_,hsocket⟩
      rw [h₂, h₁]
      simp only [List.append_assoc]
  · intro e w₁ h₁
    exact h₁

/-- A program that cannot raise. -/
theorem steady_safe {env : Env σ} {m : Py σ α} (h : RaisesOnly (fun _ => False) m)
    (hlog : ∀ w, ∃ es, (m w).2.log = w.log++es) : Steady env m := by
  intro w
  have hraised := h w
  show match (m w).1 with
    | .ok _ => ∃ es, (m w).2.log = w.log++es
    | .error e => Lost env w (m w).2 e
  cases hr : (m w).1 with
  | ok a => exact hlog w
  | error e => exact (hraised e hr).elim

theorem steady_pure (env : Env σ) (a : α) : Steady env (pure a) :=
  fun _ => ⟨[],(List.append_nil _).symm⟩

theorem steady_external {env : Env σ} {m : Py σ α} (h : RaisesOnly (fun _ => False) m)
    (hext : External m) : Steady env m :=
  steady_safe h fun w => ⟨[],(congrArg Prod.snd (hext w).1).trans (List.append_nil _).symm⟩

theorem steady_warning (env : Env σ) (message : Message) : Steady env (warning message) :=
  fun _ => ⟨_,rfl⟩

theorem steady_resolveAll {env : Env σ} (h : Ordinary env) (key : StateKey) :
    Steady env (resolveAll env key) := by
  have hresolve : RaisesOnly (fun _ => False) (resolve env key) :=
    raisesOnly_caught (raisesOnly_bind
      (raisesOnly_call fun s e he => congrArg _ (h.getaddrinfo key s e he))
      fun _ => raisesOnly_pure _) none
  refine steady_safe (fun w => hresolve w) ?_
  intro w
  obtain ⟨⟨-,es,hlog,-⟩,-⟩ := resolveAll_logs env key w
  exact ⟨es,hlog⟩

theorem steady_tcpRtt {env : Env σ} (h : Ordinary env) (addr : AddrInfo) {t : FloatVal}
    (ht : Window t) : Steady env (tcpRtt env addr t) := by
  intro w
  obtain ⟨-,stop,hlog⟩ := wp_tcpRtt env addr t w
  have hresult : (tcpRtt env addr t w).1 = (handshake env addr t w).1 := rfl
  rw [hresult] at hlog
  unfold wp
  rw [hresult]
  cases hr : (handshake env addr t w).1 with
  | ok a => exact ⟨_,hlog⟩
  | error e =>
    obtain ⟨x,hsocket,hx⟩ := handshake_raises h addr ht w hr
    refine ⟨[],w.env,stop,addr,t,x,?_,hsocket,hx⟩
    rw [hlog, hr]
    rfl

theorem steady_probes {env : Env σ} (h : Ordinary env) {timeout : FloatVal} (ht : Window timeout)
    (deadline : FloatVal) (addrInfo : Option AddrInfo) (n : ℕ) (samples : List ℚ) (attempts : ℕ) :
    Steady env (probes env timeout deadline addrInfo n samples attempts) := by
  induction n generalizing samples attempts with
  | zero => exact steady_pure env _
  | succ n ih =>
    cases addrInfo with
    | none => exact steady_pure env _
    | some addr =>
      apply steady_bind (steady_external (raisesOnly_monotonic _ env) (external_monotonic env))
      intro now
      simp only
      split_ifs with hremaining
      · exact steady_bind (steady_warning env _) fun _ => steady_pure env _
      · apply steady_bind (steady_tcpRtt h addr (FloatVal.min_window ht.1 ht.2 hremaining))
        intro rtt
        exact ih _ _

theorem steady_probeHost {env : Env σ} (h : Ordinary env) {cfg : Config} (ht : Window cfg.timeout)
    (deadline : FloatVal) (host : HostEntry) : Steady env (probeHost env cfg deadline host) := by
  apply steady_bind (steady_resolveAll h _)
  intro answer
  apply steady_bind
  · cases answer with
    | none => exact steady_warning env _
    | some addrs => exact steady_pure env ()
  intro _
  apply steady_bind (m := PluginRead.preferredAddress _ answer)
  · exact fun _ => ⟨[],(List.append_nil _).symm⟩
  intro addrInfo
  apply steady_bind (steady_probes h ht deadline addrInfo _ [] 0)
  rintro ⟨samples,attempts⟩ w
  apply wp_mono (visitEnd_logs cfg host answer addrInfo samples attempts
    (droprate_eq addrInfo attempts samples) w)
  rintro r w' ⟨rfl,-,es,hlog,-⟩
  exact ⟨es,hlog⟩

theorem steady_readHosts {env : Env σ} (h : Ordinary env) {cfg : Config} (ht : Window cfg.timeout)
    (deadline : FloatVal) (hosts : List HostEntry) : Steady env (readHosts env cfg deadline hosts) := by
  induction hosts with
  | nil => exact steady_pure env ()
  | cons host hosts ih =>
    apply steady_bind (steady_external (raisesOnly_monotonic _ env) (external_monotonic env))
    intro now
    split_ifs
    · exact steady_warning env _
    · exact steady_bind (steady_probeHost h ht deadline host) fun _ => ih

theorem raisesOnly_readBudget {env : Env σ} (h : Ordinary env) :
    RaisesOnly (fun _ => False) (readBudget env) := by
  refine raisesOnly_bind ?_ fun _ => raisesOnly_pure _
  refine raisesOnly_catching (P := fun e => e = .raised .attributeError ∨ e = .raised .typeError ∨
    e = .raised .valueError) ?_ ?_
  · exact raisesOnly_call fun s e he => by simpa using h.getInterval s e he
  · rintro e (rfl | rfl | rfl) hnone <;> cases hnone

/-- Where the outside raises what it documents and the timeout is in its window,
a pass returns, or its last call is a handshake that could not have a socket and
the exception is the one of `socket.socket`. -/
theorem pass_returns_or_lost (env : Env σ) (h : Ordinary env) (cfg : Config)
    (ht : Window cfg.timeout) (w : World σ) : (readCb env cfg w).1 = .ok () ∨
      ∃ e, (readCb env cfg w).1 = .error e ∧ Lost env w (readCb env cfg w).2 e := by
  have hsteady : Steady env (readCb env cfg) := by
    apply steady_bind (steady_external (raisesOnly_monotonic _ env) (external_monotonic env))
    intro now
    apply steady_bind (steady_external (raisesOnly_readBudget h) (external_readBudget env))
    intro budget
    exact steady_readHosts h ht _ cfg.hosts
  have hpass := hsteady w
  unfold wp at hpass
  cases hr : (readCb env cfg w).1 with
  | ok u => exact .inl rfl
  | error e =>
    rw [hr] at hpass
    exact .inr ⟨e,rfl,hpass⟩

/-- The name resolves at once, and no descriptor is left for a socket. -/
def starvedOfSockets : Env ℚ :=
  {stalling (.ok [answer1]) with
    getaddrinfo := fun _ s => (.ok [answer1],s)
    socket := fun _ s => (.error .osError,s)}

theorem pass_returns_or_lost_starved :
    ∃ e, (readCb starvedOfSockets watched worn).1 = .error e ∧
      Lost starvedOfSockets worn (readCb starvedOfSockets watched worn).2 e := by
  have hordinary : Ordinary starvedOfSockets := by
    constructor
    · rintro s e ⟨⟩
    · rintro key s e ⟨⟩
    · rintro addr t s e ⟨⟩
    · rintro s e ⟨⟩
      rfl
  have hraised : (readCb starvedOfSockets watched worn).1 ≠ .ok () := by decide +kernel
  exact (pass_returns_or_lost starvedOfSockets hordinary watched ⟨by decide,by decide⟩
    worn).resolve_left hraised

end WireProbe.ReadRobustness
