import WireProbe.ReadRounds

/-!
# The sockets of a pass

An environment is made to list the calls on its sockets. That changes nothing
about a pass, and in its list every socket is closed before the next one is
opened, whatever the calls answer and also where the pass raises.
-/

set_option autoImplicit false

namespace WireProbe.SocketUse
open WireProbe.Floats WireProbe.Effect WireProbe.PluginConfig WireProbe.KernelRtt
open WireProbe.GetAddrInfo WireProbe.PluginRead WireProbe.ReadTrace WireProbe.StarvedVisits
open WireProbe.ReadRounds

variable {σ α β : Type}

/-! ### Tracking -/

/-- What is done to sockets. -/
inductive SocketCall where
  | opened
  | connected
  | queried
  | closed
  deriving DecidableEq, Repr

def tracked (env : Env σ) : Env (σ × List SocketCall) where
  monotonic := fun s => ((env.monotonic s.1).1,(env.monotonic s.1).2,s.2)
  getInterval := fun s => ((env.getInterval s.1).1,(env.getInterval s.1).2,s.2)
  getaddrinfo := fun key s => ((env.getaddrinfo key s.1).1,(env.getaddrinfo key s.1).2,s.2)
  socket := fun family s => ((env.socket family s.1).1,(env.socket family s.1).2,
    match (env.socket family s.1).1 with
    | .ok _ => s.2++[.opened]
    | .error _ => s.2)
  connect := fun addr t s =>
    ((env.connect addr t s.1).1,(env.connect addr t s.1).2,s.2++[.connected])
  hasTcpInfo := env.hasTcpInfo
  byteOrder := env.byteOrder
  getsockopt := fun s => ((env.getsockopt s.1).1,(env.getsockopt s.1).2,s.2++[.queried])
  close := fun s => (env.close s.1,s.2++[.closed])

def eraseEvent : Event (σ × List SocketCall) → Event σ
  | .resolve start stop key answer => .resolve start.1 stop.1 key answer
  | .handshake start stop addr timeout rtt => .handshake start.1 stop.1 addr timeout rtt
  | .record key ok => .record key ok
  | .warning message => .warning message
  | .dispatch typeInstance type value => .dispatch typeInstance type value

/-- A world without the list of the calls. -/
def erase (w : World (σ × List SocketCall)) : World σ :=
  ⟨w.env.1,w.addrState,w.log.map eraseEvent⟩

/-! ### Tracking changes nothing -/

section Erase
variable (env : Env σ)

theorem erase_call {f' : σ × List SocketCall → Except Exception α × (σ × List SocketCall)}
    {f : σ → Except Exception α × σ} (h : ∀ s, (f' s).1 = (f s.1).1 ∧ (f' s).2.1 = (f s.1).2) :
    Simulates erase (call f') (call f) := by
  intro w
  obtain ⟨hresult,hstate⟩ := h w.env
  simp only [call, hresult, erase, hstate]

theorem erase_monotonic : Simulates erase (monotonic (tracked env)) (monotonic env) :=
  erase_call fun _ => ⟨rfl,rfl⟩

theorem erase_ofExcept (r : Except Failure α) :
    Simulates (erase (σ := σ)) (PluginRead.ofExcept r) (PluginRead.ofExcept r) := fun _ => rfl

theorem erase_emitted {event' : Event (σ × List SocketCall)} {event : Event σ}
    (h : eraseEvent event' = event) : Simulates erase (emitted event') (emitted event) := by
  intro w
  simp only [emitted, Eff.modify, erase, List.map_append, List.map_cons, List.map_nil, h]

theorem erase_kernelRttMs : Simulates erase (kernelRttMs (tracked env)) (kernelRttMs env) := by
  unfold kernelRttMs
  show Simulates erase (if env.hasTcpInfo then _ else _) _
  split_ifs
  · apply simulates_bind
    · apply simulates_catching
      exact simulates_bind (erase_call fun _ => ⟨rfl,rfl⟩) fun _ => simulates_pure _
    · intro raw
      cases raw with
      | none => exact simulates_pure none
      | some raw => exact erase_ofExcept _
  · exact simulates_pure none

theorem erase_handshake (addr : AddrInfo) (t : FloatVal) :
    Simulates erase (handshake (tracked env) addr t) (handshake env addr t) := by
  apply simulates_bind (erase_call fun _ => ⟨rfl,rfl⟩)
  intro _
  refine simulates_ensuring (fun _ => rfl) ?_
  apply simulates_catching
  apply simulates_bind (erase_ofExcept _)
  intro _
  apply simulates_bind (erase_monotonic env)
  intro t₀
  apply simulates_bind (erase_call fun _ => ⟨rfl,rfl⟩)
  intro _
  apply simulates_bind (erase_monotonic env)
  intro t₁
  exact simulates_bind (erase_kernelRttMs env) fun _ => simulates_pure _

theorem erase_tcpRtt (addr : AddrInfo) (t : FloatVal) :
    Simulates erase (tcpRtt (tracked env) addr t) (tcpRtt env addr t) := by
  intro w
  simp only [tcpRtt, erase_handshake env addr t w]
  simp only [erase, List.map_append, List.map_cons, List.map_nil, eraseEvent]

theorem erase_resolveAll (key : StateKey) :
    Simulates erase (resolveAll (tracked env) key) (resolveAll env key) := by
  have hresolve : Simulates erase (resolve (tracked env) key) (resolve env key) :=
    simulates_catching _ (simulates_bind (erase_call fun _ => ⟨rfl,rfl⟩) fun _ => simulates_pure _)
  intro w
  simp only [resolveAll, hresolve w]
  simp only [erase, List.map_append, List.map_cons, List.map_nil, eraseEvent]

theorem erase_probes (timeout deadline : FloatVal) (addrInfo : Option AddrInfo) (n : ℕ)
    (samples : List ℚ) (attempts : ℕ) :
    Simulates erase (probes (tracked env) timeout deadline addrInfo n samples attempts)
      (probes env timeout deadline addrInfo n samples attempts) := by
  induction n generalizing samples attempts with
  | zero => exact simulates_pure _
  | succ n ih =>
    cases addrInfo with
    | none => exact simulates_pure _
    | some addr =>
      apply simulates_bind (erase_monotonic env)
      intro now
      simp only
      split_ifs
      · exact simulates_bind (erase_emitted rfl) fun _ => simulates_pure _
      · exact simulates_bind (erase_tcpRtt env addr _) fun rtt => ih _ _

theorem erase_preferredAddress (key : StateKey) (addrs : Option (List AddrInfo)) :
    Simulates (erase (σ := σ)) (PluginRead.preferredAddress key addrs)
      (PluginRead.preferredAddress key addrs) := fun _ => rfl

theorem erase_recordOutcome (key : StateKey) (addrs : Option (List AddrInfo)) (ok : Bool) :
    Simulates (erase (σ := σ)) (PluginRead.recordOutcome key addrs ok)
      (PluginRead.recordOutcome key addrs ok) := by
  intro w
  simp only [PluginRead.recordOutcome, erase]
  cases (PluginRotation.recordOutcome w.addrState key addrs ok).2 with
  | none => simp [eraseEvent]
  | some nxt => simp [eraseEvent]

theorem erase_probeHost (cfg : Config) (deadline : FloatVal) (host : HostEntry) :
    Simulates erase (probeHost (tracked env) cfg deadline host) (probeHost env cfg deadline host) := by
  apply simulates_bind (erase_resolveAll env _)
  intro addrs
  apply simulates_bind
  · cases addrs with
    | none => exact erase_emitted rfl
    | some addrs => exact simulates_pure ()
  intro _
  apply simulates_bind (erase_preferredAddress _ addrs)
  intro addrInfo
  apply simulates_bind (erase_probes env _ deadline addrInfo _ [] 0)
  rintro ⟨samples,attempts⟩
  apply simulates_bind (erase_recordOutcome _ addrs _)
  intro _
  apply simulates_bind (erase_ofExcept _)
  intro dropped
  apply simulates_bind (erase_ofExcept _)
  rintro ⟨reported,stddev⟩
  apply simulates_bind (erase_emitted rfl)
  intro _
  apply simulates_bind (erase_emitted rfl)
  intro _
  exact erase_emitted rfl

theorem erase_readHosts (cfg : Config) (deadline : FloatVal) (hosts : List HostEntry) :
    Simulates erase (readHosts (tracked env) cfg deadline hosts) (readHosts env cfg deadline hosts) := by
  induction hosts with
  | nil => exact simulates_pure ()
  | cons host hosts ih =>
    apply simulates_bind (erase_monotonic env)
    intro now
    split_ifs
    · exact erase_emitted rfl
    · exact simulates_bind (erase_probeHost env cfg deadline host) fun _ => ih

theorem erase_readCb (cfg : Config) : Simulates erase (readCb (tracked env) cfg) (readCb env cfg) := by
  apply simulates_bind (erase_monotonic env)
  intro now
  apply simulates_bind
  · exact simulates_bind (simulates_catching _ (erase_call fun _ => ⟨rfl,rfl⟩)) fun _ => simulates_pure _
  intro budget
  exact erase_readHosts env cfg _ cfg.hosts

end Erase

/-! ### The calls of a pass -/

/-- The calls on one socket, from its opening to its closing. -/
inductive Episode : List SocketCall → Prop where
  | refused : Episode [.opened,.closed]
  | failed : Episode [.opened,.connected,.closed]
  | measured : Episode [.opened,.connected,.queried,.closed]

/-- The calls between two worlds are whole episodes. -/
def Between (w w' : World (σ × List SocketCall)) : Prop :=
  ∃ episodes : List (List SocketCall), w'.env.2 = w.env.2++episodes.flatten ∧
    ∀ ep ∈ episodes, Episode ep

def Tidy (m : Py (σ × List SocketCall) α) : Prop := ∀ w, wp m (fun _ w' => Between w w') w

theorem between_same {w w' : World (σ × List SocketCall)} (h : w'.env.2 = w.env.2) : Between w w' :=
  ⟨[],by rw [h]; exact (List.append_nil _).symm,by simp⟩

theorem tidy_frames {m : Py (σ × List SocketCall) α} (h : Frames (fun w => w.env.2) m) : Tidy m :=
  fun w => between_same (h w)

theorem tidy_pure (a : α) : Tidy (σ := σ) (pure a) := fun _ => between_same rfl

theorem tidy_bind {m : Py (σ × List SocketCall) α} {f : α → Py (σ × List SocketCall) β}
    (hm : Tidy m) (hf : ∀ a, Tidy (f a)) : Tidy (m >>= f) := by
  intro w
  apply wp_seq (hm w)
  · rintro a w₁ ⟨episodes,h₁,hall₁⟩
    apply wp_mono (hf a w₁)
    rintro r w₂ ⟨episodes',h₂,hall₂⟩
    refine ⟨episodes++episodes',?_,List.forall_mem_append.mpr ⟨hall₁,hall₂⟩⟩
    rw [h₂, h₁, List.flatten_append, List.append_assoc]
  · intro e w₁ h₁
    exact h₁

theorem tidy_monotonic (env : Env σ) : Tidy (monotonic (tracked env)) := tidy_frames fun _ => rfl

theorem connect_calls (env : Env σ) (addr : SockAddr) (t : FloatVal)
    (w : World (σ × List SocketCall)) : wp (call ((tracked env).connect addr t))
      (fun _ w' => w'.env.2 = w.env.2++[.connected]) w := rfl

theorem query_calls (env : Env σ) (w : World (σ × List SocketCall)) :
    wp (call (tracked env).getsockopt) (fun _ w' => w'.env.2 = w.env.2++[.queried]) w := rfl

theorem kernelRttMs_calls (env : Env σ) (w : World (σ × List SocketCall)) :
    wp (kernelRttMs (tracked env)) (fun _ w' => w'.env.2 = w.env.2 ∨
      w'.env.2 = w.env.2++[.queried]) w := by
  unfold kernelRttMs
  split_ifs
  · refine wp_seq (P := fun _ w' => w'.env.2 = w.env.2++[.queried]) ?_ ?_ ?_
    · rw [wp_catching]
      apply wp_seq (query_calls env w)
      · intro raw w' h
        exact h
      · intro e w' h
        exact h
    · intro raw w' h
      cases raw with
      | none => exact .inr h
      | some raw => exact .inr h
    · intro e w' h
      exact .inr h
  · exact .inl rfl

/-- Past the opening a handshake connects at most once, and asks for the
measured time only then. -/
theorem timedConnect_calls (env : Env σ) (addr : AddrInfo) (t : FloatVal)
    (w : World (σ × List SocketCall)) :
    wp (timedConnect (tracked env) addr t) (fun _ w' => w'.env.2 = w.env.2 ∨
      w'.env.2 = w.env.2++[.connected] ∨ w'.env.2 = w.env.2++[.connected,.queried]) w := by
  apply wp_seq (show wp (PluginRead.ofExcept (settimeout t)) (fun _ w' => w' = w) w from rfl)
  · intro _ w' hw
    subst hw
    apply wp_step (show monotonic (tracked env) w' = (.ok _,_) from rfl)
    apply wp_seq (connect_calls env addr.sockaddr t _)
    · intro _ w₁ h₁
      apply wp_step (show monotonic (tracked env) w₁ = (.ok _,_) from rfl)
      have hkernel : ∀ w₂ : World (σ × List SocketCall),
          (w₂.env.2 = w₁.env.2 ∨ w₂.env.2 = w₁.env.2++[.queried]) →
          w₂.env.2 = w'.env.2 ∨ w₂.env.2 = w'.env.2++[.connected] ∨
            w₂.env.2 = w'.env.2++[.connected,.queried] := by
        rintro w₂ (h₂ | h₂)
        · exact .inr (.inl (h₂.trans h₁))
        · exact .inr (.inr (by rw [h₂, h₁, List.append_assoc]; rfl))
      apply wp_seq (kernelRttMs_calls env _)
      · intro kernelMs w₂ h₂
        exact hkernel w₂ h₂
      · intro e w₂ h₂
        exact hkernel w₂ h₂
    · intro e w₁ h₁
      exact .inr (.inl h₁)
  · rintro e _ rfl
    exact .inl rfl

theorem tidy_handshake (env : Env σ) (addr : AddrInfo) (t : FloatVal) :
    Tidy (handshake (tracked env) addr t) := by
  intro w
  have hopen : wp (call ((tracked env).socket addr.family)) (fun r w' => match r with
      | .ok _ => w'.env.2 = w.env.2++[.opened]
      | .error _ => w'.env.2 = w.env.2) w := by
    unfold wp call tracked
    cases hsocket : (env.socket addr.family w.env.1).1 <;> simp [hsocket, raising]
  apply wp_seq hopen
  · intro _ w₁ h₁
    rw [wp_ensuring, wp_catching]
    apply wp_mono (timedConnect_calls env addr t w₁)
    intro r w₂ h₂
    have hbetween : Between w {w₂ with env := (tracked env).close w₂.env} := by
      have hclosed : ∀ mid, w₂.env.2 = w₁.env.2++mid → Episode (.opened::mid++[.closed]) →
          Between w {w₂ with env := (tracked env).close w₂.env} := by
        intro mid hmid hep
        refine ⟨[.opened::mid++[.closed]],?_,List.forall_mem_singleton.mpr hep⟩
        show w₂.env.2++[.closed] = _
        rw [hmid, h₁]
        simp
      rcases h₂ with h₂ | h₂ | h₂
      · exact hclosed [] (by rw [h₂, List.append_nil]) .refused
      · exact hclosed _ h₂ .failed
      · exact hclosed _ h₂ .measured
    cases r <;> exact hbetween
  · intro e w₁ h₁
    exact between_same h₁

theorem tidy_tcpRtt (env : Env σ) (addr : AddrInfo) (t : FloatVal) :
    Tidy (tcpRtt (tracked env) addr t) := fun w => tidy_handshake env addr t w

theorem tidy_resolveAll (env : Env σ) (key : StateKey) : Tidy (resolveAll (tracked env) key) := by
  have hresolve : Frames (fun w => w.env.2) (resolve (tracked env) key) :=
    frames_catching _ (frames_bind (fun _ => rfl) fun _ => frames_pure _ _)
  exact tidy_frames fun w => hresolve w

theorem tidy_probes (env : Env σ) (timeout deadline : FloatVal) (addrInfo : Option AddrInfo) (n : ℕ)
    (samples : List ℚ) (attempts : ℕ) :
    Tidy (probes (tracked env) timeout deadline addrInfo n samples attempts) := by
  induction n generalizing samples attempts with
  | zero => exact tidy_pure _
  | succ n ih =>
    cases addrInfo with
    | none => exact tidy_pure _
    | some addr =>
      apply tidy_bind (tidy_monotonic env)
      intro now
      simp only
      split_ifs
      · exact tidy_bind (tidy_frames fun _ => rfl) fun _ => tidy_pure _
      · exact tidy_bind (tidy_tcpRtt env addr _) fun rtt => ih _ _

theorem tidy_probeHost (env : Env σ) (cfg : Config) (deadline : FloatVal) (host : HostEntry) :
    Tidy (probeHost (tracked env) cfg deadline host) := by
  apply tidy_bind (tidy_resolveAll env _)
  intro addrs
  apply tidy_bind (tidy_frames fun _ => by cases addrs <;> rfl)
  intro _
  apply tidy_bind (tidy_frames fun _ => rfl)
  intro addrInfo
  apply tidy_bind (tidy_probes env _ deadline addrInfo _ [] 0)
  rintro ⟨samples,attempts⟩
  apply tidy_bind (tidy_frames fun _ => rfl)
  intro _
  apply tidy_bind (tidy_frames fun _ => rfl)
  intro dropped
  apply tidy_bind (tidy_frames fun _ => rfl)
  rintro ⟨reported,stddev⟩
  exact tidy_frames fun _ => rfl

theorem tidy_readHosts (env : Env σ) (cfg : Config) (deadline : FloatVal) (hosts : List HostEntry) :
    Tidy (readHosts (tracked env) cfg deadline hosts) := by
  induction hosts with
  | nil => exact tidy_pure ()
  | cons host hosts ih =>
    apply tidy_bind (tidy_monotonic env)
    intro now
    split_ifs
    · exact tidy_frames fun _ => rfl
    · exact tidy_bind (tidy_probeHost env cfg deadline host) fun _ => ih

theorem tidy_readCb (env : Env σ) (cfg : Config) : Tidy (readCb (tracked env) cfg) := by
  apply tidy_bind (tidy_monotonic env)
  intro now
  apply tidy_bind
  · apply tidy_frames
    exact frames_bind (frames_catching _ fun _ => rfl) fun _ => frames_pure _ _
  intro budget
  exact tidy_readHosts env cfg _ cfg.hosts

/-- Over any number of passes, tracked and otherwise the same (how each of them
ends included), the calls on sockets are episodes one after the other: each
socket is closed before the next is opened, with a connect in between that is
not repeated. -/
theorem sockets_closed (run : List (Env σ × Config)) (w : World (σ × List SocketCall)) :
    passes run (erase w) = erase (passes (run.map fun p => (tracked p.1,p.2)) w) ∧
      results run (erase w) = results (run.map fun p => (tracked p.1,p.2)) w ∧
      ∃ episodes : List (List SocketCall),
        (passes (run.map fun p => (tracked p.1,p.2)) w).env.2 = w.env.2++episodes.flatten ∧
        ∀ ep ∈ episodes, Episode ep := by
  induction run generalizing w with
  | nil => exact ⟨rfl,rfl,between_same rfl⟩
  | cons pass rest ih =>
    obtain ⟨env,cfg⟩ := pass
    obtain ⟨hsame,hresults,episodes',h₂,hall₂⟩ := ih (readCb (tracked env) cfg w).2
    obtain ⟨episodes,h₁,hall₁⟩ := tidy_readCb env cfg w
    refine ⟨?_,?_,episodes++episodes',?_,List.forall_mem_append.mpr ⟨hall₁,hall₂⟩⟩
    · rw [List.map_cons, passes, passes, erase_readCb env cfg w]
      exact hsame
    · rw [List.map_cons, results, results, erase_readCb env cfg w]
      exact congrArg _ hresults
    · rw [List.flatten_append, ← List.append_assoc, ← h₁]
      exact h₂

end WireProbe.SocketUse
