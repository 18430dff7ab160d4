import WireProbe.ReadTrace

/-!
# Visits that start no handshake

A pass that spends its budget on name resolution gets to a host and probes
nothing. Such a visit still records an outcome, a failure: it leaves the entry
of its target alone exactly where the name did not resolve.
-/

set_option autoImplicit false

namespace WireProbe.StarvedVisits
open WireProbe.Floats WireProbe.Effect WireProbe.PluginConfig WireProbe.GetAddrInfo
open WireProbe.PluginRead WireProbe.ReadTrace WireProbe.PluginRotation

variable {σ : Type}

/-! ### The loop over the samples -/

theorem frames_tcpRtt (env : Env σ) (addr : AddrInfo) (timeout : FloatVal) :
    Frames World.addrState (tcpRtt env addr timeout) := fun w =>
  (external_handshake env addr timeout).frames w

theorem frames_resolveAll (env : Env σ) (key : StateKey) :
    Frames World.addrState (resolveAll env key) := fun w => (external_resolve env key).frames w

/-- The loop over the samples leaves the dictionary alone and resolves nothing;
without a handshake it returns what it was given. -/
theorem wp_probes_starved (env : Env σ) (timeout deadline : FloatVal) (addrInfo : Option AddrInfo)
    (n : ℕ) (samples : List ℚ) (attempts : ℕ) (w : World σ) :
    wp (probes env timeout deadline addrInfo n samples attempts) (fun r w' =>
      w'.addrState = w.addrState ∧ ∃ es, w'.log = w.log++es ∧ resolutions es = [] ∧
        records es = [] ∧ dispatched es = [] ∧
        (handshakes es = [] → r = .ok (samples,attempts))) w := by
  induction n generalizing samples attempts w with
  | zero => exact ⟨rfl,[],by simp [probes, pure],rfl,rfl,rfl,fun _ => rfl⟩
  | succ n ih =>
    cases addrInfo with
    | none => exact ⟨rfl,[],by simp [probes, pure],rfl,rfl,rfl,fun _ => rfl⟩
    | some addr =>
      apply wp_step (show PluginRead.monotonic env w = (.ok _,_) from rfl)
      simp only
      split_ifs with hremaining
      · exact ⟨rfl,[_],rfl,rfl,rfl,rfl,fun _ => rfl⟩
      · apply wp_seq (wp_and (wp_frame (frames_tcpRtt env addr _) _) (wp_tcpRtt env addr _ _))
        · rintro rtt w₂ ⟨hkept,-,stop,h₂⟩
          apply wp_mono (ih (samples++rtt.toList) (attempts+1) w₂)
          rintro r w₃ ⟨hst,es,h₃,hresolutions,hrecords,hdispatched,-⟩
          rw [h₂, List.append_assoc] at h₃
          exact ⟨hst.trans hkept,_,h₃,hresolutions,hrecords,hdispatched,
            by simp [handshakes, handshakeOf]⟩
        · rintro e w₂ ⟨hkept,-,stop,h₂⟩
          exact ⟨hkept,_,h₂,rfl,rfl,rfl,by simp [handshakes, handshakeOf]⟩

/-! ### One visit -/

/-- The dictionary after a visit without a handshake. -/
def starved (st : AddrState StateKey AddrInfo) (key : StateKey) :
    Except Failure (Option (List AddrInfo)) → AddrState StateKey AddrInfo
  | .error _ => st
  | .ok addrs =>
    (PluginRotation.recordOutcome (PluginRotation.preferredAddress st key addrs).1 key addrs false).1

/-- What a visit does to the dictionary: it touches the entry of its own target
only, and without a handshake it records a failure. -/
theorem wp_probeHost_entry (env : Env σ) (cfg : Config) (deadline : FloatVal) (host : HostEntry)
    (w : World σ) : wp (probeHost env cfg deadline host) (fun _ w' =>
      ∃ answer es, w'.log = w.log++es ∧
        resolutions es = [(stateKey cfg.defaultPort host,answer)] ∧ answer ≠ .ok (some []) ∧
        (∀ key, key ≠ stateKey cfg.defaultPort host → w'.addrState key = w.addrState key) ∧
        (handshakes es = [] →
          w'.addrState = starved w.addrState (stateKey cfg.defaultPort host) answer)) w := by
  show wp (resolveAll env (stateKey cfg.defaultPort host) >>= _) _ w
  apply wp_seq (wp_and (wp_frame (frames_resolveAll env _) w) (wp_resolveAll env _ w))
  · rintro answer w₁ ⟨hkept₁,-,hne,stop,h₁⟩
    obtain ⟨es₁,hwarn,hnoise₁⟩ := warnUnresolved_noise host.hostname answer w₁
    obtain ⟨addrInfo,hpreferred⟩ : ∃ addrInfo, PluginRead.preferredAddress
        (stateKey cfg.defaultPort host) answer {w₁ with log := w₁.log++es₁} = (.ok addrInfo,
          {w₁ with
            addrState := (PluginRotation.preferredAddress w.addrState
              (stateKey cfg.defaultPort host) answer).1
            log := w₁.log++es₁}) := by
      rw [← hkept₁]
      exact ⟨_,rfl⟩
    apply wp_step hwarn
    apply wp_step hpreferred
    apply wp_seq (wp_probes_starved env cfg.timeout deadline addrInfo cfg.pingCount.toNat [] 0 _)
    · rintro ⟨samples,attempts⟩ w₂ ⟨hkept₂,es₂,h₂,hr₂,hc₂,hd₂,hnone⟩
      apply wp_visitEnd
      intro ping dropped stddev es₃ _ _ hnoise₃
      obtain ⟨hresolutions,hhandshakes,-,-⟩ := visitLog_projections w.env stop
        (stateKey cfg.defaultPort host) answer (!samples.isEmpty)
        (labelOf cfg.defaultPort host) ping dropped stddev hnoise₁ hnoise₃ hr₂ hc₂ hd₂
      refine ⟨.ok answer,_,?_,hresolutions,hne,?_,?_⟩
      · show w₂.log++_ = _
        rw [h₂, h₁]
        simp only [visitLog, List.append_assoc]
      · intro key hkey
        exact (recordOutcome_other _ hkey _ _).trans ((congrFun hkept₂ key).trans
          (preferredAddress_other _ hkey _))
      · intro hstarved
        rw [hhandshakes] at hstarved
        obtain ⟨rfl,-⟩ := Prod.mk.inj (Except.ok.inj (hnone hstarved))
        exact congrArg (fun st => (PluginRotation.recordOutcome st _ answer false).1) hkept₂
    · rintro e w₂ ⟨hkept₂,es₂,h₂,hr₂,-,-,hnone⟩
      obtain ⟨hr₁,hh₁,-,-⟩ := hnoise₁
      refine ⟨.ok answer,[.resolve w.env stop (stateKey cfg.defaultPort host) (.ok answer)]++es₁++es₂,
        ?_,?_,hne,?_,?_⟩
      · rw [h₂, h₁]
        simp only [List.append_assoc]
      · simp only [resolutions_append, hr₁, hr₂]
        rfl
      · intro key hkey
        exact (congrFun hkept₂ key).trans (preferredAddress_other _ hkey _)
      · intro hstarved
        simp only [handshakes_append, List.append_eq_nil_iff] at hstarved
        exact absurd (hnone hstarved.2) (by simp)
  · rintro e w₁ ⟨hkept₁,-,hne,stop,h₁⟩
    exact ⟨.error e,_,h₁,rfl,hne,fun key _ => congrFun hkept₁ key,fun _ => hkept₁⟩

/-! ### The visits of a pass -/

/-- A host that a pass gets to, with the world before and after its visit. -/
structure Visit (σ : Type) where
  key : StateKey
  start : World σ
  outcome : Except Failure Unit
  stop : World σ

/-- The visits of the loop over the hosts. -/
def visits (env : Env σ) (cfg : Config) (deadline : FloatVal) :
    List HostEntry → World σ → List (Visit σ)
  | [], _ => []
  | host::rest, w =>
    let (now, env') := env.monotonic w.env
    if deadline ≤ .fin now then []
    else
      let start := { w with env := env' }
      let (outcome, stop) := probeHost env cfg deadline host start
      ⟨stateKey cfg.defaultPort host,start,outcome,stop⟩ ::
        match outcome with
        | .ok () => visits env cfg deadline rest stop
        | .error _ => []

def passVisits (env : Env σ) (cfg : Config) (w : World σ) : List (Visit σ) :=
  let (now, env') := env.monotonic w.env
  match readBudget env { w with env := env' } with
  | (.ok budget, w') => visits env cfg ((FloatVal.fin now).add budget) cfg.hosts w'
  | (.error _, _) => []

/-- What a visit added to the log. -/
def Visit.events (v : Visit σ) : List (Event σ) := v.stop.log.drop v.start.log.length

def Visit.Starved (v : Visit σ) : Prop := handshakes v.events = []

/-- The name of the target resolved to `addrs`. -/
def Visit.ResolvedTo (v : Visit σ) (addrs : List AddrInfo) : Prop :=
  (v.key,.ok (some addrs)) ∈ resolutions v.events

/-- The count of failures is left alone, and so is the selected address as long
as it is still answered. -/
def Visit.Kept (v : Visit σ) : Prop :=
  (entry v.stop.addrState v.key).failures = (entry v.start.addrState v.key).failures ∧
    ∀ a ∈ (entry v.start.addrState v.key).selected, ∀ addrs, v.ResolvedTo addrs → a ∈ addrs →
      (entry v.stop.addrState v.key).selected = some a

/-- A recorded failure always changes the count. -/
theorem starved_count_ne (st : AddrState StateKey AddrInfo) (key : StateKey) (first : AddrInfo)
    (rest : List AddrInfo) : (entry (starved st key (.ok (some (first::rest)))) key).failures ≠
      (entry st key).failures := by
  have hentry := cycle_entry st key first rest false
  rw [show starved st key (.ok (some (first::rest))) = (cycle key st (first::rest,false)).1 from rfl,
    hentry]
  rw [if_neg Bool.false_ne_true]
  by_cases hfew : (entry st key).failures+1 < rotateAfterFailures ∨ rest = []
  · rw [if_pos hfew]
    exact Nat.succ_ne_self _
  · rw [if_neg hfew, apply_ite Entry.failures, ite_self]
    simp only [not_or, rotateAfterFailures] at hfew
    show 0 ≠ (entry st key).failures
    omega

theorem starved_of_unresolved {st : AddrState StateKey AddrInfo} {key : StateKey}
    {answer : Except Failure (Option (List AddrInfo))} (h : ∀ addrs, answer ≠ .ok (some addrs)) :
    starved st key answer = st := by
  match answer with
  | .error e => rfl
  | .ok none => rfl
  | .ok (some addrs) => exact absurd rfl (h addrs)

/-! ### Where a visit without a handshake keeps the entry -/

theorem probeHost_visit (env : Env σ) (cfg : Config) (deadline : FloatVal) (host : HostEntry)
    (w : World σ) (v : Visit σ) (hv : v = ⟨stateKey cfg.defaultPort host,w,
      (probeHost env cfg deadline host w).1,(probeHost env cfg deadline host w).2⟩) :
    (∃ answer, resolutions v.events = [(v.key,answer)] ∧ answer ≠ .ok (some []) ∧
      (v.Starved → v.stop.addrState = starved v.start.addrState v.key answer)) ∧
    ∀ key, key ≠ v.key → v.stop.addrState key = v.start.addrState key := by
  obtain ⟨answer,es,hlog,hresolutions,hne,hother,hstarved⟩ :=
    wp_probeHost_entry env cfg deadline host w
  have hevents : v.events = es := by
    rw [Visit.events, hv]
    show (probeHost env cfg deadline host w).2.log.drop w.log.length = es
    rw [hlog, List.drop_left]
  subst hv
  refine ⟨⟨answer,?_,hne,?_⟩,hother⟩
  · rw [hevents, hresolutions]
  · intro h
    exact hstarved (by rwa [Visit.Starved, hevents] at h)

/-- Every visit of the loop is a call of `probeHost`. -/
theorem mem_visits {env : Env σ} {cfg : Config} {deadline : FloatVal} {hosts : List HostEntry}
    {w : World σ} {v : Visit σ} (h : v ∈ visits env cfg deadline hosts w) :
    ∃ host start, v = ⟨stateKey cfg.defaultPort host,start,
      (probeHost env cfg deadline host start).1,(probeHost env cfg deadline host start).2⟩ := by
  induction hosts generalizing w with
  | nil => exact absurd h List.not_mem_nil
  | cons host rest ih =>
    simp only [visits] at h
    split_ifs at h with hlate
    · exact absurd h List.not_mem_nil
    · rcases List.mem_cons.mp h with rfl | hrest
      · exact ⟨host,_,rfl⟩
      · split at hrest
        · exact ih hrest
        · exact absurd hrest List.not_mem_nil

theorem mem_passVisits {env : Env σ} {cfg : Config} {w : World σ} {v : Visit σ}
    (h : v ∈ passVisits env cfg w) : ∃ deadline host start, v = ⟨stateKey cfg.defaultPort host,
      start,(probeHost env cfg deadline host start).1,
      (probeHost env cfg deadline host start).2⟩ := by
  simp only [passVisits] at h
  split at h
  · exact ⟨_,mem_visits h⟩
  · exact absurd h List.not_mem_nil

theorem kept_iff_unresolved {v : Visit σ} {answer : Except Failure (Option (List AddrInfo))}
    (hresolutions : resolutions v.events = [(v.key,answer)]) (hne : answer ≠ .ok (some []))
    (hstop : v.stop.addrState = starved v.start.addrState v.key answer) :
    v.Kept ↔ ∀ addrs, ¬ v.ResolvedTo addrs := by
  have hresolved : ∀ addrs, v.ResolvedTo addrs ↔ answer = .ok (some addrs) := by
    intro addrs
    rw [Visit.ResolvedTo, hresolutions, List.mem_singleton, Prod.mk.injEq, eq_comm (a := answer)]
    exact and_iff_right rfl
  simp only [Visit.Kept, hresolved, hstop]
  match answer with
  | .error e => simp [starved]
  | .ok none => simp [starved, PluginRotation.recordOutcome, PluginRotation.preferredAddress]
  | .ok (some []) => exact absurd rfl hne
  | .ok (some (first::rest)) =>
    apply iff_of_false
    · rintro ⟨hcount,-⟩
      exact starved_count_ne _ _ first rest hcount
    · intro h
      exact h _ rfl

/-! ### Passes -/

/-- A loop whose visits of a target all leave its entry alone leaves it alone. -/
theorem readHosts_entry (env : Env σ) (cfg : Config) (deadline : FloatVal) (key : StateKey)
    (hosts : List HostEntry) (w : World σ)
    (h : ∀ v ∈ visits env cfg deadline hosts w,
      v.key = key → v.stop.addrState key = v.start.addrState key) :
    wp (readHosts env cfg deadline hosts) (fun _ w' => w'.addrState key = w.addrState key) w := by
  induction hosts generalizing w with
  | nil => rfl
  | cons host rest ih =>
    apply wp_step (show PluginRead.monotonic env w = (.ok _,_) from rfl)
    simp only [visits] at h
    split_ifs at h ⊢ with hlate
    · rfl
    · obtain ⟨hvisit,hrest⟩ := List.forall_mem_cons.mp h
      have hstop : (probeHost env cfg deadline host
          {w with env := (env.monotonic w.env).2}).2.addrState key = w.addrState key := by
        by_cases hkey : stateKey cfg.defaultPort host = key
        · exact hvisit hkey
        · exact (probeHost_visit env cfg deadline host _ _ rfl).2 key (Ne.symm hkey)
      apply wp_seq (P := fun r w' => r = (probeHost env cfg deadline host _).1 ∧
        w' = (probeHost env cfg deadline host _).2) ⟨rfl,rfl⟩
      · rintro ⟨⟩ w' ⟨hok,rfl⟩
        rw [← hok] at hrest
        apply wp_mono (ih _ hrest)
        intro r w'' hw
        exact hw.trans hstop
      · rintro e w' ⟨-,rfl⟩
        exact hstop

theorem readCb_entry (env : Env σ) (cfg : Config) (key : StateKey) (w : World σ)
    (h : ∀ v ∈ passVisits env cfg w, v.key = key → v.stop.addrState key = v.start.addrState key) :
    wp (readCb env cfg) (fun _ w' => w'.addrState key = w.addrState key) w := by
  apply wp_step (show PluginRead.monotonic env w = (.ok _,_) from rfl)
  have hkept : World.addrState _ = w.addrState :=
    (external_readBudget env).frames {w with env := (env.monotonic w.env).2}
  simp only [passVisits] at h
  have hrun : wp (readBudget env)
      (fun r w' => readBudget env {w with env := (env.monotonic w.env).2} = (r,w'))
      {w with env := (env.monotonic w.env).2} := rfl
  apply wp_seq hrun
  · intro budget w' hbudget
    rw [hbudget] at h hkept
    apply wp_mono (readHosts_entry env cfg _ key cfg.hosts w' h)
    intro r w'' hw
    exact hw.trans (congrFun hkept key)
  · intro e w' hbudget
    rw [hbudget] at hkept
    exact congrFun hkept key

/-- Passes one after the other, each under its own environment and configuration. -/
def passes : List (Env σ × Config) → World σ → World σ
  | [], w => w
  | (env,cfg)::rest, w => passes rest (readCb env cfg w).2

def AllVisits (P : Visit σ → Prop) : List (Env σ × Config) → World σ → Prop
  | [], _ => True
  | (env,cfg)::rest, w => (∀ v ∈ passVisits env cfg w, P v) ∧ AllVisits P rest (readCb env cfg w).2

/-- A visit that starts no handshake leaves the count of failures and the
selected address alone exactly where the name did not resolve; any number of
passes whose visits of a target are all of this kind leave its entry alone. -/
theorem starved_kept_iff :
    (∀ (env : Env σ) (cfg : Config) (w : World σ), ∀ v ∈ passVisits env cfg w, v.Starved →
      (v.Kept ↔ ∀ addrs, ¬ v.ResolvedTo addrs)) ∧
    ∀ (key : StateKey) (run : List (Env σ × Config)) (w : World σ),
      AllVisits (fun v => v.key = key → v.Starved ∧ ∀ addrs, ¬ v.ResolvedTo addrs) run w →
      (passes run w).addrState key = w.addrState key := by
  constructor
  · intro env cfg w v hv hstarved
    obtain ⟨deadline,host,start,hcall⟩ := mem_passVisits hv
    obtain ⟨⟨answer,hresolutions,hne,hstop⟩,-⟩ := probeHost_visit env cfg deadline host start v hcall
    exact kept_iff_unresolved hresolutions hne (hstop hstarved)
  · intro key run
    induction run with
    | nil => exact fun w _ => rfl
    | cons pass rest ih =>
      obtain ⟨env,cfg⟩ := pass
      rintro w ⟨hvisits,hrest⟩
      have hpass : (readCb env cfg w).2.addrState key = w.addrState key := by
        apply readCb_entry env cfg key w
        intro v hv hkey
        obtain ⟨hstarved,hunresolved⟩ := hvisits v hv hkey
        obtain ⟨deadline,host,start,hcall⟩ := mem_passVisits hv
        obtain ⟨⟨answer,hresolutions,-,hstop⟩,-⟩ :=
          probeHost_visit env cfg deadline host start v hcall
        rw [hstop hstarved, starved_of_unresolved fun addrs h => hunresolved addrs ?_]
        rw [Visit.ResolvedTo, hresolutions, h]
        exact List.mem_singleton_self _
      exact (ih _ hrest).trans hpass

/-- The state is the clock; a resolution takes twenty seconds. -/
def stalling (answer : Except Exception (List AddrInfo)) : Env ℚ where
  monotonic := fun s => (s,s)
  getInterval := fun s => (.ok (.fin 10),s)
  getaddrinfo := fun _ s => (answer,s+20)
  socket := fun _ s => (.ok (),s)
  connect := fun _ _ s => (.ok (),s)
  hasTcpInfo := false
  byteOrder := .little
  getsockopt := fun s => (.error .osError,s)
  close := fun s => s

def watched : Config := {hosts := [⟨"db".toList,"db".toList,none⟩]}

/-- The target has failed four times on its selected address. -/
def worn : World ℚ := ⟨0,fun _ => some ⟨some answer1,4⟩,[]⟩

theorem starved_kept_iff_unanswered :
    (∀ v ∈ passVisits (stalling (.error .osError)) watched worn, v.Kept) ∧
    (passes [(stalling (.error .osError),watched)] worn).addrState ("db".toList,9999) =
      some ⟨some answer1,4⟩ := by
  have hvisit : (passVisits (stalling (.error .osError)) watched worn).map
      (fun v => (handshakes v.events,(resolutions v.events).map fun r => r.2.toOption.map (·.isSome))) =
        [([],[some false])] := by decide +kernel
  obtain ⟨v,hvisits,hv⟩ := List.map_eq_singleton_iff.mp hvisit
  simp only [Prod.mk.injEq] at hv
  have hunresolved : ∀ addrs, ¬ v.ResolvedTo addrs := by
    intro addrs h
    have hanswer := List.mem_map_of_mem (f := fun r => r.2.toOption.map (·.isSome)) h
    rw [hv.2] at hanswer
    exact absurd hanswer (by simp [Except.toOption])
  have hall : ∀ u ∈ passVisits (stalling (.error .osError)) watched worn,
      u.Starved ∧ ∀ addrs, ¬ u.ResolvedTo addrs := by
    rw [hvisits]
    exact List.forall_mem_singleton.mpr ⟨hv.1,hunresolved⟩
  constructor
  · intro u hu
    exact (starved_kept_iff.1 _ _ _ u hu (hall u hu).1).mpr (hall u hu).2
  · exact starved_kept_iff.2 _ [(stalling (.error .osError),watched)] worn
      ⟨fun u hu _ => hall u hu,trivial⟩

/-- A visit that starts no handshake is counted as a failure, and the fifth in a
row rotates the probe off an address it never tried. -/
theorem starved_visit_rotates : ¬ ∀ (env : Env ℚ) (cfg : Config) (w : World ℚ),
    ∀ v ∈ passVisits env cfg w, v.Starved → v.Kept := by
  intro h
  have hvisit : (passVisits (stalling (.ok [answer1,answer2])) watched worn).map
      (fun v => (handshakes v.events,(entry v.start.addrState v.key).failures,
        (entry v.stop.addrState v.key).failures)) = [([],4,0)] := by decide +kernel
  obtain ⟨v,hvisits,hv⟩ := List.map_eq_singleton_iff.mp hvisit
  simp only [Prod.mk.injEq] at hv
  have hkept := (h _ _ _ v (hvisits ▸ List.mem_singleton_self v) hv.1).1
  rw [hv.2.1, hv.2.2] at hkept
  exact absurd hkept (by decide)

end WireProbe.StarvedVisits
