import Mathlib.Data.List.ReduceOption
import WireProbe.PluginRead
import WireProbe.Statistics

/-!
# What a pass logs

The log of a pass is read through one projection for each kind of event. The
specifications below say what each function of the read callback adds to it;
they are composed along the binds of the program.
-/

set_option autoImplicit false

namespace WireProbe.ReadTrace
open WireProbe.Floats WireProbe.Effect WireProbe.PluginConfig WireProbe.GetAddrInfo
open WireProbe.PluginRead WireProbe.Statistics

variable {σ α β : Type}

/-! ### Projections of the log -/

def resolutionOf : Event σ → Option (StateKey × Except Failure (Option (List AddrInfo)))
  | .resolve _ _ key answer => some (key,answer)
  | _ => none

def handshakeOf : Event σ → Option (FloatVal × Except Failure (Option ℚ))
  | .handshake _ _ _ timeout rtt => some (timeout,rtt)
  | _ => none

def recordOf : Event σ → Option StateKey
  | .record key _ => some key
  | _ => none

def dispatchOf : Event σ → Option (List Char × ValueType × Reading)
  | .dispatch typeInstance type value => some (typeInstance,type,value)
  | _ => none

def resolutions (events : List (Event σ)) := events.filterMap resolutionOf
def handshakes (events : List (Event σ)) := events.filterMap handshakeOf
def records (events : List (Event σ)) := events.filterMap recordOf
def dispatched (events : List (Event σ)) := events.filterMap dispatchOf

@[simp] theorem resolutions_append (es es' : List (Event σ)) :
    resolutions (es++es') = resolutions es++resolutions es' := List.filterMap_append
@[simp] theorem handshakes_append (es es' : List (Event σ)) :
    handshakes (es++es') = handshakes es++handshakes es' := List.filterMap_append
@[simp] theorem records_append (es es' : List (Event σ)) :
    records (es++es') = records es++records es' := List.filterMap_append
@[simp] theorem dispatched_append (es es' : List (Event σ)) :
    dispatched (es++es') = dispatched es++dispatched es' := List.filterMap_append

/-! ### Programs that log nothing -/

/-- No exception of the pass's own arithmetic. -/
def Plain : Except Failure α → Prop
  | .ok _ => True
  | .error e => ∃ x, e = .raised x

theorem plain_raising (r : Except Exception α) : Plain (raising r) := by
  cases r with
  | ok a => trivial
  | error e => exact ⟨e,rfl⟩

def Silent (m : Py σ α) : Prop := ∀ w, wp m (fun r w' => w'.log = w.log ∧ Plain r) w

/-- `m` talks to the environment, and touches neither the log nor the dictionary. -/
def External (m : Py σ α) : Prop :=
  ∀ w, wp m (fun r w' => (w'.addrState,w'.log) = (w.addrState,w.log) ∧ Plain r) w

theorem External.silent {m : Py σ α} (h : External m) : Silent m :=
  fun w => ⟨congrArg Prod.snd (h w).1,(h w).2⟩

theorem External.frames {m : Py σ α} (h : External m) : Frames World.addrState m :=
  fun w => congrArg Prod.fst (h w).1

theorem external_pure (a : α) : External (σ := σ) (pure a) := fun _ => ⟨rfl,trivial⟩

theorem external_ofExcept {r : Except Failure α} (hr : Plain r) : External (σ := σ) (ofExcept r) :=
  fun _ => ⟨rfl,hr⟩

theorem external_call (f : σ → Except Exception α × σ) : External (call f) :=
  fun w => ⟨rfl,plain_raising (f w.env).1⟩

theorem external_bind {m : Py σ α} {f : α → Py σ β} (hm : External m)
    (hf : ∀ a, External (f a)) : External (m >>= f) := by
  intro w
  apply wp_seq (hm w)
  · intro a w₁ h
    apply wp_mono (hf a w₁)
    intro r w₂ h'
    exact ⟨h'.1.trans h.1,h'.2⟩
  · intro e w₁ h
    exact h

theorem external_catching {m : Py σ α} (handler : Failure → Option α) (hm : External m) :
    External (m.catching handler) := by
  intro w
  rw [wp_catching]
  apply wp_mono (hm w)
  intro r w₁ h
  cases r with
  | ok a => exact h
  | error e =>
    refine ⟨h.1,?_⟩
    cases hhandler : handler e with
    | none => exact h.2
    | some a => trivial

theorem external_ensuring {m : Py σ α} {cleanup : World σ → World σ} (hm : External m)
    (hcleanup : ∀ w, ((cleanup w).addrState,(cleanup w).log) = (w.addrState,w.log)) :
    External (m.ensuring cleanup) := by
  intro w
  rw [wp_ensuring]
  apply wp_mono (hm w)
  intro r w₁ h
  exact ⟨(hcleanup w₁).trans h.1,h.2⟩

theorem external_monotonic (env : Env σ) : External (monotonic env) := external_call _

theorem external_readBudget (env : Env σ) : External (readBudget env) :=
  external_bind (external_catching _ (external_call _)) (fun _ => external_pure _)

theorem external_resolve (env : Env σ) (key : StateKey) : External (resolve env key) :=
  external_catching _ (external_bind (external_call _) (fun _ => external_pure _))

theorem external_kernelRttMs (env : Env σ) : External (kernelRttMs env) := by
  unfold kernelRttMs
  split_ifs
  · apply external_bind
      (external_catching _ (external_bind (external_call _) (fun _ => external_pure _)))
    intro raw
    cases raw with
    | none => exact external_pure none
    | some raw => exact external_ofExcept (plain_raising _)
  · exact external_pure none

theorem plain_settimeout (timeout : FloatVal) : Plain (settimeout timeout) := by
  unfold settimeout
  cases timeout with
  | fin t =>
    simp only
    split_ifs
    · exact ⟨_,rfl⟩
    · exact ⟨_,rfl⟩
    · trivial
  | posInf => exact ⟨_,rfl⟩
  | negInf => exact ⟨_,rfl⟩
  | nan => exact ⟨_,rfl⟩

theorem external_timedConnect (env : Env σ) (addr : AddrInfo) (timeout : FloatVal) :
    External (timedConnect env addr timeout) := by
  apply external_bind (external_ofExcept (plain_settimeout timeout))
  intro _
  apply external_bind (external_monotonic env)
  intro t₀
  apply external_bind (external_call _)
  intro _
  apply external_bind (external_monotonic env)
  intro t₁
  exact external_bind (external_kernelRttMs env) (fun _ => external_pure _)

theorem external_handshake (env : Env σ) (addr : AddrInfo) (timeout : FloatVal) :
    External (handshake env addr timeout) := by
  apply external_bind (external_call _)
  intro _
  exact external_ensuring (external_catching _ (external_timedConnect env addr timeout))
    (fun _ => rfl)

/-! ### The resolver, the handshakes and the outcome -/

theorem resolve_ne_nil (env : Env σ) (key : StateKey) (w : World σ) :
    wp (resolve env key) (fun r _ => r ≠ .ok (some [])) w := by
  unfold resolve
  rw [wp_catching]
  apply wp_seq (P := fun _ _ => True) trivial
  · intro addrs w₁ _
    cases addrs with
    | nil => simp [wp_pure, orNone]
    | cons first rest => simp [wp_pure, orNone]
  · intro e w₁ _
    cases e with
    | raised x => cases x <;> simp
    | zeroDivision => simp
    | mathDomain => simp

theorem wp_resolveAll (env : Env σ) (key : StateKey) (w : World σ) :
    wp (resolveAll env key) (fun r w' => Plain r ∧ r ≠ .ok (some []) ∧
      ∃ stop, w'.log = w.log++[.resolve w.env stop key r]) w := by
  obtain ⟨hlog,hplain⟩ := (external_resolve env key).silent w
  exact ⟨hplain,resolve_ne_nil env key w,_,congrArg (·++_) hlog⟩

theorem wp_tcpRtt (env : Env σ) (addr : AddrInfo) (timeout : FloatVal) (w : World σ) :
    wp (tcpRtt env addr timeout) (fun r w' => Plain r ∧
      ∃ stop, w'.log = w.log++[.handshake w.env stop addr timeout r]) w := by
  obtain ⟨hlog,hplain⟩ := (external_handshake env addr timeout).silent w
  exact ⟨hplain,_,congrArg (·++_) hlog⟩

/-- Every handshake got the configured timeout or what remained, if less. -/
def Within (timeout : FloatVal) (es : List (Event σ)) : Prop :=
  ∀ h ∈ handshakes es, ∃ remaining, ¬remaining ≤ .fin 0 ∧ h.1 = timeout.min remaining

theorem Within.append {timeout : FloatVal} {es es' : List (Event σ)} (h : Within timeout es)
    (h' : Within timeout es') : Within timeout (es++es') := by
  intro x hx
  rw [handshakes_append] at hx
  rcases List.mem_append.mp hx with hx | hx
  · exact h x hx
  · exact h' x hx

theorem Within.congr {timeout : FloatVal} {es es' : List (Event σ)} (h : Within timeout es)
    (hes : handshakes es' = handshakes es) : Within timeout es' := by
  unfold Within
  rw [hes]
  exact h

theorem Within.of_none {timeout : FloatVal} {es : List (Event σ)} (h : handshakes es = []) :
    Within timeout es := by
  intro x hx
  rw [h] at hx
  exact absurd hx List.not_mem_nil

/-- What the loop over `range(ping_count)` logs: handshakes and a warning. Its
samples and attempts count the handshakes. -/
structure Probed (timeout : FloatVal) (addrInfo : Option AddrInfo) (n : ℕ) (samples : List ℚ)
    (attempts : ℕ) (r : Except Failure (List ℚ × ℕ)) (es : List (Event σ)) : Prop where
  plain : Plain r
  resolutions : resolutions es = []
  records : records es = []
  dispatched : dispatched es = []
  within : Within timeout es
  counted : ∀ out, r = .ok out → ∃ outcomes : List (Option ℚ),
    (handshakes es).map Prod.snd = outcomes.map .ok ∧ outcomes.length ≤ n ∧
      (addrInfo = none → outcomes = []) ∧
      out = (samples++outcomes.reduceOption,attempts+outcomes.length)

theorem probed_nothing (timeout : FloatVal) (addrInfo : Option AddrInfo) (n : ℕ)
    (samples : List ℚ) (attempts : ℕ) (es : List (Event σ)) (hresolutions : resolutions es = [])
    (hrecords : records es = []) (hdispatched : dispatched es = [])
    (hhandshakes : handshakes es = []) :
    Probed timeout addrInfo n samples attempts (.ok (samples,attempts)) es where
  plain := trivial
  resolutions := hresolutions
  records := hrecords
  dispatched := hdispatched
  within := Within.of_none hhandshakes
  counted := by
    rintro out ⟨⟩
    exact ⟨[],by simp [hhandshakes],by simp,fun _ => rfl,by simp [List.reduceOption_nil]⟩

theorem probed_raised {timeout : FloatVal} {addrInfo : Option AddrInfo} {n : ℕ}
    {samples : List ℚ} {attempts : ℕ} {e : Failure} {es : List (Event σ)}
    (hplain : Plain (α := List ℚ × ℕ) (.error e)) (hresolutions : resolutions es = [])
    (hrecords : records es = []) (hdispatched : dispatched es = []) (hwithin : Within timeout es) :
    Probed timeout addrInfo n samples attempts (.error e) es where
  plain := hplain
  resolutions := hresolutions
  records := hrecords
  dispatched := hdispatched
  within := hwithin
  counted := by
    rintro out ⟨⟩

theorem Within.handshake {timeout remaining : FloatVal} (hremaining : ¬remaining ≤ .fin 0)
    (start stop : σ) (addr : AddrInfo) (rtt : Except Failure (Option ℚ)) :
    Within timeout [Event.handshake start stop addr (timeout.min remaining) rtt] := by
  intro x hx
  rw [List.mem_singleton.mp hx]
  exact ⟨remaining,hremaining,rfl⟩

/-- One more handshake in front of the rest of the loop. -/
theorem Probed.step {timeout remaining : FloatVal} (hremaining : ¬remaining ≤ .fin 0)
    (start stop : σ) {addr : AddrInfo} {rtt : Option ℚ} {n : ℕ} {samples : List ℚ} {attempts : ℕ}
    {r : Except Failure (List ℚ × ℕ)} {es : List (Event σ)}
    (h : Probed timeout (some addr) n (samples++rtt.toList) (attempts+1) r es) :
    Probed timeout (some addr) (n+1) samples attempts r
      (Event.handshake start stop addr (timeout.min remaining) (.ok rtt)::es) where
  plain := h.plain
  resolutions := h.resolutions
  records := h.records
  dispatched := h.dispatched
  within := (Within.handshake hremaining start stop addr (.ok rtt)).append h.within
  counted := by
    intro out hout
    obtain ⟨outcomes,houtcomes,hlen,-,hcount⟩ := h.counted out hout
    refine ⟨rtt::outcomes,?_,?_,fun hnone => absurd hnone (Option.some_ne_none addr),?_⟩
    · rw [List.map_cons, ← houtcomes]
      rfl
    · rw [List.length_cons]
      omega
    · rw [hcount, List.append_assoc, List.length_cons]
      congr 1
      · cases rtt <;> rfl
      · omega

theorem wp_probes (env : Env σ) (timeout deadline : FloatVal) (addrInfo : Option AddrInfo)
    (n : ℕ) (samples : List ℚ) (attempts : ℕ) (w : World σ) :
    wp (probes env timeout deadline addrInfo n samples attempts) (fun r w' =>
      ∃ es, w'.log = w.log++es ∧ Probed timeout addrInfo n samples attempts r es) w := by
  induction n generalizing samples attempts w with
  | zero => exact ⟨[],by simp [probes, pure],probed_nothing _ _ _ _ _ _ rfl rfl rfl rfl⟩
  | succ n ih =>
    cases addrInfo with
    | none => exact ⟨[],by simp [probes, pure],probed_nothing _ _ _ _ _ _ rfl rfl rfl rfl⟩
    | some addr =>
      apply wp_seq ((external_monotonic env).silent w)
      · intro now w₁ h₁
        simp only
        split_ifs with hremaining
        · exact ⟨[_],congrArg (·++_) h₁.1,probed_nothing _ _ _ _ _ _ rfl rfl rfl rfl⟩
        · apply wp_seq (wp_tcpRtt env addr (timeout.min (deadline.sub (.fin now))) w₁)
          · rintro rtt w₂ ⟨-,stop,h₂⟩
            apply wp_mono (ih (samples++rtt.toList) (attempts+1) w₂)
            rintro r w₃ ⟨es,h₃,hprobed⟩
            rw [h₂, h₁.1, List.append_assoc] at h₃
            exact ⟨_,h₃,hprobed.step hremaining w₁.env stop⟩
          · rintro e w₂ ⟨hplain,stop,h₂⟩
            rw [h₁.1] at h₂
            exact ⟨_,h₂,probed_raised hplain rfl rfl rfl (Within.handshake hremaining _ _ _ _)⟩
      · rintro e w₁ ⟨hlog,hplain⟩
        exact ⟨[],by simp [hlog],probed_raised hplain rfl rfl rfl (Within.of_none rfl)⟩

/-! ### One host -/

/-- An address is selected exactly where the name resolved. -/
theorem preferredAddress_spec (key : StateKey) {answer : Option (List AddrInfo)}
    (h : answer ≠ some []) (w : World σ) : ∃ addrInfo st,
      preferredAddress key answer w = (.ok addrInfo,{w with addrState := st}) ∧
        addrInfo.isSome = answer.isSome := by
  refine ⟨_,_,rfl,?_⟩
  cases answer with
  | none => rfl
  | some addrs =>
    cases addrs with
    | nil => exact absurd rfl h
    | cons first rest => rfl

/-- The drop rate as a number, with the division carried out. -/
theorem droprate_eq (addrInfo : Option AddrInfo) (attempts : ℕ) (samples : List ℚ) :
    droprate addrInfo attempts samples = .ok (
      if addrInfo = none then .num 1
      else if attempts = 0 then .nan
      else .num ((attempts-samples.length)/attempts)) := by
  cases addrInfo with
  | none => rfl
  | some addr =>
    by_cases h : attempts = 0
    · simp [droprate, h]
    · simp [droprate, h, divide, bind, Except.bind, pure, Except.pure]

theorem statistics_eq (aggregate : Aggregate) (samples : List ℚ) :
    statistics aggregate samples = .ok (match samples with
      | [] => (.nan,.nan)
      | first::rest => (.num (match aggregate with
          | .min => rest.foldl min first
          | .avg => mean samples),
        if 1 < samples.length then .sqrt (variance samples) else .nan)) := by
  cases samples with
  | nil => rfl
  | cons first rest =>
    have hlen : ((first::rest).length : ℚ) ≠ 0 := Nat.cast_ne_zero.mpr (by simp)
    have hdivide : ∀ q : ℚ, divide q (first::rest).length = .ok (q/(first::rest).length) :=
      fun q => if_neg hlen
    have hsqrt : sqrt (variance (first::rest)) = .ok (.sqrt (variance (first::rest))) :=
      if_neg (not_lt.mpr (variance_nonneg _))
    unfold statistics
    simp only [hdivide, bind, Except.bind]
    split_ifs with h
    · rw [variance, mean] at hsqrt
      simp only [hsqrt]
      rfl
    · rfl

/-- Events that no projection sees: warnings. -/
def Noise (es : List (Event σ)) : Prop :=
  resolutions es = [] ∧ handshakes es = [] ∧ records es = [] ∧ dispatched es = []

theorem warnUnresolved_noise (hostname : List Char) (answer : Option (List AddrInfo))
    (w : World σ) : ∃ es, warnUnresolved hostname answer w = (.ok (),{w with log := w.log++es}) ∧
      Noise es := by
  cases answer with
  | none => exact ⟨[_],rfl,rfl,rfl,rfl,rfl⟩
  | some addrs => exact ⟨[],by simp [warnUnresolved, pure],rfl,rfl,rfl,rfl⟩

theorem rotated_noise (key : StateKey) (rotated : Option AddrInfo) :
    Noise (rotated.map fun nxt => Event.warning (σ := σ) (rotationWarning key nxt)).toList := by
  cases rotated with
  | none => exact ⟨rfl,rfl,rfl,rfl⟩
  | some nxt => exact ⟨rfl,rfl,rfl,rfl⟩

/-- What is dispatched for a host, from the answer of the resolver and the
results of its handshakes. -/
def Dispatches (cfg : Config) (host : HostEntry) (es : List (Event σ)) : Prop :=
  ∃ (answer : Option (List AddrInfo)) (addrInfo : Option AddrInfo) (outcomes : List (Option ℚ))
    (ping dropped stddev : Reading),
    resolutions es = [(stateKey cfg.defaultPort host,.ok answer)] ∧
    addrInfo.isSome = answer.isSome ∧
    (handshakes es).map Prod.snd = outcomes.map .ok ∧ outcomes.length ≤ cfg.pingCount.toNat ∧
    (addrInfo = none → outcomes = []) ∧
    droprate addrInfo outcomes.length outcomes.reduceOption = .ok dropped ∧
    statistics cfg.aggregate outcomes.reduceOption = .ok (ping,stddev) ∧
    dispatched es = [(labelOf cfg.defaultPort host,.ping,ping),
      (labelOf cfg.defaultPort host,.pingDroprate,dropped),
      (labelOf cfg.defaultPort host,.pingStddev,stddev)]

/-- What the pass logs for a host it gets to. The outcome is recorded and the
values are dispatched unless a call raised. -/
structure Visited (cfg : Config) (host : HostEntry) (r : Except Failure Unit)
    (es : List (Event σ)) : Prop where
  plain : Plain r
  within : Within cfg.timeout es
  resolutions : (resolutions es).map Prod.fst = [stateKey cfg.defaultPort host]
  finished : r = .ok () → records es = [stateKey cfg.defaultPort host] ∧ Dispatches cfg host es
  raised : ∀ e, r = .error e → records es = [] ∧ dispatched es = []

/-- The events of a whole visit: the resolver, a warning, the handshakes, the
recorded outcome, a warning and three values. -/
def visitLog (start stop : σ) (key : StateKey) (answer : Option (List AddrInfo)) (ok : Bool)
    (label : List Char) (ping dropped stddev : Reading) (es₁ es₂ es₃ : List (Event σ)) :
    List (Event σ) :=
  [.resolve start stop key (.ok answer)]++es₁++es₂++[.record key ok]++es₃++
    [.dispatch label .ping ping,.dispatch label .pingDroprate dropped,
      .dispatch label .pingStddev stddev]

section VisitLog
variable (start stop : σ) (key : StateKey) (answer : Option (List AddrInfo)) (ok : Bool)
variable (label : List Char) (ping dropped stddev : Reading) {es₁ es₂ es₃ : List (Event σ)}

theorem visitLog_projections (h₁ : Noise es₁) (h₃ : Noise es₃) (hresolutions : resolutions es₂ = [])
    (hrecords : records es₂ = []) (hdispatched : dispatched es₂ = []) :
    resolutions (visitLog start stop key answer ok label ping dropped stddev es₁ es₂ es₃) =
        [(key,.ok answer)] ∧
      handshakes (visitLog start stop key answer ok label ping dropped stddev es₁ es₂ es₃) =
        handshakes es₂ ∧
      records (visitLog start stop key answer ok label ping dropped stddev es₁ es₂ es₃) = [key] ∧
      dispatched (visitLog start stop key answer ok label ping dropped stddev es₁ es₂ es₃) =
        [(label,.ping,ping),(label,.pingDroprate,dropped),(label,.pingStddev,stddev)] := by
  obtain ⟨hr₁,hh₁,hc₁,hd₁⟩ := h₁
  obtain ⟨hr₃,hh₃,hc₃,hd₃⟩ := h₃
  refine ⟨?_,?_,?_,?_⟩
  · simp only [visitLog, resolutions_append, hr₁, hr₃, hresolutions]
    rfl
  · simp only [visitLog, handshakes_append, hh₁, hh₃]
    show []++[]++handshakes es₂++[]++[]++[] = handshakes es₂
    simp only [List.nil_append, List.append_nil]
  · simp only [visitLog, records_append, hc₁, hc₃, hrecords]
    rfl
  · simp only [visitLog, dispatched_append, hd₁, hd₃, hdispatched]
    rfl

end VisitLog

/-- The end of a visit cannot raise: the outcome is recorded, and the values
are computed and dispatched. -/
theorem wp_visitEnd (aggregate : Aggregate) (key : StateKey) (label : List Char)
    (answer : Option (List AddrInfo)) (addrInfo : Option AddrInfo) (samples : List ℚ)
    (attempts : ℕ) (w : World σ) {Q : Except Failure Unit → World σ → Prop}
    (hQ : ∀ ping dropped stddev es, droprate addrInfo attempts samples = .ok dropped →
      statistics aggregate samples = .ok (ping,stddev) → Noise es → Q (.ok ())
        ⟨w.env,(PluginRotation.recordOutcome w.addrState key answer (!samples.isEmpty)).1,
          w.log++([.record key (!samples.isEmpty)]++es++[.dispatch label .ping ping,
            .dispatch label .pingDroprate dropped,.dispatch label .pingStddev stddev])⟩) :
    wp (do
      recordOutcome key answer (!samples.isEmpty)
      let dropped ← ofExcept (droprate addrInfo attempts samples)
      let (reported, stddev) ← ofExcept (statistics aggregate samples)
      emit label .ping reported
      emit label .pingDroprate dropped
      emit label .pingStddev stddev) Q w := by
  obtain ⟨dropped,hdropped⟩ : ∃ v, droprate addrInfo attempts samples = .ok v :=
    ⟨_,droprate_eq _ _ _⟩
  obtain ⟨⟨ping,stddev⟩,hstatistics⟩ : ∃ p, statistics aggregate samples = .ok p :=
    ⟨_,statistics_eq _ _⟩
  have hnoise := rotated_noise (σ := σ) key
    (PluginRotation.recordOutcome w.addrState key answer (!samples.isEmpty)).2
  have hend := hQ ping dropped stddev _ hdropped hstatistics hnoise
  rw [hdropped, hstatistics]
  simp only [List.cons_append, List.nil_append] at hend
  show Q (.ok ()) ⟨w.env,_,w.log++_::_++[_]++[_]++[_]⟩
  simp only [List.append_assoc, List.cons_append, List.nil_append]
  exact hend

theorem wp_probeHost (env : Env σ) (cfg : Config) (deadline : FloatVal) (host : HostEntry)
    (w : World σ) : wp (probeHost env cfg deadline host) (fun r w' =>
      ∃ es, w'.log = w.log++es ∧ Visited cfg host r es) w := by
  show wp (resolveAll env (stateKey cfg.defaultPort host) >>= _) _ w
  apply wp_seq (wp_resolveAll env (stateKey cfg.defaultPort host) w)
  · rintro answer w₁ ⟨-,hne,stop,h₁⟩
    obtain ⟨es₁,hwarn,hnoise₁⟩ := warnUnresolved_noise host.hostname answer w₁
    obtain ⟨addrInfo,st₁,hpreferred,hsome⟩ := preferredAddress_spec (stateKey cfg.defaultPort host)
      (fun h => hne (congrArg _ h)) {w₁ with log := w₁.log++es₁}
    apply wp_step hwarn
    apply wp_step hpreferred
    apply wp_seq (wp_probes env cfg.timeout deadline _ cfg.pingCount.toNat [] 0 _)
    · rintro ⟨samples,attempts⟩ w₂ ⟨es₂,h₂,hprobed⟩
      obtain ⟨outcomes,houtcomes,hlen,hnone,hcount⟩ := hprobed.counted _ rfl
      simp only [List.nil_append, Nat.zero_add, Prod.mk.injEq] at hcount
      obtain ⟨rfl,rfl⟩ := hcount
      apply wp_visitEnd
      intro ping dropped stddev es₃ hdropped hstatistics hnoise₃
      obtain ⟨hresolutions,hhandshakes,hrecords,hdispatched⟩ := visitLog_projections w.env stop
        (stateKey cfg.defaultPort host) answer (!outcomes.reduceOption.isEmpty)
        (labelOf cfg.defaultPort host) ping dropped stddev hnoise₁ hnoise₃ hprobed.resolutions
        hprobed.records hprobed.dispatched
      refine ⟨visitLog w.env stop (stateKey cfg.defaultPort host) answer
        (!outcomes.reduceOption.isEmpty) (labelOf cfg.defaultPort host) ping dropped stddev
        es₁ es₂ es₃,?_,?_⟩
      · show w₂.log++_ = _
        rw [h₂, h₁]
        simp only [visitLog, List.append_assoc]
      · refine ⟨trivial,?_,?_,fun _ => ⟨hrecords,?_⟩,by rintro e ⟨⟩⟩
        · exact hprobed.within.congr hhandshakes
        · rw [hresolutions]
          rfl
        · exact ⟨answer,addrInfo,outcomes,ping,dropped,stddev,hresolutions,hsome,
            hhandshakes ▸ houtcomes,hlen,hnone,hdropped,hstatistics,hdispatched⟩
    · rintro e w₂ ⟨es₂,h₂,hprobed⟩
      refine ⟨[.resolve w.env stop (stateKey cfg.defaultPort host) (.ok answer)]++es₁++es₂,?_,?_⟩
      · rw [h₂, h₁]
        simp only [List.append_assoc]
      · obtain ⟨hr₁,hh₁,hc₁,hd₁⟩ := hnoise₁
        refine ⟨hprobed.plain,?_,?_,(by rintro ⟨⟩),fun _ _ => ⟨?_,?_⟩⟩
        · apply hprobed.within.congr
          simp only [handshakes_append, hh₁]
          rfl
        · simp only [resolutions_append, hr₁, hprobed.resolutions]
          rfl
        · simp only [records_append, hc₁, hprobed.records]
          rfl
        · simp only [dispatched_append, hd₁, hprobed.dispatched]
          rfl
  · rintro e w₁ ⟨hplain,-,stop,h₁⟩
    exact ⟨_,h₁,hplain,Within.of_none rfl,rfl,(by rintro ⟨⟩),fun _ _ => ⟨rfl,rfl⟩⟩

/-! ### The whole pass -/

/-- A pass visits hosts in order. It ends past the last one, at the deadline,
or in a visit that raises; nothing is dispatched after the visits it finished. -/
structure PassLog (cfg : Config) (hosts : List HostEntry) (r : Except Failure Unit)
    (es : List (Event σ)) : Prop where
  plain : Plain r
  visits : ∃ finished rest visits tail, hosts = finished++rest ∧ es = visits.flatten++tail ∧
    List.Forall₂ (fun host visit => Visited cfg host (.ok ()) visit) finished visits ∧
    (Noise tail ∨ ∃ host rest' e, rest = host::rest' ∧ Visited cfg host (.error e) tail)

theorem passLog_noise {cfg : Config} {hosts : List HostEntry} {r : Except Failure Unit}
    {es : List (Event σ)} (hplain : Plain r) (hnoise : Noise es) : PassLog cfg hosts r es :=
  ⟨hplain,[],hosts,[],es,rfl,rfl,.nil,.inl hnoise⟩

theorem PassLog.visit {cfg : Config} {host : HostEntry} {hosts : List HostEntry}
    {r : Except Failure Unit} {visit es : List (Event σ)} (hvisit : Visited cfg host (.ok ()) visit)
    (h : PassLog cfg hosts r es) : PassLog cfg (host::hosts) r (visit++es) := by
  obtain ⟨hplain,finished,rest,visits,tail,hhosts,hes,hvisits,htail⟩ := h
  refine ⟨hplain,host::finished,rest,visit::visits,tail,?_,?_,.cons hvisit hvisits,htail⟩
  · rw [hhosts, List.cons_append]
  · rw [hes, List.flatten_cons, List.append_assoc]

theorem wp_readHosts (env : Env σ) (cfg : Config) (deadline : FloatVal) (hosts : List HostEntry)
    (w : World σ) : wp (readHosts env cfg deadline hosts) (fun r w' =>
      ∃ es, w'.log = w.log++es ∧ PassLog cfg hosts r es) w := by
  induction hosts generalizing w with
  | nil => exact ⟨[],by simp [readHosts, pure],passLog_noise trivial ⟨rfl,rfl,rfl,rfl⟩⟩
  | cons host hosts ih =>
    apply wp_seq ((external_monotonic env).silent w)
    · rintro now w₁ ⟨h₁,-⟩
      split_ifs
      · exact ⟨[_],congrArg (·++_) h₁,passLog_noise trivial ⟨rfl,rfl,rfl,rfl⟩⟩
      · apply wp_seq (wp_probeHost env cfg deadline host w₁)
        · rintro ⟨⟩ w₂ ⟨visit,h₂,hvisit⟩
          apply wp_mono (ih w₂)
          rintro r w₃ ⟨es,h₃,hpass⟩
          refine ⟨visit++es,?_,hpass.visit hvisit⟩
          rw [h₃, h₂, h₁, List.append_assoc]
        · rintro e w₂ ⟨visit,h₂,hvisit⟩
          rw [h₁] at h₂
          exact ⟨visit,h₂,hvisit.plain,[],host::hosts,[],visit,rfl,rfl,.nil,
            .inr ⟨host,hosts,e,rfl,hvisit⟩⟩
    · rintro e w₁ ⟨h₁,hplain⟩
      exact ⟨[],by simp [h₁],passLog_noise hplain ⟨rfl,rfl,rfl,rfl⟩⟩

theorem wp_readCb (env : Env σ) (cfg : Config) (w : World σ) :
    wp (readCb env cfg) (fun r w' =>
      ∃ es, w'.log = w.log++es ∧ PassLog cfg cfg.hosts r es) w := by
  apply wp_seq ((external_monotonic env).silent w)
  · rintro now w₁ ⟨h₁,-⟩
    apply wp_seq ((external_readBudget env).silent w₁)
    · rintro budget w₂ ⟨h₂,-⟩
      rw [← h₁, ← h₂]
      exact wp_readHosts env cfg _ cfg.hosts w₂
    · rintro e w₂ ⟨h₂,hplain⟩
      exact ⟨[],by simp [h₂, h₁],passLog_noise hplain ⟨rfl,rfl,rfl,rfl⟩⟩
  · rintro e w₁ ⟨h₁,hplain⟩
    exact ⟨[],by simp [h₁],passLog_noise hplain ⟨rfl,rfl,rfl,rfl⟩⟩

end WireProbe.ReadTrace
