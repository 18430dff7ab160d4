import WireProbe.StarvedVisits

/-!
# A pass as a function of what the outside answers

Nothing of the environment reaches the dictionary and the log, the timeouts that
handshakes are given aside, but the answers of the resolver, the results of the
handshakes and where the deadline cuts a visit short. The visit machine reads
these as rounds, and a pass of the read callback does what the machine does, in
any environment and over any number of passes.
-/

set_option autoImplicit false

namespace WireProbe.ReadRounds
open WireProbe.Floats WireProbe.Effect WireProbe.PluginConfig WireProbe.GetAddrInfo
open WireProbe.PluginRead WireProbe.ReadTrace WireProbe.PluginRotation WireProbe.Statistics
open WireProbe.Transducer WireProbe.StarvedVisits

variable {σ : Type}

/-! ### Labels -/

/-- An entry of the log without the state of the environment, and without the
timeout of a handshake, which is a matter of the clock. -/
inductive Label where
  | resolve (key : StateKey) (answer : Except Failure (Option (List AddrInfo)))
  | handshake (addr : AddrInfo) (rtt : Except Failure (Option ℚ))
  | record (key : StateKey) (succeeded : Bool)
  | warning (message : Message)
  | dispatch (typeInstance : List Char) (type : ValueType) (value : Reading)

def label : Event σ → Label
  | .resolve _ _ key answer => .resolve key answer
  | .handshake _ _ addr _ rtt => .handshake addr rtt
  | .record key succeeded => .record key succeeded
  | .warning message => .warning message
  | .dispatch typeInstance type value => .dispatch typeInstance type value

def labels (es : List (Event σ)) : List Label := es.map label

@[simp] theorem labels_append (es es' : List (Event σ)) :
    labels (es++es') = labels es++labels es' := List.map_append

/-! ### The visit machine -/

/-- Why a visit made no further handshake. -/
inductive Cut where
  | complete
  | exhausted
  | raised (e : Failure)

/-- What the outside answers during one visit; the outcomes are those of the
handshakes that returned. -/
inductive Round where
  | failed (e : Failure)
  | unresolved
  | resolved (first : AddrInfo) (rest : List AddrInfo) (outcomes : List (Option ℚ)) (cut : Cut)

def Cut.failure : Cut → Option Failure
  | .complete => none
  | .exhausted => none
  | .raised e => some e

def Round.failure : Round → Option Failure
  | .failed e => some e
  | .unresolved => none
  | .resolved _ _ _ cut => cut.failure

/-- `k` handshakes returned, out of `n`. -/
def Cut.Fits (n k : ℕ) : Cut → Prop
  | .complete => k = n
  | .exhausted => k < n
  | .raised _ => k < n

def Round.Fits (n : ℕ) : Round → Prop
  | .failed _ => True
  | .unresolved => True
  | .resolved _ _ outcomes cut => cut.Fits n outcomes.length

def exhaustedWarning : Message :=
  [.text "wire_probe: read budget exhausted, skipping remaining probes"]

def skipWarning (label : List Char) : Message :=
  [.text "wire_probe: read budget exhausted, skipping '", .str label, .text "'"]

def unresolvedWarning (hostname : List Char) : Message :=
  [.text "wire_probe: cannot resolve '", .str hostname, .text "', counting as drop"]

def Cut.labels (addr : AddrInfo) : Cut → List Label
  | .complete => []
  | .exhausted => [.warning exhaustedWarning]
  | .raised e => [.handshake addr (.error e)]

/-- The reported time and the deviation of the samples. -/
def summary (aggregate : Aggregate) (samples : List ℚ) : Reading × Reading :=
  match samples with
  | [] => (.nan,.nan)
  | first::rest => (.num (match aggregate with
      | .min => rest.foldl min first
      | .avg => mean samples),
    if 1 < samples.length then .sqrt (variance samples) else .nan)

/-- The share of the attempted handshakes that failed. -/
def loss (outcomes : List (Option ℚ)) : Reading :=
  if outcomes.length = 0 then .nan
  else .num ((outcomes.length-outcomes.reduceOption.length)/outcomes.length)

def values (cfg : Config) (host : HostEntry) (dropped : Reading) (samples : List ℚ) : List Label :=
  [.dispatch (labelOf cfg.defaultPort host) .ping (summary cfg.aggregate samples).1,
    .dispatch (labelOf cfg.defaultPort host) .pingDroprate dropped,
    .dispatch (labelOf cfg.defaultPort host) .pingStddev (summary cfg.aggregate samples).2]

/-- Whether the visit recorded a success. -/
def succeeded (outcomes : List (Option ℚ)) : Bool := !outcomes.reduceOption.isEmpty

/-- The handshakes of a visit, and why it made no more. -/
def tried (addr : AddrInfo) (outcomes : List (Option ℚ)) (cut : Cut) : List Label :=
  outcomes.map (fun o => .handshake addr (.ok o))++cut.labels addr

def rotations (key : StateKey) (rotated : Option AddrInfo) : List Label :=
  (rotated.map fun nxt => .warning (rotationWarning key nxt)).toList

/-- One visit: the dictionary after it, and what it logs. -/
def visit (st : AddrState StateKey AddrInfo) (v : Config × HostEntry × Round) :
    AddrState StateKey AddrInfo × List Label :=
  let (cfg, host, round) := v
  let key := stateKey cfg.defaultPort host
  match round with
  | .failed e => (st,[.resolve key (.error e)])
  | .unresolved =>
    (st,.resolve key (.ok none)::[.warning (unresolvedWarning host.hostname)]++
      .record key false::values cfg host (.num 1) [])
  | .resolved first rest outcomes cut =>
    let st₁ := (PluginRotation.preferredAddress st key (some (first::rest))).1
    let attempted := .resolve key (.ok (some (first::rest)))::
      tried (chosen st key first rest) outcomes cut
    match cut.failure with
    | some _ => (st₁,attempted)
    | none =>
      let (st₂, rotated) :=
        PluginRotation.recordOutcome st₁ key (some (first::rest)) (succeeded outcomes)
      (st₂,attempted++.record key (succeeded outcomes)::
        (rotations key rotated++values cfg host (loss outcomes) outcomes.reduceOption))

/-! ### Passes of the machine -/

/-- How a pass ends: past the last host, at the deadline with a host it skips,
or with an exception. -/
inductive Ending where
  | done
  | skipped (host : HostEntry)
  | raised (e : Failure)

def Ending.labels (defaultPort : ℤ) : Ending → List Label
  | .done => []
  | .skipped host => [.warning (skipWarning (labelOf defaultPort host))]
  | .raised _ => []

def Ending.result : Ending → Except Failure Unit
  | .done => .ok ()
  | .skipped _ => .ok ()
  | .raised e => .error e

/-- The visits a pass makes to its hosts, in order, and its ending. -/
inductive Course (n : ℕ) : List HostEntry → List (HostEntry × Round) → Ending → Prop where
  | done : Course n [] [] .done
  | skipped (host : HostEntry) (hosts : List HostEntry) :
    Course n (host::hosts) [] (.skipped host)
  | raised (host : HostEntry) (hosts : List HostEntry) {round : Round} {e : Failure}
    (hfits : round.Fits n) (hfailure : round.failure = some e) :
    Course n (host::hosts) [(host,round)] (.raised e)
  | visited (host : HostEntry) {hosts : List HostEntry} {round : Round} (hfits : round.Fits n)
    (hfailure : round.failure = none) {visits : List (HostEntry × Round)} {ending : Ending}
    (hrest : Course n hosts visits ending) : Course n (host::hosts) ((host,round)::visits) ending

/-- What a pass does. An interval that cannot be read ends it before its visits. -/
structure Pass where
  cfg : Config
  visits : List (HostEntry × Round)
  ending : Ending
  course : Course cfg.pingCount.toNat cfg.hosts visits ending ∨ visits = [] ∧ ∃ e, ending = .raised e

def Pass.tagged (p : Pass) : List (Config × HostEntry × Round) := p.visits.map (p.cfg,·)

/-- A pass as one step of a machine on the dictionary. -/
def passStep (st : AddrState StateKey AddrInfo) (p : Pass) :
    AddrState StateKey AddrInfo × (List Label × Except Failure Unit) :=
  (final visit st p.tagged,
    (outputs visit st p.tagged).flatten++p.ending.labels p.cfg.defaultPort,p.ending.result)

/-! ### The loop over the samples -/

/-- The stretch between two worlds logs `ls` and leaves the dictionary `st`. -/
def Logs (w w' : World σ) (st : AddrState StateKey AddrInfo) (ls : List Label) : Prop :=
  w'.addrState = st ∧ ∃ es, w'.log = w.log++es ∧ labels es = ls

theorem Logs.refl (w : World σ) : Logs w w w.addrState [] :=
  ⟨rfl,[],(List.append_nil _).symm,rfl⟩

theorem Logs.trans {w w' w'' : World σ} {st st' : AddrState StateKey AddrInfo}
    {ls ls' : List Label} (h : Logs w w' st ls) (h' : Logs w' w'' st' ls') :
    Logs w w'' st' (ls++ls') := by
  obtain ⟨-,es,hlog,rfl⟩ := h
  obtain ⟨hst,es',hlog',rfl⟩ := h'
  exact ⟨hst,es++es',by rw [hlog', hlog, List.append_assoc],labels_append es es'⟩

/-- A call to the environment logs nothing. -/
theorem External.logs {α : Type} {m : Py σ α} (h : External m) (w : World σ) :
    wp m (fun r w' => Logs w w' w.addrState [] ∧ Plain r) w := by
  obtain ⟨hkept,hplain⟩ := h w
  obtain ⟨hst,hlog⟩ := Prod.mk.inj hkept
  exact ⟨⟨hst,[],hlog.trans (List.append_nil _).symm,rfl⟩,hplain⟩

theorem tcpRtt_logs (env : Env σ) (addr : AddrInfo) (timeout : FloatVal) (w : World σ) :
    wp (tcpRtt env addr timeout) (fun r w' => Logs w w' w.addrState [.handshake addr r]) w := by
  obtain ⟨-,stop,hlog⟩ := wp_tcpRtt env addr timeout w
  exact ⟨frames_tcpRtt env addr timeout w,_,hlog,rfl⟩

theorem resolveAll_logs (env : Env σ) (key : StateKey) (w : World σ) :
    wp (resolveAll env key) (fun r w' => Logs w w' w.addrState [.resolve key r] ∧
      r ≠ .ok (some [])) w := by
  obtain ⟨-,hne,stop,hlog⟩ := wp_resolveAll env key w
  exact ⟨⟨frames_resolveAll env key w,_,hlog,rfl⟩,hne⟩

/-- What the loop returns for the outcomes of its handshakes. -/
def looped (samples : List ℚ) (attempts : ℕ) (outcomes : List (Option ℚ)) (cut : Cut) :
    Except Failure (List ℚ × ℕ) :=
  match cut.failure with
  | some e => .error e
  | none => .ok (samples++outcomes.reduceOption,attempts+outcomes.length)

theorem looped_cons (samples : List ℚ) (attempts : ℕ) (rtt : Option ℚ)
    (outcomes : List (Option ℚ)) (cut : Cut) :
    looped (samples++rtt.toList) (attempts+1) outcomes cut =
      looped samples attempts (rtt::outcomes) cut := by
  cases cut <;> cases rtt <;>
    simp [looped, Cut.failure, List.reduceOption_cons_of_some, List.reduceOption_cons_of_none,
      Nat.add_assoc, Nat.add_comm 1]

theorem looped_eq_ok {outcomes : List (Option ℚ)} {cut : Cut} {samples : List ℚ} {attempts : ℕ}
    (h : looped [] 0 outcomes cut = .ok (samples,attempts)) :
    cut.failure = none ∧ samples = outcomes.reduceOption ∧ attempts = outcomes.length := by
  unfold looped at h
  cases hfailure : cut.failure with
  | none =>
    rw [hfailure] at h
    simp only [List.nil_append, Nat.zero_add, Except.ok.injEq, Prod.mk.injEq] at h
    exact ⟨rfl,h.1.symm,h.2.symm⟩
  | some e =>
    rw [hfailure] at h
    cases h

theorem looped_eq_error {samples : List ℚ} {attempts : ℕ} {outcomes : List (Option ℚ)} {cut : Cut}
    {e : Failure} (h : looped samples attempts outcomes cut = .error e) : cut.failure = some e := by
  unfold looped at h
  cases hfailure : cut.failure with
  | none =>
    rw [hfailure] at h
    cases h
  | some e' =>
    rw [hfailure] at h
    exact congrArg some (Except.error.inj h)

theorem Cut.Fits.succ {n k : ℕ} {cut : Cut} (h : cut.Fits n k) : cut.Fits (n+1) (k+1) := by
  cases cut with
  | complete => exact congrArg (·+1) h
  | exhausted => exact Nat.succ_lt_succ h
  | raised e => exact Nat.succ_lt_succ h

/-- The loop tries one address, `n` times or until it is cut. -/
theorem wp_probes_rounds (env : Env σ) (timeout deadline : FloatVal) (addr : AddrInfo) (n : ℕ)
    (samples : List ℚ) (attempts : ℕ) (w : World σ) :
    wp (probes env timeout deadline (some addr) n samples attempts) (fun r w' =>
      ∃ outcomes cut, cut.Fits n outcomes.length ∧ r = looped samples attempts outcomes cut ∧
        Logs w w' w.addrState (tried addr outcomes cut)) w := by
  induction n generalizing samples attempts w with
  | zero =>
    refine ⟨[],.complete,rfl,?_,Logs.refl w⟩
    simp [probes, looped, Cut.failure, List.reduceOption_nil, pure]
  | succ n ih =>
    apply wp_step (show PluginRead.monotonic env w = (.ok _,_) from rfl)
    simp only
    split_ifs with hremaining
    · refine ⟨[],.exhausted,Nat.succ_pos n,?_,rfl,_,rfl,rfl⟩
      simp only [looped, Cut.failure, List.reduceOption_nil, List.append_nil, List.length_nil,
        Nat.add_zero]
      rfl
    · apply wp_seq (tcpRtt_logs env addr _ _)
      · rintro rtt w₂ h₂
        apply wp_mono (ih (samples++rtt.toList) (attempts+1) w₂)
        rintro r w₃ ⟨outcomes,cut,hfits,rfl,h₃⟩
        refine ⟨rtt::outcomes,cut,hfits.succ,looped_cons samples attempts rtt outcomes cut,?_⟩
        have h : Logs w w₃ w₂.addrState _ := Logs.trans h₂ h₃
        rwa [h₂.1] at h
      · rintro e w₂ h₂
        exact ⟨[],.raised e,Nat.succ_pos n,rfl,h₂⟩

/-! ### One visit -/

theorem droprate_resolved (addr : AddrInfo) (outcomes : List (Option ℚ)) :
    droprate (some addr) outcomes.length outcomes.reduceOption = .ok (loss outcomes) := by
  rw [droprate_eq]
  rfl

theorem statistics_summary (aggregate : Aggregate) (samples : List ℚ) :
    statistics aggregate samples = .ok (summary aggregate samples) := statistics_eq aggregate samples

/-- The end of a visit: what it records, announces and dispatches. -/
theorem visitEnd_logs (cfg : Config) (host : HostEntry) (answer : Option (List AddrInfo))
    (addrInfo : Option AddrInfo) (samples : List ℚ) (attempts : ℕ) {dropped : Reading}
    (hdropped : droprate addrInfo attempts samples = .ok dropped) (w : World σ) :
    wp (do
      PluginRead.recordOutcome (stateKey cfg.defaultPort host) answer (!samples.isEmpty)
      let dropped ← ofExcept (droprate addrInfo attempts samples)
      let (reported, stddev) ← ofExcept (statistics cfg.aggregate samples)
      emit (labelOf cfg.defaultPort host) .ping reported
      emit (labelOf cfg.defaultPort host) .pingDroprate dropped
      emit (labelOf cfg.defaultPort host) .pingStddev stddev) (fun r w' => r = .ok () ∧
        Logs w w' (PluginRotation.recordOutcome w.addrState (stateKey cfg.defaultPort host) answer
            (!samples.isEmpty)).1
          (.record (stateKey cfg.defaultPort host) (!samples.isEmpty)::
            (rotations (stateKey cfg.defaultPort host) (PluginRotation.recordOutcome w.addrState
              (stateKey cfg.defaultPort host) answer (!samples.isEmpty)).2++
            values cfg host dropped samples))) w := by
  rw [hdropped, statistics_summary]
  refine ⟨rfl,rfl,.record (stateKey cfg.defaultPort host) (!samples.isEmpty)::
    ((PluginRotation.recordOutcome w.addrState (stateKey cfg.defaultPort host) answer
      (!samples.isEmpty)).2.map fun nxt =>
        .warning (rotationWarning (stateKey cfg.defaultPort host) nxt)).toList++
    [.dispatch (labelOf cfg.defaultPort host) .ping (summary cfg.aggregate samples).1,
      .dispatch (labelOf cfg.defaultPort host) .pingDroprate dropped,
      .dispatch (labelOf cfg.defaultPort host) .pingStddev (summary cfg.aggregate samples).2],?_,?_⟩
  · show w.log++_::_++[_]++[_]++[_] = _
    simp only [List.append_assoc, List.cons_append, List.nil_append]
    rfl
  · cases (PluginRotation.recordOutcome w.addrState (stateKey cfg.defaultPort host) answer
      (!samples.isEmpty)).2 <;> rfl

/-- What `visit` says of a world's dictionary is what the visit does. -/
def Visits (cfg : Config) (host : HostEntry) (w : World σ) (r : Except Failure Unit)
    (w' : World σ) : Prop :=
  ∃ round : Round, round.Fits cfg.pingCount.toNat ∧ r = round.failure.elim (.ok ()) .error ∧
    Logs w w' (visit w.addrState (cfg,host,round)).1 (visit w.addrState (cfg,host,round)).2

theorem probeHost_visits (env : Env σ) (cfg : Config) (deadline : FloatVal) (host : HostEntry)
    (w : World σ) : wp (probeHost env cfg deadline host) (Visits cfg host w) w := by
  show wp (resolveAll env (stateKey cfg.defaultPort host) >>= _) _ w
  apply wp_seq (resolveAll_logs env _ w)
  · rintro answer w₁ ⟨h₁,hne⟩
    match answer, hne with
    | none, _ =>
      -- Without an address the loop over the samples ends at once.
      apply wp_step (show warnUnresolved host.hostname none w₁ = (.ok (),_) from rfl)
      apply wp_step (show PluginRead.preferredAddress _ none _ = (.ok none,_) from rfl)
      apply wp_step (show _ = (Except.ok (([],0) : List ℚ × ℕ),{w₁ with log := w₁.log++[_]}) by
        cases cfg.pingCount.toNat <;> rfl)
      apply wp_mono (visitEnd_logs cfg host none none [] 0 rfl _)
      rintro r w₂ ⟨rfl,h₂⟩
      refine ⟨.unresolved,trivial,rfl,?_⟩
      have hwarned : Logs w₁ {w₁ with log := w₁.log++[.warning (unresolvedWarning host.hostname)]}
        w₁.addrState [.warning (unresolvedWarning host.hostname)] := ⟨rfl,_,rfl,rfl⟩
      have h := (h₁.trans hwarned).trans h₂
      rw [show World.addrState _ = w₁.addrState from rfl, h₁.1] at h
      exact h
    | some (first::rest), _ =>
      apply wp_step (show warnUnresolved host.hostname (some (first::rest)) w₁ = (.ok (),w₁) from rfl)
      apply wp_step (show PluginRead.preferredAddress (stateKey cfg.defaultPort host)
        (some (first::rest)) w₁ = (.ok (some (chosen w₁.addrState _ first rest)),_) from rfl)
      have hpreferred : Logs w₁ {w₁ with addrState := (PluginRotation.preferredAddress w₁.addrState
        (stateKey cfg.defaultPort host) (some (first::rest))).1} _ [] :=
          ⟨rfl,[],(List.append_nil _).symm,rfl⟩
      apply wp_seq (wp_probes_rounds env cfg.timeout deadline
        (chosen w₁.addrState (stateKey cfg.defaultPort host) first rest) cfg.pingCount.toNat [] 0 _)
      · rintro ⟨samples,attempts⟩ w₂ ⟨outcomes,cut,hfits,hlooped,h₂⟩
        obtain ⟨hfailure,rfl,rfl⟩ := looped_eq_ok hlooped.symm
        apply wp_mono (visitEnd_logs cfg host (some (first::rest)) _ _ _
          (droprate_resolved _ outcomes) w₂)
        rintro r w₃ ⟨rfl,h₃⟩
        refine ⟨.resolved first rest outcomes cut,hfits,by rw [Round.failure, hfailure]; rfl,?_⟩
        have h := (h₁.trans (hpreferred.trans h₂)).trans h₃
        rw [h₂.1] at h
        rw [h₁.1] at h
        simp only [visit, hfailure]
        exact h
      · rintro e w₂ ⟨outcomes,cut,hfits,hlooped,h₂⟩
        have hfailure := looped_eq_error hlooped.symm
        refine ⟨.resolved first rest outcomes cut,hfits,by rw [Round.failure, hfailure]; rfl,?_⟩
        have h := h₁.trans (hpreferred.trans h₂)
        rw [h₁.1] at h
        simp only [visit, hfailure]
        exact h
  · rintro e w₁ ⟨h₁,-⟩
    exact ⟨.failed e,trivial,rfl,h₁⟩

/-! ### Passes -/

/-- A loop over the hosts takes a course and does what the machine does on it. -/
theorem readHosts_course (env : Env σ) (cfg : Config) (deadline : FloatVal)
    (hosts : List HostEntry) (w : World σ) :
    wp (readHosts env cfg deadline hosts) (fun r w' => ∃ visits ending,
      Course cfg.pingCount.toNat hosts visits ending ∧ r = ending.result ∧
      Logs w w' (final visit w.addrState (visits.map (cfg,·)))
        ((outputs visit w.addrState (visits.map (cfg,·))).flatten++
          ending.labels cfg.defaultPort)) w := by
  induction hosts generalizing w with
  | nil => exact ⟨[],.done,.done,rfl,Logs.refl w⟩
  | cons host hosts ih =>
    apply wp_step (show PluginRead.monotonic env w = (.ok _,_) from rfl)
    split_ifs with hlate
    · exact ⟨[],.skipped host,.skipped host hosts,rfl,rfl,_,rfl,rfl⟩
    · apply wp_seq (probeHost_visits env cfg deadline host _)
      · rintro ⟨⟩ w₂ ⟨round,hfits,hresult,h₂⟩
        have hfailure : round.failure = none := by
          cases h : round.failure with
          | none => rfl
          | some e =>
            rw [h] at hresult
            cases hresult
        apply wp_mono (ih w₂)
        rintro r w₃ ⟨visits,ending,hcourse,rfl,h₃⟩
        refine ⟨(host,round)::visits,ending,.visited host hfits hfailure hcourse,rfl,?_⟩
        have h : Logs w w₃ _ _ := Logs.trans h₂ h₃
        rw [h₂.1] at h
        simpa only [List.map_cons, final_cons, outputs_cons, List.flatten_cons,
          List.append_assoc] using h
      · rintro e w₂ ⟨round,hfits,hresult,h₂⟩
        have hfailure : round.failure = some e := by
          cases h : round.failure with
          | none =>
            rw [h] at hresult
            cases hresult
          | some e' =>
            rw [h] at hresult
            exact congrArg some (Except.error.inj hresult).symm
        refine ⟨[(host,round)],.raised e,.raised host hosts hfits hfailure,rfl,?_⟩
        simp only [List.map_cons, List.map_nil, final_cons, final_nil, outputs_cons, outputs_nil,
          List.flatten_cons, List.flatten_nil, List.append_nil, Ending.labels]
        exact h₂

theorem readCb_pass (env : Env σ) (cfg : Config) (w : World σ) :
    wp (readCb env cfg) (fun r w' => ∃ p : Pass, p.cfg = cfg ∧ r = p.ending.result ∧
      Logs w w' (passStep w.addrState p).1 (passStep w.addrState p).2.1) w := by
  apply wp_step (show PluginRead.monotonic env w = (.ok _,_) from rfl)
  apply wp_seq (External.logs (external_readBudget env) {w with env := (env.monotonic w.env).2})
  · rintro budget w₁ ⟨h₁,-⟩
    apply wp_mono (readHosts_course env cfg _ cfg.hosts w₁)
    rintro r w₂ ⟨visits,ending,hcourse,rfl,h₂⟩
    have h : Logs w w₂ _ _ := Logs.trans h₁ h₂
    rw [h₁.1] at h
    exact ⟨⟨cfg,visits,ending,.inl hcourse⟩,rfl,rfl,h⟩
  · rintro e w₁ ⟨h₁,-⟩
    exact ⟨⟨cfg,[],.raised e,.inr ⟨rfl,e,rfl⟩⟩,rfl,rfl,h₁⟩

/-- How each of the passes ended. -/
def results : List (Env σ × Config) → World σ → List (Except Failure Unit)
  | [], _ => []
  | (env,cfg)::rest, w => (readCb env cfg w).1::results rest (readCb env cfg w).2

/-- Over any number of passes the log, the dictionary and the ways the passes
end are those of the machine, fed with what the outside answered. -/
theorem passes_follow (run : List (Env σ × Config)) (w : World σ) : ∃ ps : List Pass,
    ps.map Pass.cfg = run.map Prod.snd ∧
    (passes run w).addrState = final passStep w.addrState ps ∧
    (∃ es, (passes run w).log = w.log++es ∧
      labels es = ((outputs passStep w.addrState ps).map Prod.fst).flatten) ∧
    results run w = (outputs passStep w.addrState ps).map Prod.snd := by
  induction run generalizing w with
  | nil => exact ⟨[],rfl,rfl,⟨[],(List.append_nil _).symm,rfl⟩,rfl⟩
  | cons pass rest ih =>
    obtain ⟨env,cfg⟩ := pass
    obtain ⟨p,hcfg,hresult,hst,es,hlog,hlabels⟩ := readCb_pass env cfg w
    obtain ⟨ps,hcfgs,hst',⟨es',hlog',hlabels'⟩,hresults⟩ := ih (readCb env cfg w).2
    rw [hst] at hst' hlabels' hresults
    refine ⟨p::ps,?_,hst',⟨es++es',?_,?_⟩,?_⟩
    · rw [List.map_cons, hcfg, hcfgs]
      rfl
    · show (passes rest _).log = _
      rw [hlog', hlog, List.append_assoc]
    · rw [labels_append, hlabels, hlabels']
      rfl
    · show (readCb env cfg w).1::results rest _ = _
      rw [hresults, hresult]
      rfl

end WireProbe.ReadRounds
