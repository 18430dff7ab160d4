import Mathlib.Tactic.Linarith
import WireProbe.ReadTrace

/-!
# The read budget

The clock advances inside the resolver, by any amount, and inside a handshake,
by at most its timeout. Under it every call of a pass starts before the
deadline, every handshake ends by it, and the one call that can end later is
the last one the pass makes.
-/

set_option autoImplicit false

namespace WireProbe.BudgetedRead
open WireProbe.Floats WireProbe.Effect WireProbe.PluginConfig WireProbe.GetAddrInfo
open WireProbe.PluginRead WireProbe.ReadTrace

variable {σ : Type}

/-! ### Deadlines -/

/-- A deadline is a time, or never comes. -/
def Sound (deadline : FloatVal) : Prop := (∃ q, deadline = .fin q) ∨ deadline = .posInf

theorem sound_add {now : ℚ} {budget : FloatVal} (h : .fin 0 < budget) :
    Sound ((FloatVal.fin now).add budget) := by
  cases budget with
  | fin q => exact .inl ⟨_,rfl⟩
  | posInf => exact .inr rfl
  | negInf => exact absurd h (FloatVal.lt_negInf _)
  | nan => exact absurd h (FloatVal.lt_nan _)

theorem le_add {now : ℚ} {budget : FloatVal} (h : .fin 0 < budget) :
    .fin now ≤ (FloatVal.fin now).add budget := by
  cases budget with
  | fin q =>
    rw [FloatVal.fin_lt_fin] at h
    exact (FloatVal.fin_le_fin _ _).mpr (by linarith)
  | posInf => rfl
  | negInf => exact absurd h (FloatVal.lt_negInf _)
  | nan => exact absurd h (FloatVal.lt_nan _)

theorem Sound.lt_of_not_le {deadline : FloatVal} (hd : Sound deadline) {q : ℚ}
    (h : ¬ deadline ≤ .fin q) : .fin q < deadline := by
  rcases hd with ⟨d,rfl⟩ | rfl
  · simpa using h
  · rfl

theorem Sound.le_of_not_le {deadline : FloatVal} (hd : Sound deadline) {q : ℚ}
    (h : ¬ .fin q ≤ deadline) : deadline ≤ .fin q := by
  rcases hd with ⟨d,rfl⟩ | rfl
  · rw [FloatVal.fin_le_fin] at h ⊢
    exact (not_le.mp h).le
  · exact absurd rfl h

theorem Sound.remaining {deadline : FloatVal} (hd : Sound deadline) {now : ℚ}
    (h : ¬ deadline.sub (.fin now) ≤ .fin 0) :
    .fin now < deadline ∧ .fin 0 < deadline.sub (.fin now) := by
  rcases hd with ⟨d,rfl⟩ | rfl
  · rw [show (FloatVal.fin d).sub (.fin now) = .fin (d+-now) from rfl] at h ⊢
    simp only [FloatVal.fin_le_fin, FloatVal.fin_lt_fin] at h ⊢
    constructor <;> linarith
  · exact ⟨rfl,rfl⟩

theorem sound_fin {q : ℚ} : Sound (.fin q) := .inl ⟨q,rfl⟩

theorem sound_pos {a : FloatVal} (h : .fin 0 < a) : Sound a := by
  cases a with
  | fin q => exact .inl ⟨q,rfl⟩
  | posInf => exact .inr rfl
  | negInf => exact absurd h (FloatVal.lt_negInf _)
  | nan => exact absurd h (FloatVal.lt_nan _)

theorem Sound.refl {a : FloatVal} (h : Sound a) : a ≤ a := by
  rcases h with ⟨q,rfl⟩ | rfl
  · exact (FloatVal.fin_le_fin q q).mpr le_rfl
  · rfl

theorem Sound.le_of_lt {a b : FloatVal} (hb : Sound b) (h : b < a) : b ≤ a := by
  rcases hb with ⟨q,rfl⟩ | rfl
  · cases a with
    | fin p => exact (FloatVal.fin_le_fin q p).mpr ((FloatVal.fin_lt_fin q p).mp h).le
    | posInf => rfl
    | negInf => exact absurd h (FloatVal.lt_negInf _)
    | nan => exact absurd h (FloatVal.lt_nan _)
  · exact absurd h (FloatVal.posInf_lt a)

theorem Sound.le_of_not_lt {a b : FloatVal} (hb : Sound b) (ha : Sound a) (h : ¬ b < a) :
    a ≤ b := by
  rcases hb with ⟨q,rfl⟩ | rfl
  · rcases ha with ⟨p,rfl⟩ | rfl
    · exact (FloatVal.fin_le_fin p q).mpr (not_lt.mp (fun hlt => h ((FloatVal.fin_lt_fin q p).mpr hlt)))
    · exact absurd rfl h
  · rcases ha with ⟨p,rfl⟩ | rfl
    · rfl
    · rfl

theorem min_le {a b : FloatVal} (ha : .fin 0 < a) (hb : .fin 0 < b) :
    .fin 0 < a.min b ∧ a.min b ≤ a ∧ a.min b ≤ b := by
  obtain ⟨hsa,hsb⟩ := And.intro (sound_pos ha) (sound_pos hb)
  unfold FloatVal.min
  split_ifs with h
  · exact ⟨hb,hsb.le_of_lt h,hsb.refl⟩
  · exact ⟨ha,hsa.refl,hsb.le_of_not_lt hsa h⟩

/-- A handshake that takes no longer than what remains ends by the deadline. -/
theorem Sound.ends {deadline t : FloatVal} (hd : Sound deadline) {start stop : ℚ}
    (hpos : .fin 0 < t) (ht : t ≤ deadline.sub (.fin start)) (hstop : ∀ q, t = .fin q → stop ≤ start+q) :
    .fin stop ≤ deadline := by
  rcases hd with ⟨d,rfl⟩ | rfl
  · rw [show (FloatVal.fin d).sub (.fin start) = .fin (d+-start) from rfl] at ht
    cases t with
    | fin q =>
      rw [FloatVal.fin_le_fin] at ht ⊢
      linarith [hstop q rfl]
    | posInf => exact absurd ht (FloatVal.posInf_le_fin _)
    | negInf => exact absurd hpos (FloatVal.lt_negInf _)
    | nan => exact absurd hpos (FloatVal.lt_nan _)
  · rfl

theorem Sound.overrun {deadline : FloatVal} (hd : Sound deadline) {start stop : ℚ}
    (h : .fin start < deadline) : .fin stop ≤ deadline.add (.fin (stop-start)) := by
  rcases hd with ⟨d,rfl⟩ | rfl
  · rw [FloatVal.fin_lt_fin] at h
    exact (FloatVal.fin_le_fin _ _).mpr (by linarith)
  · rfl

/-! ### Clocks -/

/-- `clock` is what the environment reads. It moves in the resolver and in a
handshake only, there by at most the timeout. -/
structure Clocked (env : Env σ) (clock : σ → ℚ) : Prop where
  monotonic : ∀ s, (env.monotonic s).1 = clock s ∧ clock (env.monotonic s).2 = clock s
  getInterval : ∀ s, clock (env.getInterval s).2 = clock s
  handshake : ∀ addr q w, 0 < q → clock (handshake env addr (.fin q) w).2.env ≤ clock w.env+q

/-! ### What a pass does under a deadline -/

/-- The calls that take time. -/
def Call : Event σ → Prop
  | .resolve .. => True
  | .handshake .. => True
  | _ => False

section Deadline
variable (clock : σ → ℚ) (timeout deadline : FloatVal)

/-- Every call starts before the deadline; a handshake gets what is left of the
time, and ends by the deadline. -/
def Honoured : Event σ → Prop
  | .resolve start _ _ _ => .fin (clock start) < deadline
  | .handshake start stop _ t _ => .fin (clock start) < deadline ∧ .fin 0 < t ∧ t ≤ timeout ∧
      t ≤ deadline.sub (.fin (clock start)) ∧ .fin (clock stop) ≤ deadline
  | _ => True

/-- A call of the resolver that ends at the deadline or after it. -/
def Late : Event σ → Prop
  | .resolve _ stop _ _ => deadline ≤ .fin (clock stop)
  | _ => False

instance (e : Event σ) : Decidable (Late clock deadline e) := by
  unfold Late
  split <;> infer_instance

/-- A stretch of a pass from the time `c` to the time `c'`. -/
structure Timed (c c' : ℚ) (es : List (Event σ)) : Prop where
  honoured : ∀ e ∈ es, Honoured clock timeout deadline e
  quiet : es.Pairwise fun e e' => Late clock deadline e → ¬ Call e'
  late : ∀ e ∈ es, Late clock deadline e → deadline ≤ .fin c'
  past : deadline ≤ .fin c → (∀ e ∈ es, ¬ Call e) ∧ c' = c
  ends : .fin c ≤ deadline → .fin c' ≤ deadline ∨
    ∃ start stop key answer, .resolve start stop key answer ∈ es ∧ c' = clock stop

/-- The stretch between two worlds of a pass. -/
def Stretch (w w' : World σ) : Prop :=
  ∃ es, w'.log = w.log++es ∧ Timed clock timeout deadline (clock w.env) (clock w'.env) es

def Punctual {α : Type} (m : Py σ α) : Prop :=
  ∀ w, wp m (fun _ w' => Stretch clock timeout deadline w w') w

end Deadline

variable {clock : σ → ℚ} {timeout deadline : FloatVal}

/-- Only the time and the log of the first world count. -/
theorem Stretch.congr {w₁ w w' : World σ} (h : Stretch clock timeout deadline w₁ w')
    (hlog : w₁.log = w.log) (hnow : clock w₁.env = clock w.env) :
    Stretch clock timeout deadline w w' := by
  obtain ⟨es,hes,htimed⟩ := h
  exact ⟨es,hlog ▸ hes,hnow ▸ htimed⟩

theorem honoured_of_not_call {e : Event σ} (h : ¬ Call e) : Honoured clock timeout deadline e := by
  cases e with
  | resolve => exact absurd trivial h
  | handshake => exact absurd trivial h
  | record => trivial
  | warning => trivial
  | dispatch => trivial

theorem not_late_of_not_call {e : Event σ} (h : ¬ Call e) : ¬ Late clock deadline e := by
  cases e with
  | resolve => exact absurd trivial h
  | handshake => exact absurd trivial h
  | record => exact id
  | warning => exact id
  | dispatch => exact id

theorem timed_idle (c : ℚ) {es : List (Event σ)} (h : ∀ e ∈ es, ¬ Call e) :
    Timed clock timeout deadline c c es where
  honoured := fun e he => honoured_of_not_call (h e he)
  quiet := List.pairwise_of_forall_mem_list fun _ _ e' he' _ => h e' he'
  late := fun e he hlate => absurd hlate (not_late_of_not_call (h e he))
  past _ := ⟨h,rfl⟩
  ends := .inl

theorem Timed.append (hd : Sound deadline) {c c' c'' : ℚ} {es es' : List (Event σ)}
    (h : Timed clock timeout deadline c c' es) (h' : Timed clock timeout deadline c' c'' es') :
    Timed clock timeout deadline c c'' (es++es') where
  honoured := List.forall_mem_append.mpr ⟨h.honoured,h'.honoured⟩
  quiet := by
    refine List.pairwise_append.mpr ⟨h.quiet,h'.quiet,?_⟩
    intro e he e' he' hlate
    exact (h'.past (h.late e he hlate)).1 e' he'
  late := by
    refine List.forall_mem_append.mpr ⟨?_,h'.late⟩
    intro e he hlate
    have hpast := h.late e he hlate
    exact (h'.past hpast).2 ▸ hpast
  past hpast := by
    obtain ⟨hquiet,rfl⟩ := h.past hpast
    obtain ⟨hquiet',rfl⟩ := h'.past hpast
    exact ⟨List.forall_mem_append.mpr ⟨hquiet,hquiet'⟩,rfl⟩
  ends hc := by
    by_cases hpast : deadline ≤ .fin c'
    · obtain ⟨-,rfl⟩ := h'.past hpast
      refine (h.ends hc).imp_right ?_
      rintro ⟨start,stop,key,answer,hmem,hstop⟩
      exact ⟨start,stop,key,answer,List.mem_append_left _ hmem,hstop⟩
    · have hlt := hd.lt_of_not_le hpast
      refine (h'.ends (sound_fin.le_of_lt hlt)).imp_right ?_
      rintro ⟨start,stop,key,answer,hmem,hstop⟩
      exact ⟨start,stop,key,answer,List.mem_append_right _ hmem,hstop⟩

theorem Sound.not_le_of_lt {deadline : FloatVal} (hd : Sound deadline) {q : ℚ}
    (h : .fin q < deadline) : ¬ deadline ≤ .fin q := by
  rcases hd with ⟨d,rfl⟩ | rfl
  · simpa using h
  · exact FloatVal.posInf_le_fin q

theorem timed_resolve (hd : Sound deadline) {start : σ} (hstart : .fin (clock start) < deadline)
    (stop : σ) (key : StateKey) (answer : Except Failure (Option (List AddrInfo))) :
    Timed clock timeout deadline (clock start) (clock stop) [.resolve start stop key answer] where
  honoured := List.forall_mem_singleton.mpr hstart
  quiet := List.pairwise_singleton _ _
  late := List.forall_mem_singleton.mpr id
  past h := absurd h (hd.not_le_of_lt hstart)
  ends _ := .inr ⟨start,stop,key,answer,List.mem_singleton_self _,rfl⟩

theorem timed_handshake (hd : Sound deadline) {start stop : σ} {t : FloatVal} (addr : AddrInfo)
    (rtt : Except Failure (Option ℚ))
    (h : Honoured clock timeout deadline (.handshake start stop addr t rtt)) :
    Timed clock timeout deadline (clock start) (clock stop) [.handshake start stop addr t rtt] where
  honoured := List.forall_mem_singleton.mpr h
  quiet := List.pairwise_singleton _ _
  late := List.forall_mem_singleton.mpr False.elim
  past hpast := absurd hpast (hd.not_le_of_lt h.1)
  ends _ := .inl h.2.2.2.2

/-! ### Programs that keep to the deadline -/

section Punctual
variable {α β : Type}

theorem punctual_pure (a : α) : Punctual (σ := σ) clock timeout deadline (pure a) :=
  fun _ => ⟨[],(List.append_nil _).symm,timed_idle _ (fun _ he => absurd he List.not_mem_nil)⟩

theorem punctual_ofExcept (r : Except Failure α) :
    Punctual (σ := σ) clock timeout deadline (ofExcept r) :=
  fun _ => ⟨[],(List.append_nil _).symm,timed_idle _ (fun _ he => absurd he List.not_mem_nil)⟩

theorem punctual_emitted {event : Event σ} (h : ¬ Call event) :
    Punctual clock timeout deadline (emitted event) :=
  fun _ => ⟨[event],rfl,timed_idle _ (List.forall_mem_singleton.mpr h)⟩

/-- What runs after a stretch continues it. -/
theorem punctual_after (hd : Sound deadline) {m : Py σ α} {f : α → Py σ β} {w : World σ}
    (hm : wp m (fun _ w' => Stretch clock timeout deadline w w') w)
    (hf : ∀ a, Punctual clock timeout deadline (f a)) :
    wp (m >>= f) (fun _ w' => Stretch clock timeout deadline w w') w := by
  apply wp_seq hm
  · rintro a w₁ ⟨es,h₁,htimed⟩
    apply wp_mono (hf a w₁)
    rintro r w₂ ⟨es',h₂,htimed'⟩
    exact ⟨es++es',by rw [h₂, h₁, List.append_assoc],htimed.append hd htimed'⟩
  · rintro e w₁ h
    exact h

theorem punctual_bind (hd : Sound deadline) {m : Py σ α} {f : α → Py σ β}
    (hm : Punctual clock timeout deadline m) (hf : ∀ a, Punctual clock timeout deadline (f a)) :
    Punctual clock timeout deadline (m >>= f) :=
  fun w => punctual_after hd (hm w) hf

end Punctual

theorem punctual_preferredAddress (key : StateKey) (addrs : Option (List AddrInfo)) :
    Punctual (σ := σ) clock timeout deadline (PluginRead.preferredAddress key addrs) :=
  fun _ => ⟨[],(List.append_nil _).symm,timed_idle _ (fun _ he => absurd he List.not_mem_nil)⟩

theorem punctual_recordOutcome (key : StateKey) (addrs : Option (List AddrInfo)) (ok : Bool) :
    Punctual (σ := σ) clock timeout deadline (PluginRead.recordOutcome key addrs ok) := by
  intro w
  refine ⟨_,rfl,timed_idle _ ?_⟩
  refine List.forall_mem_cons.mpr ⟨id,?_⟩
  intro e he
  obtain ⟨nxt,-,rfl⟩ := Option.map_eq_some_iff.mp (Option.mem_toList.mp he)
  exact id

theorem punctual_warnUnresolved (hostname : List Char) (addrs : Option (List AddrInfo)) :
    Punctual (σ := σ) clock timeout deadline (warnUnresolved hostname addrs) := by
  cases addrs with
  | none => exact punctual_emitted id
  | some addrs => exact punctual_pure ()

section Pass
variable {env : Env σ}

theorem monotonic_eq (hclock : Clocked env clock) (w : World σ) : PluginRead.monotonic env w =
    (.ok (clock w.env),{w with env := (env.monotonic w.env).2}) := by
  rw [← (hclock.monotonic w.env).1]
  rfl

/-- The clock is read at the start of what follows, and not moved. -/
theorem punctual_reading {α : Type} (hclock : Clocked env clock) {f : ℚ → Py σ α}
    (hf : ∀ w, wp (f (clock w.env)) (fun _ w' => Stretch clock timeout deadline w w') w) :
    Punctual clock timeout deadline (PluginRead.monotonic env >>= f) := by
  intro w
  have hnow := (hclock.monotonic w.env).2
  apply wp_step (monotonic_eq hclock w)
  rw [← hnow]
  apply wp_mono (hf {w with env := (env.monotonic w.env).2})
  intro r w' hrest
  exact hrest.congr rfl hnow

/-- The remaining time is positive where a handshake starts, and bounds it. -/
theorem wp_tcpRtt_timed (hd : Sound deadline) (hclock : Clocked env clock)
    (htimeout : .fin 0 < timeout) (addr : AddrInfo) (w : World σ)
    (hremaining : ¬ deadline.sub (.fin (clock w.env)) ≤ .fin 0) :
    wp (tcpRtt env addr (timeout.min (deadline.sub (.fin (clock w.env)))))
      (fun _ w' => Stretch clock timeout deadline w w') w := by
  obtain ⟨hstart,hleft⟩ := hd.remaining hremaining
  obtain ⟨hpos,hle,hle'⟩ := min_le htimeout hleft
  obtain ⟨hlog,-⟩ := (external_handshake env addr
    (timeout.min (deadline.sub (.fin (clock w.env))))).silent w
  refine ⟨_,congrArg (·++_) hlog,timed_handshake hd addr _ ⟨hstart,hpos,hle,hle',?_⟩⟩
  apply hd.ends hpos hle'
  intro q hq
  rw [hq] at hpos ⊢
  exact hclock.handshake addr q w ((FloatVal.fin_lt_fin 0 q).mp hpos)

theorem punctual_probes (hd : Sound deadline) (hclock : Clocked env clock)
    (htimeout : .fin 0 < timeout) (addrInfo : Option AddrInfo) (n : ℕ) (samples : List ℚ)
    (attempts : ℕ) : Punctual clock timeout deadline
      (probes env timeout deadline addrInfo n samples attempts) := by
  induction n generalizing samples attempts with
  | zero => exact punctual_pure _
  | succ n ih =>
    cases addrInfo with
    | none => exact punctual_pure _
    | some addr =>
      apply punctual_reading hclock
      intro w
      simp only
      split_ifs with hremaining
      · exact punctual_bind hd (punctual_emitted id) (fun _ => punctual_pure _) w
      · exact punctual_after hd (wp_tcpRtt_timed hd hclock htimeout addr w hremaining)
          (fun rtt => ih (samples++rtt.toList) (attempts+1))

theorem wp_resolveAll_timed (hd : Sound deadline) (key : StateKey) (w : World σ)
    (hstart : .fin (clock w.env) < deadline) :
    wp (resolveAll env key) (fun _ w' => Stretch clock timeout deadline w w') w := by
  obtain ⟨hlog,-⟩ := (external_resolve env key).silent w
  exact ⟨_,congrArg (·++_) hlog,timed_resolve hd hstart _ _ _⟩

theorem wp_probeHost_timed (hd : Sound deadline) (hclock : Clocked env clock) (cfg : Config)
    (htimeout : .fin 0 < cfg.timeout) (host : HostEntry) (w : World σ)
    (hstart : .fin (clock w.env) < deadline) :
    wp (probeHost env cfg deadline host)
      (fun _ w' => Stretch clock cfg.timeout deadline w w') w := by
  apply punctual_after hd (wp_resolveAll_timed hd (stateKey cfg.defaultPort host) w hstart)
  intro addrs
  apply punctual_bind hd (punctual_warnUnresolved host.hostname addrs)
  intro _
  apply punctual_bind hd (punctual_preferredAddress _ addrs)
  intro addrInfo
  apply punctual_bind hd (punctual_probes hd hclock htimeout addrInfo _ [] 0)
  rintro ⟨samples,attempts⟩
  apply punctual_bind hd (punctual_recordOutcome _ addrs _)
  intro _
  apply punctual_bind hd (punctual_ofExcept _)
  intro dropped
  apply punctual_bind hd (punctual_ofExcept _)
  rintro ⟨reported,stddev⟩
  apply punctual_bind hd (punctual_emitted id)
  intro _
  exact punctual_bind hd (punctual_emitted id) (fun _ => punctual_emitted id)

theorem punctual_readHosts (hd : Sound deadline) (hclock : Clocked env clock) (cfg : Config)
    (htimeout : .fin 0 < cfg.timeout) (hosts : List HostEntry) :
    Punctual clock cfg.timeout deadline (readHosts env cfg deadline hosts) := by
  induction hosts with
  | nil => exact punctual_pure ()
  | cons host rest ih =>
    apply punctual_reading hclock
    intro w
    split_ifs with hlate
    · exact punctual_emitted id w
    · exact punctual_after hd
        (wp_probeHost_timed hd hclock cfg htimeout host w (hd.lt_of_not_le hlate)) (fun _ => ih)

theorem readBudget_timed (hclock : Clocked env clock) (w : World σ) :
    wp (readBudget env) (fun _ w' => w'.log = w.log ∧ clock w'.env = clock w.env) w := by
  refine wp_and ?_ ?_
  · exact ((external_readBudget env).silent w).1
  · have hframes : Frames (fun w : World σ => clock w.env) (readBudget env) :=
      frames_bind (frames_catching _ fun w => hclock.getInterval w.env) (fun _ => frames_pure _ _)
    exact hframes w

theorem wp_readCb_timed (hclock : Clocked env clock) (cfg : Config)
    (htimeout : .fin 0 < cfg.timeout) (w : World σ) (budget : FloatVal)
    (hbudget : (readBudget env {w with env := (env.monotonic w.env).2}).1 = .ok budget)
    (hpos : .fin 0 < budget) :
    wp (readCb env cfg) (fun _ w' =>
      Stretch clock cfg.timeout ((FloatVal.fin (clock w.env)).add budget) w w') w := by
  have hnow := (hclock.monotonic w.env).2
  apply wp_step (monotonic_eq hclock w)
  apply wp_seq (wp_and (P := fun r _ => r = .ok budget) hbudget (readBudget_timed hclock _))
  · rintro b w₁ ⟨hb,hlog,hbefore⟩
    obtain rfl := Except.ok.inj hb
    apply wp_mono (punctual_readHosts (sound_add hpos) hclock cfg htimeout cfg.hosts w₁)
    intro r w₂ hrest
    exact hrest.congr hlog (hbefore.trans hnow)
  · rintro e w₁ ⟨hb,-⟩
    cases hb

end Pass

/-- Nothing is called after a late call, so there is at most one. -/
theorem countP_late_le {es : List (Event σ)}
    (h : es.Pairwise fun e e' => Late clock deadline e → ¬ Call e') :
    es.countP (fun e => Late clock deadline e) ≤ 1 := by
  induction es with
  | nil => exact Nat.zero_le 1
  | cons e es ih =>
    obtain ⟨hhead,htail⟩ := List.pairwise_cons.mp h
    rw [List.countP_cons]
    by_cases hlate : Late clock deadline e
    · have hnone : es.countP (fun e => Late clock deadline e) = 0 := by
        rw [List.countP_eq_zero]
        intro e' he'
        simpa using not_late_of_not_call (hhead e' he' hlate)
      simp [hnone, hlate]
    · simpa [hlate] using ih htail

/-- Under a positive budget every call of a pass is honoured: it starts before
the deadline, a handshake gets no more than what is left and ends in time. At
most one call of the resolver ends late, nothing is called after it, and the
pass returns by the deadline plus the length of that call. -/
theorem read_budget_honoured (env : Env σ) (clock : σ → ℚ) (hclock : Clocked env clock)
    (cfg : Config) (htimeout : .fin 0 < cfg.timeout) (w : World σ) (budget : FloatVal)
    (hbudget : (readBudget env {w with env := (env.monotonic w.env).2}).1 = .ok budget)
    (hpos : .fin 0 < budget) :
    ∃ deadline es, deadline = (FloatVal.fin (clock w.env)).add budget ∧
      (readCb env cfg w).2.log = w.log++es ∧
      (∀ e ∈ es, Honoured clock cfg.timeout deadline e) ∧
      es.countP (fun e => Late clock deadline e) ≤ 1 ∧
      es.Pairwise (fun e e' => Late clock deadline e → ¬ Call e') ∧
      (.fin (clock (readCb env cfg w).2.env) ≤ deadline ∨ ∃ start stop key answer,
        .resolve start stop key answer ∈ es ∧ Late clock deadline (.resolve start stop key answer) ∧
        .fin (clock (readCb env cfg w).2.env) ≤ deadline.add (.fin (clock stop-clock start))) := by
  have hd : Sound ((FloatVal.fin (clock w.env)).add budget) := sound_add hpos
  obtain ⟨es,hlog,htimed⟩ := wp_readCb_timed hclock cfg htimeout w budget hbudget hpos
  refine ⟨_,es,rfl,hlog,htimed.honoured,countP_late_le htimed.quiet,htimed.quiet,?_⟩
  by_cases hintime : .fin (clock (readCb env cfg w).2.env) ≤ (FloatVal.fin (clock w.env)).add budget
  · exact .inl hintime
  · obtain ⟨start,stop,key,answer,hmem,hstop⟩ :=
      (htimed.ends (le_add hpos)).resolve_left hintime
    rw [hstop] at hintime ⊢
    exact .inr ⟨start,stop,key,answer,hmem,hd.le_of_not_le hintime,
      hd.overrun (htimed.honoured _ hmem)⟩

/-- The state is the clock; a resolution takes five seconds, a connection up to
a tenth of one. -/
def paced : Env ℚ where
  monotonic := fun s => (s,s)
  getInterval := fun s => (.ok (.fin 10),s)
  getaddrinfo := fun _ s => (.ok [answer1],s+5)
  socket := fun _ s => (.ok (),s)
  connect := fun _ timeout s => (.ok (),match timeout with
    | .fin q => s+min q (1/10)
    | _ => s)
  hasTcpInfo := false
  byteOrder := .little
  getsockopt := fun s => (.error .osError,s)
  close := fun s => s

theorem clocked_paced : Clocked paced id where
  monotonic _ := ⟨rfl,rfl⟩
  getInterval _ := rfl
  handshake addr q w hq := by
    have hbound : wp (PluginRead.handshake paced addr (.fin q)) (fun _ w' => w'.env ≤ w.env+q) w := by
      apply wp_step (show PluginRead.call (paced.socket addr.family) w = (.ok (),w) from rfl)
      rw [wp_ensuring, wp_catching]
      apply wp_seq (P := fun _ w' => w' = w) (show wp (ofExcept _) _ _ from rfl)
      · rintro _ w' rfl
        exact add_le_add_right (min_le_left q (1/10)) w'.env
      · rintro e w' rfl
        exact le_add_of_nonneg_right hq.le
    exact hbound

def pair : Config := {hosts := [⟨"a".toList,"a".toList,none⟩,⟨"b".toList,"b".toList,none⟩]}

/-- Both hosts are resolved and the first gets its handshake; the second
resolution starts in time and ends late, and its host gets none. -/
theorem read_budget_honoured_pair : ∃ es, (readCb paced pair ⟨0,fun _ => none,[]⟩).2.log = es ∧
    (∀ e ∈ es, Honoured id pair.timeout ((FloatVal.fin 0).add (.fin 8)) e) ∧
    (resolutions es).length = 2 ∧ (handshakes es).length = 1 ∧
    es.countP (fun e => Late id ((FloatVal.fin 0).add (.fin 8)) e) = 1 := by
  obtain ⟨_,es,rfl,hlog,hhonoured,hlate,-⟩ := read_budget_honoured paced id clocked_paced pair
    (by decide +kernel) ⟨0,fun _ => none,[]⟩ (.fin 8) (by decide +kernel) (by decide +kernel)
  obtain rfl : (readCb paced pair ⟨0,fun _ => none,[]⟩).2.log = es := hlog
  refine ⟨_,rfl,hhonoured,by decide +kernel,by decide +kernel,le_antisymm hlate ?_⟩
  exact List.countP_pos_iff.mpr (by decide +kernel)

end WireProbe.BudgetedRead
