import WireProbe.ConfiguredState
import WireProbe.ReadTrace

/-!
# Configured values that a pass can use

Whatever the blocks hold, the ports and the ping count stay in range. The
timeout does as well unless the last Timeout in range is NaN, which no
comparison rejects; then every handshake gets NaN for a timeout.
-/

set_option autoImplicit false

namespace WireProbe.UsableConfig
open WireProbe.Floats WireProbe.Effect WireProbe.PluginConfig WireProbe.PluginRead
open WireProbe.ConfigIsolation WireProbe.ConfiguredState WireProbe.ReadTrace

/-! ### The ports -/

theorem parsePort_valid (casts : Casts) (portStr raw : List Char) (p : ℤ)
    (h : (parsePort casts portStr raw).1 = some p) : 1 ≤ p ∧ p ≤ 65535 := by
  unfold parsePort at h
  cases hint : casts.int portStr with
  | none =>
    rw [hint] at h
    cases h
  | some q =>
    rw [hint] at h
    simp only at h
    split_ifs at h with hvalid
    cases h
    exact (validPort_iff p).mp hvalid

theorem splitHostPort_valid (casts : Casts) (raw : List Char) (p : ℤ)
    (h : (splitHostPort casts raw).1.2 = some p) : 1 ≤ p ∧ p ≤ 65535 := by
  unfold splitHostPort at h
  split_ifs at h with hbracket hliteral hcolon
  · revert h
    simp only
    split
    · intro h
      cases h
    · exact parsePort_valid casts _ _ p
    · intro h
      cases h
  · exact parsePort_valid casts _ _ p h

structure PortsAndCount (cfg : Config) : Prop where
  defaultPort : 1 ≤ cfg.defaultPort ∧ cfg.defaultPort ≤ 65535
  pingCount : 1 ≤ cfg.pingCount ∧ cfg.pingCount ≤ 100
  hostPorts : ∀ entry ∈ cfg.hosts, ∀ p ∈ entry.port, 1 ≤ p ∧ p ≤ 65535

theorem portsAndCount_apply (casts : Casts) (s : Config) (setting : Setting) (s' : Config)
    (hrange : InRange casts setting) (happly : setting.apply s = some s')
    (h : PortsAndCount s) : PortsAndCount s' := by
  cases setting with
  | host entry =>
    obtain ⟨-,rfl⟩ := apply_host happly
    obtain ⟨raw,hraw⟩ := hrange
    refine ⟨h.defaultPort,h.pingCount,?_⟩
    intro e he p hp
    rcases List.mem_append.mp he with he | he
    · exact h.hostPorts e he p hp
    · obtain rfl := List.mem_singleton.mp he
      cases hraw
      exact splitHostPort_valid casts raw p hp
  | port p =>
    cases happly
    exact ⟨hrange,h.pingCount,h.hostPorts⟩
  | timeout t =>
    cases happly
    exact ⟨h.defaultPort,h.pingCount,h.hostPorts⟩
  | pingCount pc =>
    cases happly
    exact ⟨h.defaultPort,hrange,h.hostPorts⟩
  | aggregate mode =>
    cases happly
    exact ⟨h.defaultPort,h.pingCount,h.hostPorts⟩

theorem configured_portsAndCount (casts : Casts) (blocks : List (List Node)) :
    PortsAndCount (configured casts {} blocks) :=
  configured_invariant casts (portsAndCount_apply casts) {} blocks
    ⟨by decide,by decide,by intro entry h; cases h⟩

/-! ### The timeout -/

/-- The window of the Timeout setting, to which NaN does not belong. -/
def Window (t : FloatVal) : Prop := .fin 0 < t ∧ t ≤ .fin 60

theorem window_apply (casts : Casts) (s : Config) (setting : Setting) (s' : Config)
    (hrange : InRange casts setting) (happly : setting.apply s = some s')
    (h : s.timeout = .nan ∨ Window s.timeout) : s'.timeout = .nan ∨ Window s'.timeout := by
  cases setting with
  | host entry =>
    obtain ⟨-,rfl⟩ := apply_host happly
    exact h
  | timeout t =>
    cases happly
    exact hrange
  | port p =>
    cases happly
    exact h
  | pingCount pc =>
    cases happly
    exact h
  | aggregate mode =>
    cases happly
    exact h

theorem configured_window_iff (casts : Casts) (blocks : List (List Node)) :
    Window (configured casts {} blocks).timeout ↔ lastOf casts timeoutOf blocks ≠ some .nan := by
  have hwindow := configured_invariant casts (window_apply casts) {} blocks
    (.inr ⟨by decide,by decide⟩)
  rw [configured_timeout] at hwindow ⊢
  cases hlast : lastOf casts timeoutOf blocks with
  | none => exact iff_of_true ⟨by decide,by decide⟩ (by simp)
  | some t =>
    rw [hlast, Option.getD_some] at hwindow
    rw [Option.getD_some, ne_eq, Option.some.injEq]
    constructor
    · rintro h rfl
      exact FloatVal.lt_nan _ h.1
    · exact hwindow.resolve_left

/-! ### The handshakes of a pass -/

variable {σ : Type}

theorem passLog_within {cfg : Config} {hosts : List HostEntry} {r : Except Failure Unit}
    {es : List (Event σ)} (h : PassLog cfg hosts r es) : Within cfg.timeout es := by
  obtain ⟨-,finished,rest,visits,tail,-,rfl,hvisits,htail⟩ := h
  apply Within.append
  · clear htail
    induction hvisits with
    | nil => exact Within.of_none rfl
    | cons hvisit _ ih => exact hvisit.within.append ih
  · rcases htail with hnoise | ⟨host,rest',e,-,hvisit⟩
    · exact Within.of_none hnoise.2.1
    · exact hvisit.within

structure Usable (cfg : Config) : Prop extends PortsAndCount cfg where
  timeout : Window cfg.timeout
  handshakes : ∀ (σ : Type) (env : Env σ) (w : World σ), ∃ es,
    (readCb env cfg w).2.log = w.log++es ∧ ∀ h ∈ handshakes es, Window h.1

theorem handshakes_window {cfg : Config} (h : Window cfg.timeout) (env : Env σ) (w : World σ) :
    ∃ es, (readCb env cfg w).2.log = w.log++es ∧ ∀ h ∈ handshakes es, Window h.1 := by
  obtain ⟨es,hlog,hpass⟩ := wp_readCb env cfg w
  refine ⟨es,hlog,?_⟩
  intro x hx
  obtain ⟨remaining,hremaining,htimeout⟩ := passLog_within hpass x hx
  rw [htimeout]
  exact FloatVal.min_window h.1 h.2 hremaining

/-- Under a NaN timeout no handshake gets to its connect. -/
theorem nan_timeout_raises {cfg : Config} (h : cfg.timeout = .nan) (env : Env σ) (w : World σ) :
    ∃ es, (readCb env cfg w).2.log = w.log++es ∧
      ∀ h ∈ handshakes es, h.1 = .nan ∧ settimeout h.1 = .error (.raised .valueError) := by
  obtain ⟨es,hlog,hpass⟩ := wp_readCb env cfg w
  refine ⟨es,hlog,?_⟩
  intro x hx
  obtain ⟨remaining,-,htimeout⟩ := passLog_within hpass x hx
  rw [h, FloatVal.min_nan] at htimeout
  rw [htimeout]
  exact ⟨rfl,rfl⟩

/-- The configured values are usable exactly where the last Timeout in range is
not NaN. -/
theorem usable_iff (casts : Casts) (blocks : List (List Node)) :
    Usable (configured casts {} blocks) ↔ lastOf casts timeoutOf blocks ≠ some .nan := by
  constructor
  · intro h
    exact (configured_window_iff casts blocks).mp h.timeout
  · intro h
    have hwindow := (configured_window_iff casts blocks).mpr h
    exact ⟨configured_portsAndCount casts blocks,hwindow,
      fun _ env w => handshakes_window hwindow env w⟩

/-- `Timeout "nan"` is taken over. -/
theorem nan_timeout_unusable :
    ¬ ∀ blocks : List (List Node), Usable (configured PythonCasts.casts {} blocks) := by
  intro h
  have hwindow := (h [[⟨"Timeout".toList,[.str "nan".toList]⟩]]).timeout
  have hnan : (configured PythonCasts.casts {} [[⟨"Timeout".toList,[.str "nan".toList]⟩]]).timeout =
    .nan := by decide
  rw [hnan] at hwindow
  exact FloatVal.lt_nan _ hwindow.1

end WireProbe.UsableConfig
