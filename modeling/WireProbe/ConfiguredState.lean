import WireProbe.ConfigIsolation

/-!
# What a sequence of blocks configures

The module variables after any sequence of blocks are the fold of the granted
settings over the nodes that were read. A scalar variable holds its last
setting, and the host list holds one entry for each Host string.
-/

set_option autoImplicit false

namespace WireProbe.ConfiguredState
open WireProbe.Floats WireProbe.PluginConfig WireProbe.ConfigIsolation

/-- The nodes of a block that are read before one raises. -/
def executed (nodes : List Node) : List Node := nodes.takeWhile (fun node => !Raises node)

def advance (casts : Casts) (s : Config) (node : Node) : Config := (granted casts s node).getD s

theorem configCb_config (casts : Casts) (s : Config) (nodes : List Node) :
    (configCb casts s nodes).config = (executed nodes).foldl (advance casts) s := by
  induction nodes generalizing s with
  | nil => rfl
  | cons node rest ih =>
    by_cases hraises : Raises node
    · rw [(configCb_raises casts s hraises rest).1]
      simp [executed, hraises]
    · have hexecuted : executed (node::rest) = node::executed rest := by
        simp [executed, hraises]
      rw [hexecuted, List.foldl_cons, (configCb_cons casts s hraises rest).1, ih]
      rfl

theorem configured_eq (casts : Casts) (s : Config) (blocks : List (List Node)) :
    configured casts s blocks = (blocks.flatMap executed).foldl (advance casts) s := by
  induction blocks generalizing s with
  | nil => rfl
  | cons nodes rest ih =>
    rw [List.flatMap_cons, List.foldl_append, ← configCb_config, ← ih]
    rfl

/-! ### The settings -/

/-- The range that a requested setting is in. -/
def InRange (casts : Casts) : Setting → Prop
  | .host entry => ∃ raw, hostRequest casts (.str raw) = some entry
  | .port p => 1 ≤ p ∧ p ≤ 65535
  | .timeout t => t = .nan ∨ .fin 0 < t ∧ t ≤ .fin 60
  | .pingCount pc => 1 ≤ pc ∧ pc ≤ 100
  | .aggregate _ => True

theorem validPort_iff (p : ℤ) : validPort p = true ↔ 1 ≤ p ∧ p ≤ 65535 := by
  simp [validPort]

theorem inRange_some {α : Type} {rejected : α → Bool} {r : Except Exception α} {a : α}
    (h : inRange rejected r = some a) : rejected a = false := by
  cases r with
  | error e => cases h
  | ok b =>
    unfold inRange at h
    simp only at h
    split_ifs at h with hb
    cases h
    simpa using hb

theorem requested_inRange (casts : Casts) (node : Node) (setting : Setting)
    (h : requested casts node = some setting) : InRange casts setting := by
  unfold requested at h
  obtain ⟨v,hv,h⟩ := Option.bind_eq_some_iff.mp h
  simp only at h
  split_ifs at h
  · obtain ⟨entry,hentry,rfl⟩ := Option.map_eq_some_iff.mp h
    cases v with
    | str raw => exact ⟨raw,hentry⟩
    | float x => cases hentry
    | bool b => cases hentry
  · obtain ⟨p,hp,rfl⟩ := Option.map_eq_some_iff.mp h
    exact (validPort_iff p).mp (by simpa using inRange_some hp)
  · obtain ⟨t,ht,rfl⟩ := Option.map_eq_some_iff.mp h
    exact FloatVal.not_rejected (by simpa using inRange_some ht)
  · obtain ⟨pc,hpc,rfl⟩ := Option.map_eq_some_iff.mp h
    simpa [InRange] using inRange_some hpc
  · obtain ⟨mode,hmode,rfl⟩ := Option.map_eq_some_iff.mp h
    trivial

theorem apply_host {s s' : Config} {entry : HostEntry}
    (h : Setting.apply s (.host entry) = some s') :
    entry ∉ s.hosts ∧ s' = {s with hosts := s.hosts++[entry]} := by
  simp only [Setting.apply] at h
  split_ifs at h with hdup
  exact ⟨fun hmem => hdup (List.contains_iff_mem.mpr hmem),(Option.some.inj h).symm⟩

section Runs
variable (casts : Casts)

theorem advance_invariant {P : Config → Prop} (hstep : ∀ s setting s', InRange casts setting →
    setting.apply s = some s' → P s → P s') (s : Config) (node : Node) (h : P s) :
    P (advance casts s node) := by
  unfold advance granted
  cases hrequested : requested casts node with
  | none => exact h
  | some setting =>
    rw [Option.bind_some]
    cases happly : setting.apply s with
    | none => exact h
    | some s' => exact hstep s setting s' (requested_inRange casts node setting hrequested) happly h

/-- What every setting in range preserves holds of every configured state. -/
theorem configured_invariant {P : Config → Prop} (hstep : ∀ s setting s', InRange casts setting →
    setting.apply s = some s' → P s → P s') (s : Config) (blocks : List (List Node)) (h : P s) :
    P (configured casts s blocks) := by
  rw [configured_eq]
  generalize blocks.flatMap executed = nodes
  induction nodes generalizing s with
  | nil => exact h
  | cons node rest ih => exact ih _ (advance_invariant casts hstep s node h)

/-! ### Scalar variables -/

/-- The last setting, over all blocks, that `pick` picks. -/
def lastOf {α : Type} (pick : Setting → Option α) (blocks : List (List Node)) : Option α :=
  ((blocks.flatMap executed).filterMap fun node => (requested casts node).bind pick).getLast?

/-- A variable that only the settings picked by `pick` write. -/
theorem configured_last {α : Type} (pick : Setting → Option α) (get : Config → α)
    (hhost : ∀ entry, pick (.host entry) = none)
    (hget : ∀ s setting s', Setting.apply s setting = some s' → get s' = (pick setting).getD (get s))
    (s : Config) (blocks : List (List Node)) :
    get (configured casts s blocks) = (lastOf casts pick blocks).getD (get s) := by
  have hadvance : ∀ s node,
      get (advance casts s node) = ((requested casts node).bind pick).getD (get s) := by
    intro s node
    unfold advance granted
    cases requested casts node with
    | none => rfl
    | some setting =>
      rw [Option.bind_some, Option.bind_some]
      cases happly : setting.apply s with
      | some s' => exact hget s setting s' happly
      | none =>
        cases setting with
        | host entry =>
          rw [hhost]
          rfl
        | _ => cases happly
  rw [configured_eq, lastOf]
  generalize blocks.flatMap executed = nodes
  induction nodes generalizing s with
  | nil => rfl
  | cons node rest ih =>
    rw [List.foldl_cons, ih, hadvance, List.filterMap_cons]
    cases (requested casts node).bind pick with
    | none => rfl
    | some a => simp [List.getLast?_cons]

def timeoutOf : Setting → Option FloatVal
  | .timeout t => some t
  | _ => none

def portOf : Setting → Option ℤ
  | .port p => some p
  | _ => none

theorem configured_timeout (s : Config) (blocks : List (List Node)) :
    (configured casts s blocks).timeout = (lastOf casts timeoutOf blocks).getD s.timeout := by
  apply configured_last casts timeoutOf Config.timeout (fun _ => rfl)
  intro s setting s' h
  cases setting with
  | host entry =>
    obtain ⟨-,rfl⟩ := apply_host h
    rfl
  | _ =>
    cases h
    rfl

theorem configured_defaultPort (s : Config) (blocks : List (List Node)) :
    (configured casts s blocks).defaultPort = (lastOf casts portOf blocks).getD s.defaultPort := by
  apply configured_last casts portOf Config.defaultPort (fun _ => rfl)
  intro s setting s' h
  cases setting with
  | host entry =>
    obtain ⟨-,rfl⟩ := apply_host h
    rfl
  | _ =>
    cases h
    rfl

/-! ### The hosts -/

/-- The string of a Host node. -/
def hostString (node : Node) : Option (List Char) :=
  if lower node.key = "host".toList then
    node.values.head?.bind fun
      | .str raw => some raw
      | _ => none
  else none

def hostStrings (blocks : List (List Node)) : List (List Char) :=
  (blocks.flatMap executed).filterMap hostString

def entryOf (raw : List Char) : HostEntry :=
  ⟨raw,(splitHostPort casts raw).1.1,(splitHostPort casts raw).1.2⟩

theorem requested_host_iff (node : Node) (entry : HostEntry) :
    requested casts node = some (.host entry) ↔
      ∃ raw, hostString node = some raw ∧ entry = entryOf casts raw := by
  unfold requested hostString
  cases node.values.head? with
  | none =>
    simp only [Option.bind_none, ite_self]
    simp
  | some v =>
    simp only [Option.bind_some]
    split_ifs
    · cases v with
      | str raw =>
        constructor
        · rintro ⟨⟩
          exact ⟨raw,rfl,rfl⟩
        · rintro ⟨_,⟨⟩,rfl⟩
          rfl
      | float x => simp [hostRequest]
      | bool b => simp [hostRequest]
    all_goals simp [Option.map_eq_some_iff]

theorem mem_advance_hosts (s : Config) (node : Node) (entry : HostEntry) :
    entry ∈ (advance casts s node).hosts ↔
      entry ∈ s.hosts ∨ requested casts node = some (.host entry) := by
  unfold advance granted
  cases requested casts node with
  | none => simp
  | some setting =>
    cases setting with
    | host e =>
      simp only [Option.bind_some, Setting.apply]
      split_ifs with hdup
      · have hmem := List.contains_iff_mem.mp hdup
        simp only [Option.getD_none, Option.some.injEq, Setting.host.injEq]
        constructor
        · exact Or.inl
        · rintro (h | rfl)
          · exact h
          · exact hmem
      · simp only [Option.getD_some, List.mem_append, List.mem_singleton, Option.some.injEq,
          Setting.host.injEq]
        rw [eq_comm (a := entry)]
    | _ => simp [Setting.apply]

theorem mem_configured_hosts (s : Config) (blocks : List (List Node)) (entry : HostEntry) :
    entry ∈ (configured casts s blocks).hosts ↔
      entry ∈ s.hosts ∨ ∃ raw ∈ hostStrings blocks, entry = entryOf casts raw := by
  rw [configured_eq, hostStrings]
  generalize blocks.flatMap executed = nodes
  induction nodes generalizing s with
  | nil => simp
  | cons node rest ih =>
    rw [List.foldl_cons, ih, mem_advance_hosts, requested_host_iff, or_assoc]
    cases hnode : hostString node with
    | none => simp [hnode]
    | some raw => simp [hnode]

theorem configured_hosts_nodup (s : Config) (blocks : List (List Node)) (h : s.hosts.Nodup) :
    (configured casts s blocks).hosts.Nodup := by
  apply configured_invariant casts (P := fun s => s.hosts.Nodup) ?_ s blocks h
  intro s setting s' _ happly hnodup
  cases setting with
  | host entry =>
    obtain ⟨hnew,rfl⟩ := apply_host happly
    exact List.nodup_append.mpr ⟨hnodup,List.pairwise_singleton _ _,by
      rintro a ha b hb rfl
      exact hnew (List.mem_singleton.mp hb ▸ ha)⟩
  | _ =>
    cases happly
    exact hnodup

end Runs

end WireProbe.ConfiguredState
