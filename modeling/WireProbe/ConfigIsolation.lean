import WireProbe.PythonCasts

/-!
# Bad nodes are isolated unless they raise

A node asks for a setting, and the setting is granted or not. A node that is
granted nothing warns and changes nothing, so dropping all such nodes from a
block leaves its effect as it is. Three kinds of nodes raise instead, and the
rest of their block is lost.
-/

set_option autoImplicit false

namespace WireProbe.ConfigIsolation
open WireProbe.Floats WireProbe.PluginConfig

/-- What a readable node in range asks for. -/
inductive Setting where
  | host (entry : HostEntry)
  | port (p : ℤ)
  | timeout (t : FloatVal)
  | pingCount (pc : ℤ)
  | aggregate (mode : Aggregate)

def inRange {α : Type} (rejected : α → Bool) : Except Exception α → Option α
  | .ok a => if rejected a then none else some a
  | .error _ => none

def hostRequest (casts : Casts) : Value → Option HostEntry
  | .str raw => some ⟨raw,(splitHostPort casts raw).1.1,(splitHostPort casts raw).1.2⟩
  | _ => none

/-- A Host with an unusable inline port asks for the host on the global port. -/
def requested (casts : Casts) (node : Node) : Option Setting :=
  node.values.head?.bind fun v =>
    let key := lower node.key
    if key = "host".toList then (hostRequest casts v).map .host
    else if key = "port".toList then
      (inRange (fun port => !validPort port) (castInt casts v)).map .port
    else if key = "timeout".toList then
      (inRange (fun t => t ≤ .fin 0 ∨ .fin 60 < t) (castFloat casts v)).map .timeout
    else if key = "pingcount".toList then
      (inRange (fun pc => ¬(1 ≤ pc ∧ pc ≤ 100)) (castInt casts v)).map .pingCount
    else if key = "aggregate".toList then (readMode v).map .aggregate
    else none

/-- The configuration with the setting in it, unless it is a duplicate host. -/
def Setting.apply (s : Config) : Setting → Option Config
  | .host entry => if s.hosts.contains entry then none else some {s with hosts := s.hosts++[entry]}
  | .port p => some {s with defaultPort := p}
  | .timeout t => some {s with timeout := t}
  | .pingCount pc => some {s with pingCount := pc}
  | .aggregate mode => some {s with aggregate := mode}

def granted (casts : Casts) (s : Config) (node : Node) : Option Config :=
  (requested casts node).bind (Setting.apply s)

def isString : Value → Bool
  | .str _ => true
  | _ => false

/-- The nodes that make `config_cb` raise: a Host without a string, a Port or a
PingCount that is an infinite float, an Aggregate without a value. -/
def Raises (node : Node) : Prop :=
  let key := lower node.key
  if key = "host".toList then node.values.head?.any isString = false
  else if key = "port".toList ∨ key = "pingcount".toList then
    node.values.head? = some (.float .posInf) ∨ node.values.head? = some (.float .negInf)
  else if key = "aggregate".toList then node.values = []
  else False

instance (node : Node) : Decidable (Raises node) :=
  inferInstanceAs (Decidable (ite _ _ (ite _ _ (ite _ _ _))))

/-- The outcome of a node that is granted `g`. -/
def Settles (s : Config) (g : Option Config) (r : Except Exception (Config × List Message)) : Prop :=
  match g with
  | some s' => ∃ warnings, r = .ok (s',warnings)
  | none => ∃ warnings, warnings ≠ [] ∧ r = .ok (s,warnings)

/-! ### Numeric settings -/

def Handled (e : Exception) : Prop := e = .indexError ∨ e = .typeError ∨ e = .valueError

instance (e : Exception) : Decidable (Handled e) := inferInstanceAs (Decidable (_ ∨ _ ∨ _))

section Numeric
variable {α : Type} (s : Config) (node : Node) (cast : Value → Except Exception α)
variable (name : String) (piece : α → Piece) (range : String) (default : Piece)
variable (rejected : α → Bool) (assign : α → Config)

theorem numericSetting_settles
    (h : ∀ v ∈ node.values.head?, ∀ e, cast v = .error e → Handled e) :
    Settles s ((node.values.head?.bind fun v => inRange rejected (cast v)).map assign)
      (numericSetting s node cast name piece range default rejected assign) := by
  unfold numericSetting numeric
  cases hvalues : node.values with
  | nil => exact ⟨_,List.cons_ne_nil _ _,rfl⟩
  | cons v rest =>
    rw [hvalues] at h
    cases hcast : cast v with
    | ok a =>
      cases hrejected : rejected a with
      | false => simp [Settles, inRange, hcast, hrejected]
      | true => simp [Settles, inRange, hcast, hrejected]
    | error e =>
      have hhandled : e = .indexError ∨ e = .typeError ∨ e = .valueError := h v rfl e hcast
      simp [Settles, inRange, hcast, hhandled]

theorem numericSetting_escapes {v : Value} {e : Exception} (hv : node.values.head? = some v)
    (hcast : cast v = .error e) (he : ¬Handled e) :
    numericSetting s node cast name piece range default rejected assign = .error e := by
  obtain ⟨rest,hvalues⟩ := List.head?_eq_some_iff.mp hv
  have hnot : ¬(e = .indexError ∨ e = .typeError ∨ e = .valueError) := he
  unfold numericSetting numeric
  simp [hvalues, hcast, hnot]

end Numeric

theorem unreadable {α : Type} (read : Option α) (e : Exception)
    (h : (read.elim (.error .valueError) .ok : Except Exception α) = .error e) : Handled e := by
  cases read with
  | none =>
    cases h
    decide
  | some a => cases h

theorem castInt_error (casts : Casts) (v : Value) (e : Exception) (h : castInt casts v = .error e)
    (hv : v ≠ .float .posInf ∧ v ≠ .float .negInf) : Handled e := by
  cases v with
  | str s => exact unreadable (casts.int s) e h
  | float x =>
    cases x with
    | fin q => cases h
    | posInf => exact absurd rfl hv.1
    | negInf => exact absurd rfl hv.2
    | nan =>
      cases h
      decide
  | bool b => cases h

theorem castFloat_error (casts : Casts) (v : Value) (e : Exception)
    (h : castFloat casts v = .error e) : Handled e := by
  cases v with
  | str s => exact unreadable (casts.float s) e h
  | float x => cases h
  | bool b => cases h

/-! ### One node -/

theorem configHost_settles (casts : Casts) (s : Config) (node : Node) {raw : List Char}
    (h : node.values.head? = some (.str raw)) :
    Settles s ((hostRequest casts (.str raw)).bind fun e => Setting.apply s (.host e))
      (configHost casts s node) := by
  obtain ⟨rest,hvalues⟩ := List.head?_eq_some_iff.mp h
  unfold configHost
  rw [hvalues]
  simp only [hostRequest, Option.bind_some, Setting.apply]
  split_ifs with hdup
  · exact ⟨_,by simp,rfl⟩
  · exact ⟨_,rfl⟩

theorem configAggregate_settles (s : Config) (node : Node) (h : node.values ≠ []) :
    Settles s ((node.values.head?.bind readMode).map fun mode => {s with aggregate := mode})
      (configAggregate s node) := by
  obtain ⟨v,rest,hvalues⟩ := List.exists_cons_of_ne_nil h
  unfold configAggregate
  rw [hvalues]
  cases hmode : readMode v with
  | none => simp [hmode, Settles]
  | some mode => simp [hmode, Settles]

/-- The settings that are granted once they are requested. -/
theorem granted_assign {α : Type} (s : Config) (v : Option Value) (read : Value → Option α)
    (mk : α → Setting) (assign : α → Config) (h : ∀ a, (mk a).apply s = some (assign a)) :
    (v.bind fun v => (read v).map mk).bind (Setting.apply s) = (v.bind read).map assign := by
  cases v with
  | none => rfl
  | some v =>
    cases hread : read v with
    | none => simp [hread]
    | some a => simp [hread, h]

theorem configNode_settles (casts : Casts) (s : Config) (node : Node) (h : ¬Raises node) :
    Settles s (granted casts s node) (configNode casts s node) := by
  have hint : ¬(node.values.head? = some (.float .posInf) ∨
      node.values.head? = some (.float .negInf)) → ∀ v ∈ node.values.head?,
      ∀ e, castInt casts v = .error e → Handled e := by
    intro hfinite v hv e he
    rw [Option.mem_def.mp hv, not_or] at hfinite
    exact castInt_error casts v e he ⟨fun h => hfinite.1 (by rw [h]),fun h => hfinite.2 (by rw [h])⟩
  unfold Raises at h
  unfold configNode granted requested
  by_cases hhost : lower node.key = "host".toList
  · simp only [if_pos hhost, Bool.not_eq_false, Option.any_eq_true] at h ⊢
    obtain ⟨v,hv,hstring⟩ := h
    cases v with
    | str raw =>
      have hsettles := configHost_settles casts s node hv
      rw [hv]
      exact hsettles
    | float x => cases hstring
    | bool b => cases hstring
  by_cases hport : lower node.key = "port".toList
  · simp only [if_neg hhost, if_pos hport, if_pos (Or.inl hport)] at h ⊢
    rw [granted_assign s _ _ .port (fun port => {s with defaultPort := port}) (fun _ => rfl)]
    exact numericSetting_settles s node _ _ _ _ _ _ _ (hint h)
  by_cases htimeout : lower node.key = "timeout".toList
  · simp only [if_neg hhost, if_neg hport, if_pos htimeout]
    rw [granted_assign s _ _ .timeout (fun t => {s with timeout := t}) (fun _ => rfl)]
    exact numericSetting_settles s node _ _ _ _ _ _ _ (fun v _ => castFloat_error casts v)
  by_cases hping : lower node.key = "pingcount".toList
  · simp only [if_neg hhost, if_neg hport, if_neg htimeout, if_pos hping,
      if_pos (Or.inr hping)] at h ⊢
    rw [granted_assign s _ _ .pingCount (fun pc => {s with pingCount := pc}) (fun _ => rfl)]
    exact numericSetting_settles s node _ _ _ _ _ _ _ (hint h)
  by_cases haggregate : lower node.key = "aggregate".toList
  · simp only [if_neg hhost, if_neg hport, if_neg htimeout, if_neg hping, if_pos haggregate,
      if_neg (not_or.mpr ⟨hport,hping⟩)] at h ⊢
    rw [granted_assign s _ _ .aggregate (fun mode => {s with aggregate := mode}) (fun _ => rfl)]
    exact configAggregate_settles s node h
  · simp only [if_neg hhost, if_neg hport, if_neg htimeout, if_neg hping, if_neg haggregate]
    have hnone : (node.values.head?.bind fun _ => (none : Option Setting)) = none := by
      cases node.values.head? <;> rfl
    rw [hnone]
    exact ⟨_,List.cons_ne_nil _ _,rfl⟩

theorem configNode_raises (casts : Casts) (s : Config) (node : Node) (h : Raises node) :
    ∃ e, configNode casts s node = .error e := by
  have hint : node.values.head? = some (.float .posInf) ∨
      node.values.head? = some (.float .negInf) → ∃ v, node.values.head? = some v ∧
      castInt casts v = .error .overflowError := by
    intro hinfinite
    rcases hinfinite with hv | hv
    · exact ⟨_,hv,rfl⟩
    · exact ⟨_,hv,rfl⟩
  unfold Raises at h
  unfold configNode
  by_cases hhost : lower node.key = "host".toList
  · simp only [if_pos hhost] at h ⊢
    unfold configHost
    cases hvalues : node.values with
    | nil => exact ⟨_,rfl⟩
    | cons v rest =>
      rw [hvalues] at h
      cases v with
      | str raw => cases h
      | float x => exact ⟨_,rfl⟩
      | bool b => exact ⟨_,rfl⟩
  by_cases hport : lower node.key = "port".toList
  · simp only [if_neg hhost, if_pos hport, if_pos (Or.inl hport)] at h ⊢
    obtain ⟨v,hv,hcast⟩ := hint h
    exact ⟨_,numericSetting_escapes s node _ _ _ _ _ _ _ hv hcast (by decide)⟩
  by_cases hping : lower node.key = "pingcount".toList
  · have htimeout : lower node.key ≠ "timeout".toList := by
      rw [hping]
      decide
    simp only [if_neg hhost, if_neg hport, if_neg htimeout, if_pos hping,
      if_pos (Or.inr hping)] at h ⊢
    obtain ⟨v,hv,hcast⟩ := hint h
    exact ⟨_,numericSetting_escapes s node _ _ _ _ _ _ _ hv hcast (by decide)⟩
  by_cases haggregate : lower node.key = "aggregate".toList
  · have htimeout : lower node.key ≠ "timeout".toList := by
      rw [haggregate]
      decide
    simp only [if_neg hhost, if_neg hport, if_neg htimeout, if_neg hping, if_pos haggregate,
      if_neg (not_or.mpr ⟨hport,hping⟩)] at h ⊢
    unfold configAggregate
    rw [h]
    exact ⟨_,rfl⟩
  · simp only [if_neg hhost, if_neg haggregate, if_neg (not_or.mpr ⟨hport,hping⟩)] at h

/-! ### A block of nodes -/

/-- The nodes that are granted their setting, each after those before it. -/
def kept (casts : Casts) : Config → List Node → List Node
  | _, [] => []
  | s, node::rest =>
    match granted casts s node with
    | none => kept casts s rest
    | some s' => node::kept casts s' rest

/-- The block is read to its end, every node takes its effect or warns and
changes nothing, and the nodes that only warn can be left out. -/
structure Isolated (casts : Casts) (s : Config) (nodes : List Node) : Prop where
  returns : (configCb casts s nodes).raised = none
  settles : ∀ before node after, nodes = before++node::after →
    Settles (configCb casts s before).config (granted casts (configCb casts s before).config node)
      (configNode casts (configCb casts s before).config node)
  kept_config : (configCb casts s nodes).config =
    (configCb casts s (kept casts s nodes)).config

/-- A node that does not raise hands the state it is granted to the next ones. -/
theorem configCb_cons (casts : Casts) (s : Config) {node : Node} (h : ¬Raises node)
    (rest : List Node) :
    (configCb casts s (node::rest)).config =
        (configCb casts ((granted casts s node).getD s) rest).config ∧
      (configCb casts s (node::rest)).raised =
        (configCb casts ((granted casts s node).getD s) rest).raised := by
  have hsettles := configNode_settles casts s node h
  cases hgranted : granted casts s node with
  | none =>
    rw [hgranted] at hsettles
    obtain ⟨warnings,-,hnode⟩ := hsettles
    simp [configCb, hnode]
  | some s' =>
    rw [hgranted] at hsettles
    obtain ⟨warnings,hnode⟩ := hsettles
    simp [configCb, hnode]

theorem configCb_raises (casts : Casts) (s : Config) {node : Node} (h : Raises node)
    (rest : List Node) : (configCb casts s (node::rest)).config = s ∧
      (configCb casts s (node::rest)).raised ≠ none := by
  obtain ⟨e,he⟩ := configNode_raises casts s node h
  simp [configCb, he]

theorem returns_iff (casts : Casts) (s : Config) (nodes : List Node) :
    (configCb casts s nodes).raised = none ↔ ∀ node ∈ nodes, ¬Raises node := by
  induction nodes generalizing s with
  | nil => simp [configCb]
  | cons node rest ih =>
    rw [List.forall_mem_cons]
    by_cases hraises : Raises node
    · exact iff_of_false (configCb_raises casts s hraises rest).2 (fun h => h.1 hraises)
    · rw [(configCb_cons casts s hraises rest).2, ih, and_iff_right hraises]

theorem kept_config (casts : Casts) (s : Config) (nodes : List Node)
    (h : ∀ node ∈ nodes, ¬Raises node) :
    (configCb casts s nodes).config = (configCb casts s (kept casts s nodes)).config := by
  induction nodes generalizing s with
  | nil => rfl
  | cons node rest ih =>
    obtain ⟨hnode,hrest⟩ := List.forall_mem_cons.mp h
    rw [(configCb_cons casts s hnode rest).1, ih _ hrest]
    rw [kept]
    cases hgranted : granted casts s node with
    | none => rfl
    | some s' => rw [(configCb_cons casts s hnode _).1, hgranted, Option.getD_some]

/-- A block is isolated from its bad nodes exactly where no node raises. -/
theorem isolated_iff (casts : Casts) (s : Config) (nodes : List Node) :
    Isolated casts s nodes ↔ ∀ node ∈ nodes, ¬Raises node := by
  constructor
  · intro h
    exact (returns_iff casts s nodes).mp h.returns
  · intro h
    refine ⟨(returns_iff casts s nodes).mpr h,?_,kept_config casts s nodes h⟩
    rintro before node after rfl
    exact configNode_settles casts _ node (h node (by simp))

/-- `PingCount inf` discards the Host behind it. -/
theorem infinite_count_raises :
    ¬ ∀ (s : Config) (nodes : List Node), Isolated PythonCasts.casts s nodes := by
  intro h
  have hreturns := (h {} [⟨"PingCount".toList,[.float .posInf]⟩,
    ⟨"Host".toList,[.str "kept".toList]⟩]).returns
  exact absurd hreturns (by decide)

end WireProbe.ConfigIsolation
