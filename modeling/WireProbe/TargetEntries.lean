import Mathlib.Tactic.NormNum
import WireProbe.ConfiguredState
import WireProbe.ReadTrace

/-!
# One entry for each target

A pass resolves the target of each entry it gets to and records one outcome
under it. The entries of a configuration differ in their spelling, and a pass
keeps to one entry for each target exactly where different spellings name
different targets.
-/

set_option autoImplicit false

namespace WireProbe.TargetEntries
open WireProbe.Floats WireProbe.Effect WireProbe.PluginConfig WireProbe.PluginRead
open WireProbe.ConfiguredState WireProbe.ReadTrace WireProbe.GetAddrInfo

variable {σ : Type}

/-! ### The targets of a pass -/

theorem visits_targets {cfg : Config} {hosts : List HostEntry} {visits : List (List (Event σ))}
    (h : List.Forall₂ (fun host visit => Visited cfg host (.ok ()) visit) hosts visits) :
    (resolutions visits.flatten).map Prod.fst = hosts.map (stateKey cfg.defaultPort) ∧
      records visits.flatten = hosts.map (stateKey cfg.defaultPort) := by
  induction h with
  | nil => exact ⟨rfl,rfl⟩
  | cons hvisit _ ih =>
    rw [List.flatten_cons, resolutions_append, records_append, List.map_append, ih.1, ih.2,
      hvisit.resolutions, (hvisit.finished rfl).1]
    exact ⟨rfl,rfl⟩

theorem passLog_targets {cfg : Config} {hosts : List HostEntry} {r : Except Failure Unit}
    {es : List (Event σ)} (h : PassLog cfg hosts r es) :
    (resolutions es).map Prod.fst <+: hosts.map (stateKey cfg.defaultPort) ∧
      records es <+: hosts.map (stateKey cfg.defaultPort) := by
  obtain ⟨-,finished,rest,visits,tail,rfl,rfl,hvisits,htail⟩ := h
  obtain ⟨hresolutions,hrecords⟩ := visits_targets hvisits
  rw [resolutions_append, records_append, List.map_append, List.map_append, hresolutions, hrecords,
    List.prefix_append_right_inj, List.prefix_append_right_inj]
  rcases htail with ⟨hr,-,hc,-⟩ | ⟨host,rest',e,rfl,hvisit⟩
  · rw [hr, hc]
    exact ⟨List.nil_prefix,List.nil_prefix⟩
  · rw [hvisit.resolutions, (hvisit.raised e rfl).1]
    exact ⟨⟨_,rfl⟩,List.nil_prefix⟩

/-- No target is resolved for two entries, and none gets two outcomes. -/
def OneEntry (cfg : Config) : Prop :=
  ∀ (σ : Type) (env : Env σ) (w : World σ), ∃ es, (readCb env cfg w).2.log = w.log++es ∧
    ((resolutions es).map Prod.fst).Nodup ∧ (records es).Nodup

theorem oneEntry_of_nodup {cfg : Config} (h : (cfg.hosts.map (stateKey cfg.defaultPort)).Nodup) :
    OneEntry cfg := by
  intro σ env w
  obtain ⟨es,hlog,hpass⟩ := wp_readCb env cfg w
  obtain ⟨hresolutions,hrecords⟩ := passLog_targets hpass
  exact ⟨es,hlog,h.sublist hresolutions.sublist,h.sublist hrecords.sublist⟩

/-! ### A pass that gets to every host -/

/-- A clock that stands still, a resolver that answers `addrs`, and sockets that
refuse. -/
def refusing (addrs : List AddrInfo) : Env Unit where
  monotonic := fun s => (0,s)
  getInterval := fun s => (.ok (.fin 10),s)
  getaddrinfo := fun _ s => (.ok addrs,s)
  socket := fun _ s => (.ok (),s)
  connect := fun _ _ s => (.error .osError,s)
  hasTcpInfo := false
  byteOrder := .little
  getsockopt := fun s => (.error .osError,s)
  close := fun s => s

theorem probes_none (env : Env σ) (timeout deadline : FloatVal) (n : ℕ) (samples : List ℚ)
    (attempts : ℕ) :
    probes env timeout deadline none n samples attempts = pure (samples,attempts) := by
  cases n <;> rfl

theorem unresolved_finishes (cfg : Config) (deadline : FloatVal) (host : HostEntry)
    (w : World Unit) : (probeHost (refusing []) cfg deadline host w).1 = .ok () := by
  show wp (resolveAll (refusing []) (stateKey cfg.defaultPort host) >>= _) (fun r _ => r = .ok ()) w
  apply wp_step (show resolveAll (refusing []) _ w = (.ok none,_) from rfl)
  apply wp_step (show warnUnresolved host.hostname none _ = (.ok (),_) from rfl)
  apply wp_step (show preferredAddress _ none _ = (.ok none,_) from rfl)
  rw [probes_none]
  rfl

theorem unresolved_pass (cfg : Config) (hosts : List HostEntry) (w : World Unit) :
    wp (readHosts (refusing []) cfg (.fin 8) hosts) (fun _ w' => ∃ es, w'.log = w.log++es ∧
      (resolutions es).map Prod.fst = hosts.map (stateKey cfg.defaultPort)) w := by
  induction hosts generalizing w with
  | nil => exact ⟨[],by simp [readHosts, pure],rfl⟩
  | cons host rest ih =>
    apply wp_step (show monotonic (refusing []) w = (.ok 0,w) from rfl)
    rw [if_neg (by decide)]
    have hfinishes : wp (probeHost (refusing []) cfg (.fin 8) host) (fun r _ => r = .ok ()) w :=
      unresolved_finishes cfg (.fin 8) host w
    apply wp_seq (wp_and hfinishes (wp_probeHost (refusing []) cfg (.fin 8) host w))
    · rintro ⟨⟩ w₁ ⟨-,visit,h₁,hvisit⟩
      apply wp_mono (ih w₁)
      rintro r w₂ ⟨es,h₂,hresolutions⟩
      refine ⟨visit++es,by rw [h₂, h₁, List.append_assoc],?_⟩
      rw [resolutions_append, List.map_append, hvisit.resolutions, hresolutions]
      rfl
    · rintro e w₁ ⟨⟨⟩,-⟩

theorem readCb_refusing (addrs : List AddrInfo) (cfg : Config) (w : World Unit) :
    readCb (refusing addrs) cfg w = readHosts (refusing addrs) cfg (.fin 8) cfg.hosts w := by
  have hdeadline : (FloatVal.fin 0).add ((FloatVal.fin 10).scale readBudgetRatio) = .fin 8 := by
    norm_num [FloatVal.add, FloatVal.scale, readBudgetRatio]
  rw [← hdeadline]
  rfl

theorem oneEntry_iff_nodup (cfg : Config) :
    OneEntry cfg ↔ (cfg.hosts.map (stateKey cfg.defaultPort)).Nodup := by
  refine ⟨?_,oneEntry_of_nodup⟩
  intro h
  obtain ⟨es,hlog,hresolutions,-⟩ := h Unit (refusing []) ⟨(),fun _ => none,[]⟩
  obtain ⟨es',hlog',hall⟩ := unresolved_pass cfg cfg.hosts ⟨(),fun _ => none,[]⟩
  rw [readCb_refusing] at hlog
  obtain rfl : es = es' := by simpa using hlog.symm.trans hlog'
  rwa [hall] at hresolutions

/-! ### The targets of a configuration -/

/-- The target that a Host string names under a global port. -/
def target (casts : Casts) (port : ℤ) (raw : List Char) : StateKey :=
  ((splitHostPort casts raw).1.1,(splitHostPort casts raw).1.2.getD port)

/-- The last Port in range, over all blocks, or the default. -/
def globalPort (casts : Casts) (blocks : List (List Node)) : ℤ :=
  (lastOf casts portOf blocks).getD 9999

/-- A pass keeps to one entry for each target exactly where no two spellings
among the Host strings name one target. -/
theorem one_entry_iff (casts : Casts) (blocks : List (List Node)) :
    OneEntry (configured casts {} blocks) ↔
      ∀ raw ∈ hostStrings blocks, ∀ raw' ∈ hostStrings blocks,
        target casts (globalPort casts blocks) raw = target casts (globalPort casts blocks) raw' →
        raw = raw' := by
  have hport : (configured casts {} blocks).defaultPort = globalPort casts blocks :=
    configured_defaultPort casts {} blocks
  have hmem := mem_configured_hosts casts {} blocks
  rw [oneEntry_iff_nodup, List.nodup_map_iff_inj_on
    (configured_hosts_nodup casts {} blocks List.nodup_nil), hport]
  constructor
  · intro h raw hraw raw' hraw' heq
    have hsame := h (entryOf casts raw) ((hmem _).mpr (.inr ⟨raw,hraw,rfl⟩)) (entryOf casts raw')
      ((hmem _).mpr (.inr ⟨raw',hraw',rfl⟩)) heq
    exact congrArg HostEntry.raw hsame
  · intro h e he e' he' heq
    obtain ⟨raw,hraw,rfl⟩ := ((hmem e).mp he).resolve_left List.not_mem_nil
    obtain ⟨raw',hraw',rfl⟩ := ((hmem e').mp he').resolve_left List.not_mem_nil
    rw [h raw hraw raw' hraw' heq]

/-- `a` and `a:9999` are two entries for one target. -/
theorem spellings_share_target :
    ¬ ∀ blocks : List (List Node), OneEntry (configured PythonCasts.casts {} blocks) := by
  intro h
  have hnodup := (oneEntry_iff_nodup _).mp (h [[⟨"Host".toList,[.str "a".toList]⟩,
    ⟨"Host".toList,[.str "a:9999".toList]⟩]])
  exact absurd hnodup (by decide)

end WireProbe.TargetEntries
