import WireProbe.ConfiguredState
import WireProbe.FirstSeen
import WireProbe.ReadTrace

/-!
# Series that two hosts share

Before the first pass the plugin warns of the hosts that report under the label
of an earlier one. A Host string determines its entry, so no two entries have
one string and no repeated label is taken for the entry itself. The label does
not depend on the global port: hosts without a warning keep to series of their
own in every pass.
-/

set_option autoImplicit false

namespace WireProbe.SeriesLabels
open WireProbe.Effect WireProbe.PluginConfig WireProbe.PluginRead WireProbe.ConfigIsolation
open WireProbe.ConfiguredState WireProbe.ReadTrace WireProbe.FirstSeen

/-! ### The warnings at startup -/

def collisionWarning (raw earlier label : List Char) : Message :=
  [.text "wire_probe: Host ", .repr (.str raw), .text " and Host ", .repr (.str earlier),
    .text " both report as '", .str label,
    .text "'; their values will be interleaved into one series. ",
    .text "Rename one, or give both an explicit port."]

/-- The loop of `_warn_on_label_collisions`. -/
def collisionsFrom (defaultPort : ℤ) :
    (List Char → Option (List Char)) → List HostEntry → List Message
  | _, [] => []
  | seen, host::rest =>
    let port := host.port.getD defaultPort
    let label := seriesLabel host.hostname port host.port
    -- `label in seen and seen[label] != raw`
    match (seen label).filter (· ≠ host.raw) with
    | some earlier => collisionWarning host.raw earlier label::collisionsFrom defaultPort seen rest
    | none => collisionsFrom defaultPort (Function.update seen label (some host.raw)) rest

def warnOnLabelCollisions (s : Config) : List Message :=
  collisionsFrom s.defaultPort (fun _ => none) s.hosts

theorem collisionsFrom_eq (defaultPort : ℤ) (seen : List Char → Option (List Char))
    (hosts : List HostEntry) :
    collisionsFrom defaultPort seen hosts =
      (scan (labelOf defaultPort) HostEntry.raw seen hosts).map fun p =>
        collisionWarning p.1.raw p.2 (labelOf defaultPort p.1) := by
  induction hosts generalizing seen with
  | nil => rfl
  | cons host rest ih =>
    rw [collisionsFrom, scan]
    show (match (seen (labelOf defaultPort host)).filter (· ≠ host.raw) with
      | some earlier => _
      | none => _) = _
    cases (seen (labelOf defaultPort host)).filter (· ≠ host.raw) with
    | none => exact ih _
    | some earlier => exact congrArg (_::·) (ih seen)

/-! ### The entries of a configuration -/

/-- The entry of a Host string, as every call of `config_cb` makes it. -/
theorem configured_entry (casts : Casts) (blocks : List (List Node)) {host : HostEntry}
    (h : host ∈ (configured casts {} blocks).hosts) : host = entryOf casts host.raw := by
  rcases (mem_configured_hosts casts {} blocks host).mp h with hmem | ⟨raw,-,rfl⟩
  · cases hmem
  · rfl

theorem configured_raws_nodup (casts : Casts) (blocks : List (List Node)) :
    ((configured casts {} blocks).hosts.map HostEntry.raw).Nodup := by
  apply List.Nodup.map_on _ (configured_hosts_nodup casts {} blocks List.nodup_nil)
  intro host hhost host' hhost' hraw
  rw [configured_entry casts blocks hhost, configured_entry casts blocks hhost', hraw]

theorem warnings_eq (casts : Casts) (blocks : List (List Node)) (p : ℤ) :
    collisionsFrom p (fun _ => none) (configured casts {} blocks).hosts =
      (repeats (labelOf p) [] (configured casts {} blocks).hosts).map fun c =>
        collisionWarning c.1.raw c.2.raw (labelOf p c.1) := by
  rw [collisionsFrom_eq, scan_eq (labelOf p) HostEntry.raw [] _ (fun _ => none) (fun _ => rfl)
    (configured_raws_nodup casts blocks), List.map_map]
  rfl

/-! ### The series of a pass -/

/-- The series of a dispatched value. -/
def series (d : List Char × ValueType × Reading) : List Char × ValueType := (d.1,d.2.1)

def seriesOf (defaultPort : ℤ) (host : HostEntry) : List (List Char × ValueType) :=
  [.ping,.pingDroprate,.pingStddev].map fun type => (labelOf defaultPort host,type)

theorem labelOf_port (p q : ℤ) (host : HostEntry) : labelOf p host = labelOf q host := by
  unfold labelOf seriesLabel
  cases host.port with
  | none => rfl
  | some port => rfl

variable {σ : Type}

theorem visits_series {cfg : Config} {hosts : List HostEntry} {visits : List (List (Event σ))}
    (h : List.Forall₂ (fun host visit => Visited cfg host (.ok ()) visit) hosts visits) :
    (dispatched visits.flatten).map series = hosts.flatMap (seriesOf cfg.defaultPort) := by
  induction h with
  | nil => rfl
  | cons hvisit _ ih =>
    obtain ⟨answer,addrInfo,outcomes,ping,dropped,stddev,-,-,-,-,-,-,-,hdispatched⟩ :=
      (hvisit.finished rfl).2
    rw [List.flatten_cons, dispatched_append, List.map_append, ih, hdispatched]
    rfl

theorem passLog_series {cfg : Config} {hosts : List HostEntry} {r : Except Failure Unit}
    {es : List (Event σ)} (h : PassLog cfg hosts r es) :
    (dispatched es).map series <+: hosts.flatMap (seriesOf cfg.defaultPort) := by
  obtain ⟨-,finished,rest,visits,tail,rfl,rfl,hvisits,htail⟩ := h
  have hnone : dispatched tail = [] := by
    rcases htail with ⟨-,-,-,hd⟩ | ⟨host,rest',e,-,hvisit⟩
    · exact hd
    · exact (hvisit.raised e rfl).2
  rw [dispatched_append, hnone, List.append_nil, visits_series hvisits, List.flatMap_append]
  exact List.prefix_append _ _

theorem series_nodup {p : ℤ} {hosts : List HostEntry} (h : (hosts.map (labelOf p)).Nodup) :
    (hosts.flatMap (seriesOf p)).Nodup := by
  rw [List.nodup_flatMap]
  constructor
  · intro host _
    refine List.Nodup.map (fun t t' ht => (Prod.mk.inj ht).2) (by decide)
  · refine (List.pairwise_map.mp h).imp ?_
    intro host host' hne d hd hd'
    obtain ⟨t,-,rfl⟩ := List.mem_map.mp hd
    obtain ⟨t',-,ht⟩ := List.mem_map.mp hd'
    exact hne (Prod.mk.inj ht).1.symm

/-- A warning is issued for each entry under the label of an earlier one, as
many as there are entries beyond the number of labels. Without a warning no
pass over these hosts, whatever the global port, dispatches two values of a
type under one label. -/
theorem collisions_reported (casts : Casts) (blocks : List (List Node)) :
    let s := configured casts {} blocks
    warnOnLabelCollisions s = (repeats (labelOf s.defaultPort) [] s.hosts).map (fun c =>
      collisionWarning c.1.raw c.2.raw (labelOf s.defaultPort c.1)) ∧
    (warnOnLabelCollisions s).length+(s.hosts.map (labelOf s.defaultPort)).toFinset.card =
      s.hosts.length ∧
    (warnOnLabelCollisions s = [] → ∀ (σ : Type) (env : Env σ) (cfg : Config) (w : World σ),
      cfg.hosts = s.hosts → ∃ es, (readCb env cfg w).2.log = w.log++es ∧
        ((dispatched es).map series).Nodup) := by
  intro s
  have hwarnings := warnings_eq casts blocks s.defaultPort
  refine ⟨hwarnings,?_,?_⟩
  · have hlength := length_repeats (labelOf s.defaultPort) [] s.hosts
    rw [warnOnLabelCollisions, hwarnings, List.length_map]
    simpa using hlength
  · intro hnone σ env cfg w hhosts
    obtain ⟨es,hlog,hpass⟩ := wp_readCb env cfg w
    refine ⟨es,hlog,List.Nodup.sublist (passLog_series hpass).sublist (series_nodup ?_)⟩
    rw [hhosts, List.map_congr_left fun host _ => labelOf_port cfg.defaultPort s.defaultPort host]
    apply nodup_of_repeats_nil
    rw [warnOnLabelCollisions, hwarnings] at hnone
    exact List.map_eq_nil_iff.mp hnone

example : (warnOnLabelCollisions (configured PythonCasts.casts {} [[
    ⟨"Host".toList,[.str "db_9999".toList]⟩,⟨"Host".toList,[.str "db:9999".toList]⟩]])).length = 1 := by
  decide

end WireProbe.SeriesLabels
