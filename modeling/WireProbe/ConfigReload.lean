import WireProbe.ConfiguredState
import WireProbe.SeriesLabels

/-!
# The configured state, in closed form

Of each block only the nodes before the first that raises are read. After any
blocks each scalar variable holds the last setting read that its check lets
through, `nan` for the timeout among them, and the hosts are the distinct Host
strings read, in the order of their first occurrence. So blocks that are handed
over a second time change nothing, and what the plugin says at startup is what
was read of them.
-/

set_option autoImplicit false

namespace WireProbe.ConfigReload
open WireProbe.Floats WireProbe.PluginConfig WireProbe.ConfigIsolation WireProbe.ConfiguredState
open WireProbe.SeriesLabels

section Closed
variable (casts : Casts)

def pingCountOf : Setting → Option ℤ
  | .pingCount pc => some pc
  | _ => none

def aggregateOf : Setting → Option Aggregate
  | .aggregate mode => some mode
  | _ => none

theorem configured_pingCount (s : Config) (blocks : List (List Node)) :
    (configured casts s blocks).pingCount = (lastOf casts pingCountOf blocks).getD s.pingCount := by
  apply configured_last casts pingCountOf Config.pingCount (fun _ => rfl)
  intro s setting s' h
  cases setting with
  | host entry =>
    obtain ⟨-,rfl⟩ := apply_host h
    rfl
  | _ =>
    cases h
    rfl

theorem configured_aggregate (s : Config) (blocks : List (List Node)) :
    (configured casts s blocks).aggregate = (lastOf casts aggregateOf blocks).getD s.aggregate := by
  apply configured_last casts aggregateOf Config.aggregate (fun _ => rfl)
  intro s setting s' h
  cases setting with
  | host entry =>
    obtain ⟨-,rfl⟩ := apply_host h
    rfl
  | _ =>
    cases h
    rfl

/-! ### The hosts -/

theorem entryOf_injective : Function.Injective (entryOf casts) := fun _ _ h => congrArg HostEntry.raw h

theorem eraseDups_concat (raws : List (List Char)) (raw : List Char) :
    (raws++[raw]).eraseDups = raws.eraseDups++(if raw ∈ raws then [] else [raw]) := by
  rw [List.eraseDups_append]
  split_ifs with h
  · simp [List.removeAll, h]
  · simp [List.removeAll, h, List.eraseDups_cons]

/-- One node extends the list by its Host string, if that is a new one. -/
theorem advance_hosts (s : Config) (node : Node) (raws : List (List Char))
    (h : s.hosts = raws.eraseDups.map (entryOf casts)) : (advance casts s node).hosts =
      (raws++(hostString node).toList).eraseDups.map (entryOf casts) := by
  have hmem : ∀ raw, entryOf casts raw ∈ s.hosts ↔ raw ∈ raws := by
    intro raw
    rw [h, List.mem_map_of_injective (entryOf_injective casts), List.mem_eraseDups]
  cases hraw : hostString node with
  | some raw =>
    have hrequested := (requested_host_iff casts node _).mpr ⟨raw,hraw,rfl⟩
    rw [Option.toList_some, eraseDups_concat, List.map_append, ← h]
    simp only [advance, granted, hrequested, Option.bind_some, Setting.apply]
    by_cases hdup : raw ∈ raws
    · rw [if_pos (List.contains_iff_mem.mpr ((hmem raw).mpr hdup)), if_pos hdup]
      simp
    · rw [if_neg (fun hc => hdup ((hmem raw).mp (List.contains_iff_mem.mp hc))), if_neg hdup]
      rfl
  | none =>
    have hother : ∀ entry, requested casts node ≠ some (.host entry) := by
      intro entry hentry
      obtain ⟨raw,hsome,-⟩ := (requested_host_iff casts node entry).mp hentry
      rw [hraw] at hsome
      cases hsome
    rw [Option.toList_none, List.append_nil, ← h]
    unfold advance granted
    cases hrequested : requested casts node with
    | none => rfl
    | some setting =>
      cases setting with
      | host entry => exact absurd hrequested (hother entry)
      | _ => rfl

theorem configured_hosts (s : Config) (blocks : List (List Node)) (raws : List (List Char))
    (h : s.hosts = raws.eraseDups.map (entryOf casts)) : (configured casts s blocks).hosts =
      (raws++hostStrings blocks).eraseDups.map (entryOf casts) := by
  rw [configured_eq, hostStrings]
  generalize blocks.flatMap executed = nodes
  induction nodes generalizing s raws with
  | nil => rw [List.filterMap_nil, List.append_nil, ← h, List.foldl_nil]
  | cons node rest ih =>
    rw [List.foldl_cons, ih _ _ (advance_hosts casts s node raws h), List.append_assoc]
    cases hraw : hostString node with
    | none => rw [List.filterMap_cons_none hraw, Option.toList_none, List.nil_append]
    | some raw => rw [List.filterMap_cons_some hraw, Option.toList_some, List.singleton_append]

/-! ### Reloading -/

/-- What the blocks say, off the nodes that are read: `lastOf` and `hostStrings`
take those of each block that precede the first one that raises. -/
def stated (blocks : List (List Node)) : Config where
  hosts := (hostStrings blocks).eraseDups.map (entryOf casts)
  timeout := (lastOf casts timeoutOf blocks).getD (.fin 5)
  pingCount := (lastOf casts pingCountOf blocks).getD 1
  defaultPort := (lastOf casts portOf blocks).getD 9999
  aggregate := (lastOf casts aggregateOf blocks).getD .avg

theorem config_eq {s t : Config} (hhosts : s.hosts = t.hosts) (htimeout : s.timeout = t.timeout)
    (hpingCount : s.pingCount = t.pingCount) (hport : s.defaultPort = t.defaultPort)
    (haggregate : s.aggregate = t.aggregate) : s = t := by
  cases s
  cases t
  simp_all

theorem configured_stated (blocks : List (List Node)) :
    configured casts {} blocks = stated casts blocks := by
  have hhosts := configured_hosts casts {} blocks [] rfl
  rw [List.nil_append] at hhosts
  exact config_eq hhosts (configured_timeout casts {} blocks) (configured_pingCount casts {} blocks)
    (configured_defaultPort casts {} blocks) (configured_aggregate casts {} blocks)

theorem eraseDups_twice (raws : List (List Char)) : (raws++raws).eraseDups = raws.eraseDups := by
  have hnone : raws.removeAll raws = [] := by
    rw [List.removeAll, List.filter_eq_nil_iff]
    intro raw hraw
    simp [hraw]
  rw [List.eraseDups_append, hnone, List.eraseDups_nil, List.append_nil]

theorem getD_twice {α : Type} (o : Option α) (a : α) : o.getD (o.getD a) = o.getD a := by
  cases o <;> rfl

/-- The state is what is read of the blocks, and blocks that collectd hands over
again leave it as it is: no host is listed twice, and no value falls back. -/
theorem reload_idempotent (blocks : List (List Node)) :
    configured casts {} blocks = stated casts blocks ∧
      configured casts (configured casts {} blocks) blocks = configured casts {} blocks := by
  refine ⟨configured_stated casts blocks,?_⟩
  rw [configured_stated]
  apply config_eq
  · rw [configured_hosts casts _ blocks (hostStrings blocks) rfl, eraseDups_twice]
    rfl
  · rw [configured_timeout]
    exact getD_twice _ _
  · rw [configured_pingCount]
    exact getD_twice _ _
  · rw [configured_defaultPort]
    exact getD_twice _ _
  · rw [configured_aggregate]
    exact getD_twice _ _

end Closed

/-! ### Startup -/

/-- The line that `init_cb` logs. -/
def infoLine (s : Config) : Message :=
  [.text "wire_probe: probing ",.int s.hosts.length,.text " host(s), port=",.int s.defaultPort,
    .text ", timeout=",.float s.timeout,.text "s, ping_count=",.int s.pingCount,
    .text ", aggregate=",.text (aggregateName s.aggregate)]

/-- The warnings of `init_cb`, and its line. -/
def initCb (s : Config) : List Message × Message := (warnOnLabelCollisions s,infoLine s)

/-- The line counts the distinct Host strings. -/
theorem initCb_line (casts : Casts) (blocks : List (List Node)) :
    (initCb (configured casts {} blocks)).2 = infoLine (stated casts blocks) ∧
      (stated casts blocks).hosts.length = (hostStrings blocks).eraseDups.length := by
  rw [configured_stated]
  exact ⟨rfl,List.length_map _⟩

end WireProbe.ConfigReload
