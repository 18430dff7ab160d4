import Mathlib.Data.Prod.Lex
import WireProbe.CyclicOrder
import WireProbe.Transducer

/-!
# The rotation policy of the Rust probe

`adopt` and `applyResolution` decide which resolved address is probed next.
The faithful state is a list of addresses and the address in use; the
abstract one is a finite set with a selected member, which no resolver order
or repetition can influence. The first refines the second at every call.
-/

set_option autoImplicit false

namespace WireProbe.AddressRotation
open WireProbe.CyclicOrder

/-- `std::net::SocketAddr`. Its derived order puts every IPv4 address before
every IPv6 one and compares the fields from left to right within each. -/
inductive SocketAddr where
  | v4 (ip : BitVec 32) (port : BitVec 16)
  | v6 (ip : BitVec 128) (port : BitVec 16) (flowinfo scopeId : BitVec 32)
  deriving DecidableEq, Repr

def SocketAddr.fields : SocketAddr → ℕ ×ₗ ℕ ×ₗ ℕ ×ₗ ℕ ×ₗ ℕ
  | .v4 ip port => toLex (0, toLex (ip.toNat, toLex (port.toNat, toLex (0, 0))))
  | .v6 ip port flowinfo scopeId =>
    toLex (1, toLex (ip.toNat, toLex (port.toNat, toLex (flowinfo.toNat, scopeId.toNat))))

theorem SocketAddr.fields_injective : Function.Injective SocketAddr.fields := by
  intro a b h
  cases a <;> cases b <;> simp_all [SocketAddr.fields, BitVec.toNat_inj]

instance : LinearOrder SocketAddr := LinearOrder.lift' SocketAddr.fields SocketAddr.fields_injective

variable {α : Type*} [LinearOrder α]

/-- `Vec::dedup`: of each run of equal neighbours the first is kept. -/
def dedup : List α → List α
  | [] => []
  | [a] => [a]
  | a::b::l => if a = b then dedup (b::l) else a::dedup (b::l)

def adopt (fresh : List α) : Option (List α × α) :=
  match fresh.head? with
  | none => none
  | some preferred => some (dedup (fresh.insertionSort (· ≤ ·)), preferred)

/-- What `run_probe` carries between rotations. -/
structure Selection (α : Type*) where
  addrs : List α
  current : α
  deriving DecidableEq, Repr

structure Rotation where
  moved : Bool
  listChanged : Bool
  deriving DecidableEq, Repr

def applyResolution (s : Selection α) (fresh : List α) : Selection α × Rotation :=
  match adopt fresh with
  | none => (s, ⟨false,false⟩)
  | some (sorted, preferred) =>
    let listChanged := decide (sorted ≠ s.addrs)
    let next := ((sorted.idxOf? s.current).bind
      fun pos => sorted[pos+1]? <|> sorted.head?).getD preferred
    let moved := decide (next ≠ s.current)
    (⟨sorted,next⟩, ⟨moved,listChanged⟩)

/-- The first lines of `run_probe`: no answer, no probe. -/
def start (resolved : List α) : Option (Selection α) :=
  (adopt resolved).map fun (addrs, preferred) => ⟨addrs,preferred⟩

def Reachable (s : Selection α) : Prop :=
  Transducer.Reachable applyResolution (fun s => ∃ resolved, start resolved = some s) s

/-! ### The canonical list -/

theorem mem_dedup (l : List α) (a : α) : a ∈ dedup l ↔ a ∈ l := by
  induction l using dedup.induct with
  | case1 => rfl
  | case2 b => rfl
  | case3 b l ih => simp [dedup, ih]
  | case4 b c l hne ih => simp [dedup, hne, ih]

theorem dedup_sorted (l : List α) (hl : l.Pairwise (· ≤ ·)) : (dedup l).Pairwise (· < ·) := by
  induction l using dedup.induct with
  | case1 => exact List.Pairwise.nil
  | case2 b => exact List.pairwise_singleton _ b
  | case3 b l ih =>
    rw [dedup, if_pos rfl]
    exact ih (List.pairwise_cons.mp hl).2
  | case4 b c l hne ih =>
    obtain ⟨hb,hcl⟩ := List.pairwise_cons.mp hl
    rw [dedup, if_neg hne]
    refine List.pairwise_cons.mpr ⟨?_,ih hcl⟩
    intro x hx
    have hbc : b < c := lt_of_le_of_ne (hb c (by simp)) hne
    rcases List.mem_cons.mp ((mem_dedup _ x).mp hx) with rfl | hxl
    · exact hbc
    · exact lt_of_lt_of_le hbc ((List.pairwise_cons.mp hcl).1 x hxl)

/-- Sorting and dropping repeats enumerates the set of answers in ascending
order, whatever the order and multiplicity in which they came. -/
theorem canonical (fresh : List α) :
    dedup (fresh.insertionSort (· ≤ ·)) = fresh.toFinset.sort (· ≤ ·) := by
  apply List.Pairwise.eq_of_mem_iff
    (dedup_sorted _ (List.pairwise_insertionSort (· ≤ ·) fresh)) fresh.toFinset.sortedLT_sort.pairwise
  intro a
  simp [mem_dedup]

theorem adopt_nil : adopt ([] : List α) = none := rfl

theorem adopt_cons (preferred : α) (rest : List α) :
    adopt (preferred::rest) = some ((preferred::rest).toFinset.sort (· ≤ ·), preferred) := by
  rw [← canonical]
  rfl

/-- The position lookup with its wrap-around is the cyclic successor. -/
theorem successor_lookup (S : Finset α) (c : α) (hc : c ∈ S) :
    (((S.sort (· ≤ ·)).idxOf? c).bind
      fun pos => (S.sort (· ≤ ·))[pos+1]? <|> (S.sort (· ≤ ·)).head?) = some (next S c) := by
  obtain ⟨i,hi,rfl⟩ := exists_sort_getElem hc
  have hidx : (S.sort (· ≤ ·)).idxOf? (S.sort (· ≤ ·))[i] = some i := by
    rw [List.idxOf?_eq_some_iff]
    refine ⟨hi,by simp,?_⟩
    intro j hj
    simpa using fun h => absurd ((S.sort_nodup (· ≤ ·)).getElem_inj_iff.mp h) (by omega)
  rw [hidx, Option.bind_some, ← getElem_next S i hi]
  by_cases hlast : i+1 < (S.sort (· ≤ ·)).length
  · rw [Nat.mod_eq_of_lt hlast, List.getElem?_eq_getElem hlast]
    rfl
  · have hlen : i+1 = (S.sort (· ≤ ·)).length := by omega
    rw [hlen, Nat.mod_self, List.getElem?_eq_none (le_refl _), List.head?_eq_getElem?]
    rfl

/-! ### The abstract choice -/

/-- A finite set of addresses with a selected member. -/
structure Choice (α : Type*) where
  members : Finset α
  selected : α
  selected_mem : selected ∈ members

namespace Choice

def selection (r : Choice α) : Selection α := ⟨r.members.sort (· ≤ ·),r.selected⟩

def first (preferred : α) (rest : List α) : Choice α :=
  ⟨(preferred::rest).toFinset,preferred,by simp⟩

/-- An empty answer changes nothing. Otherwise the answers become the set and
the selection steps to its cyclic successor, or takes the resolver's first
answer where it has vanished. -/
def resolve (r : Choice α) : List α → Choice α
  | [] => r
  | preferred::rest =>
    if r.selected ∈ preferred::rest then
      ⟨(preferred::rest).toFinset,next (preferred::rest).toFinset r.selected,
        next_mem (List.toFinset_nonempty_iff _ |>.mpr (by simp)) _⟩
    else first preferred rest

end Choice

theorem start_refines (preferred : α) (rest : List α) :
    start (preferred::rest) = some (Choice.first preferred rest).selection := by
  rw [start, adopt_cons]
  rfl

theorem sort_inj (S T : Finset α) : S.sort (· ≤ ·) = T.sort (· ≤ ·) ↔ S = T := by
  constructor
  · intro h
    rw [← S.sort_toFinset (· ≤ ·), h, T.sort_toFinset]
  · rintro rfl
    rfl

/-- Every call of `applyResolution` on a state that stands for a choice leaves
the state of the resolved choice and reports exactly what changed. -/
theorem applyResolution_refines (r : Choice α) (fresh : List α) :
    applyResolution r.selection fresh = ((r.resolve fresh).selection,
      ⟨decide ((r.resolve fresh).selected ≠ r.selected),
        decide ((r.resolve fresh).members ≠ r.members)⟩) := by
  cases fresh with
  | nil => simp [applyResolution, adopt_nil, Choice.resolve]
  | cons preferred rest =>
    by_cases hmem : r.selected ∈ preferred::rest
    · have hlook := successor_lookup (preferred::rest).toFinset r.selected (by simpa using hmem)
      simp only [applyResolution, adopt_cons, Choice.selection, Choice.resolve, if_pos hmem,
        hlook, Option.getD_some, ne_eq, sort_inj]
    · have hnone : ((preferred::rest).toFinset.sort (· ≤ ·)).idxOf? r.selected = none := by
        rw [List.idxOf?_eq_none_iff]
        simpa using hmem
      simp only [applyResolution, adopt_cons, Choice.selection, Choice.resolve, if_neg hmem,
        Choice.first, hnone, Option.bind_none, Option.getD_none, ne_eq, sort_inj]

theorem start_nil : start ([] : List α) = none := rfl

theorem reachable_choice (s : Selection α) (hs : Reachable s) : ∃ r : Choice α, s = r.selection := by
  refine Transducer.reachable_invariant (P := fun s => ∃ r : Choice α, s = r.selection)
    ?_ ?_ hs
  · rintro s ⟨resolved,h⟩
    cases resolved with
    | nil => simp [start_nil] at h
    | cons preferred rest =>
      rw [start_refines] at h
      exact ⟨_,(Option.some.inj h).symm⟩
  · rintro s fresh ⟨r,rfl⟩
    exact ⟨r.resolve fresh,by rw [applyResolution_refines]⟩

/-! ### What a call does to a reachable state -/

section Effect
variable (r : Choice α) (fresh : List α)

theorem resolve_members (h : fresh ≠ []) : (r.resolve fresh).members = fresh.toFinset := by
  obtain ⟨preferred,rest,rfl⟩ := List.exists_cons_of_ne_nil h
  by_cases hmem : r.selected ∈ preferred::rest <;> simp [Choice.resolve, Choice.first, hmem]

theorem resolve_present (h : r.selected ∈ fresh) :
    (r.resolve fresh).selected = next fresh.toFinset r.selected := by
  obtain ⟨preferred,rest,rfl⟩ := List.exists_cons_of_ne_nil (List.ne_nil_of_mem h)
  simp [Choice.resolve, h]

theorem resolve_vanished (hne : fresh ≠ []) (h : r.selected ∉ fresh) :
    (r.resolve fresh).selected = fresh.head hne := by
  obtain ⟨preferred,rest,rfl⟩ := List.exists_cons_of_ne_nil hne
  simp [Choice.resolve, Choice.first, h]

end Effect

@[simp] theorem selection_current (r : Choice α) : r.selection.current = r.selected := rfl

@[simp] theorem selection_addrs_toFinset (r : Choice α) :
    r.selection.addrs.toFinset = r.members := r.members.sort_toFinset (· ≤ ·)

/-- The state left by any sequence of calls is canonical, and one more call
acts on the set of answers: order and repetition reach it only through the
first answer, and only where the address in use has vanished. -/
theorem reachable_rotation (s : Selection α) (hs : Reachable s) :
    s.addrs.Pairwise (· < ·) ∧ s.addrs ≠ [] ∧ s.current ∈ s.addrs ∧
    applyResolution s [] = (s, ⟨false,false⟩) ∧
    ∀ fresh, ∀ hne : fresh ≠ [],
      let s' := (applyResolution s fresh).1
      let outcome := (applyResolution s fresh).2
      s'.addrs.Pairwise (· < ·) ∧ (∀ a, a ∈ s'.addrs ↔ a ∈ fresh) ∧
      (outcome.listChanged = true ↔ fresh.toFinset ≠ s.addrs.toFinset) ∧
      (s.current ∈ fresh → s'.current = next fresh.toFinset s.current) ∧
      (s.current ∉ fresh → s'.current = fresh.head hne) ∧
      (outcome.moved = true ↔ s'.current ≠ s.current) ∧
      (s.current ∈ fresh → ∀ fresh', fresh'.toFinset = fresh.toFinset →
        applyResolution s fresh' = applyResolution s fresh) := by
  obtain ⟨r,rfl⟩ := reachable_choice s hs
  refine ⟨r.members.sortedLT_sort.pairwise,?_,?_,rfl,?_⟩
  · exact List.ne_nil_of_mem ((r.members.mem_sort (· ≤ ·)).mpr r.selected_mem)
  · exact (r.members.mem_sort (· ≤ ·)).mpr r.selected_mem
  intro fresh hne
  have hmembers := resolve_members r fresh hne
  simp only [applyResolution_refines, selection_current, selection_addrs_toFinset]
  refine ⟨(r.resolve fresh).members.sortedLT_sort.pairwise,?_,?_,?_,?_,?_,?_⟩
  · intro a
    rw [Choice.selection, Finset.mem_sort, hmembers, List.mem_toFinset]
  · rw [decide_eq_true_iff, hmembers]
  · exact resolve_present r fresh
  · exact resolve_vanished r fresh hne
  · exact decide_eq_true_iff
  · intro hmem fresh' hset
    have hmem' : r.selected ∈ fresh' := by simpa [← hset] using List.mem_toFinset.mpr hmem
    have hselected : (r.resolve fresh').selected = (r.resolve fresh).selected := by
      rw [resolve_present r fresh hmem, resolve_present r fresh' hmem', hset]
    have hmembers' : (r.resolve fresh').members = (r.resolve fresh).members := by
      rw [hmembers, resolve_members r fresh' (List.ne_nil_of_mem hmem'), hset]
    simp only [Choice.selection, hselected, hmembers']

/-- The IPv4 endpoint `10.0.0.host:9999`. -/
def endpoint (host : BitVec 32) : SocketAddr := .v4 (0x0a000000#32+host) 9999

theorem endpoint_reachable :
    Reachable (⟨[endpoint 1,endpoint 2],endpoint 2⟩ : Selection SocketAddr) :=
  ⟨_,[],⟨[endpoint 2,endpoint 1,endpoint 2],by decide⟩,rfl⟩

theorem reachable_rotation_endpoint :
    (applyResolution ⟨[endpoint 1,endpoint 2],endpoint 2⟩
      [endpoint 3,endpoint 2,endpoint 3,endpoint 1]).1.current =
      next {endpoint 3,endpoint 2,endpoint 1} (endpoint 2) := by
  have h := (reachable_rotation _ endpoint_reachable).2.2.2.2
    [endpoint 3,endpoint 2,endpoint 3,endpoint 1] (by simp)
  rw [h.2.2.2.1 (by simp)]
  decide

end WireProbe.AddressRotation
