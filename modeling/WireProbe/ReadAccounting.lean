import Mathlib.Analysis.Real.Sqrt
import Mathlib.Data.List.ReduceOption
import WireProbe.ReadTrace

/-!
# The values a pass dispatches

For every host a pass finishes, the three dispatched values are functions of
the resolver's answer and of the results of the handshakes of that visit. The
values hold wherever the deadline falls, since a visit counts the handshakes it
attempted and not those it was configured to make.
-/

set_option autoImplicit false

namespace WireProbe.ReadAccounting
open WireProbe.PluginConfig WireProbe.GetAddrInfo WireProbe.PluginRead WireProbe.ReadTrace
open WireProbe.Effect WireProbe.Statistics

variable {σ : Type}

/-- The real number that is dispatched, if it is one. -/
noncomputable def real : Reading → Option ℝ
  | .nan => none
  | .num q => some q
  | .sqrt q => some (Real.sqrt q)

/-- The drop rate of `a` attempted and `s` successful handshakes. -/
structure Loss (resolved : Bool) (a s : ℕ) (dropped : Reading) : Prop where
  unresolved : resolved = false → dropped = .num 1
  idle : resolved = true → a = 0 → dropped = .nan
  rate : resolved = true → a ≠ 0 → ∃ q : ℚ, dropped = .num q ∧ q = (a-s)/a ∧ 0 ≤ q ∧ q ≤ 1

/-- The reported time and the population deviation of the samples. -/
structure Summary (aggregate : Aggregate) (samples : List ℚ) (ping stddev : Reading) : Prop where
  ping_nan : ping = .nan ↔ samples = []
  ping_avg : samples ≠ [] → aggregate = .avg → ping = .num (mean samples)
  ping_min : samples ≠ [] → aggregate = .min → ∃ q, ping = .num q ∧ IsLeast {x | x ∈ samples} q
  ping_between : samples ≠ [] → ∃ q lo hi, ping = .num q ∧ IsLeast {x | x ∈ samples} lo ∧
    IsGreatest {x | x ∈ samples} hi ∧ lo ≤ q ∧ q ≤ hi
  stddev_nan : stddev = .nan ↔ samples.length ≤ 1
  stddev_real : 1 < samples.length →
    ∃ d, real stddev = some d ∧ 0 ≤ d ∧ d^2 = variance samples

/-- What the values of one host say about its handshakes, of which those that
are not `none` took that many milliseconds. -/
structure Measured (aggregate : Aggregate) (pingCount : ℕ) (resolved : Bool)
    (outcomes : List (Option ℚ)) (ping dropped stddev : Reading) : Prop where
  attempts : outcomes.length ≤ pingCount
  samples : outcomes.reduceOption.length ≤ outcomes.length
  loss : Loss resolved outcomes.length outcomes.reduceOption.length dropped
  summary : Summary aggregate outcomes.reduceOption ping stddev

theorem rate_window {a s : ℕ} (ha : a ≠ 0) (hs : s ≤ a) :
    (0 : ℚ) ≤ (a-s)/a ∧ ((a-s)/a : ℚ) ≤ 1 := by
  have hpos : (0 : ℚ) < a := Nat.cast_pos.mpr (Nat.pos_of_ne_zero ha)
  have hle : (s : ℚ) ≤ a := Nat.cast_le.mpr hs
  have hnonneg : (0 : ℚ) ≤ s := Nat.cast_nonneg s
  constructor
  · exact div_nonneg (sub_nonneg.mpr hle) hpos.le
  · rw [div_le_one hpos]
    exact sub_le_self _ hnonneg

/-- The mean or the minimum, as configured. -/
def reported (aggregate : Aggregate) (first : ℚ) (rest : List ℚ) : ℚ :=
  match aggregate with
  | .min => rest.foldl min first
  | .avg => mean (first::rest)

theorem reported_between (aggregate : Aggregate) (first : ℚ) (rest : List ℚ) :
    rest.foldl min first ≤ reported aggregate first rest ∧
      reported aggregate first rest ≤ rest.foldl max first := by
  have hmin := foldl_min_isLeast first rest
  have hmax := foldl_max_isGreatest first rest
  cases aggregate with
  | avg =>
    exact ⟨le_mean (by simp) (fun x hx => hmin.2 hx),mean_le (by simp) (fun x hx => hmax.2 hx)⟩
  | min => exact ⟨le_rfl,hmax.2 hmin.1⟩

theorem real_sqrt_variance (samples : List ℚ) :
    ∃ d, real (.sqrt (variance samples)) = some d ∧ 0 ≤ d ∧ d^2 = variance samples :=
  ⟨_,rfl,Real.sqrt_nonneg _,Real.sq_sqrt (Rat.cast_nonneg.mpr (variance_nonneg samples))⟩

theorem loss_of_droprate {addrInfo : Option AddrInfo} {attempts : ℕ} {samples : List ℚ}
    {dropped : Reading} (hle : samples.length ≤ attempts)
    (h : droprate addrInfo attempts samples = .ok dropped) :
    Loss addrInfo.isSome attempts samples.length dropped := by
  rw [droprate_eq, Except.ok.injEq] at h
  constructor
  · intro hnone
    rw [← h, if_pos (Option.isSome_eq_false_iff.mp hnone |> Option.isNone_iff_eq_none.mp)]
  · intro hsome hidle
    rw [← h, if_neg (Option.isSome_iff_ne_none.mp hsome), if_pos hidle]
  · intro hsome hbusy
    rw [if_neg (Option.isSome_iff_ne_none.mp hsome), if_neg hbusy] at h
    exact ⟨_,h.symm,rfl,rate_window hbusy hle⟩

theorem summary_of_statistics {aggregate : Aggregate} {samples : List ℚ} {ping stddev : Reading}
    (h : statistics aggregate samples = .ok (ping,stddev)) :
    Summary aggregate samples ping stddev := by
  rw [statistics_eq, Except.ok.injEq] at h
  cases samples with
  | nil =>
    obtain ⟨rfl,rfl⟩ := Prod.mk.inj h
    constructor <;> simp
  | cons first rest =>
    obtain ⟨hping,hstddev⟩ := Prod.mk.inj h
    replace hping : .num (reported aggregate first rest) = ping := hping
    have hbetween := reported_between aggregate first rest
    constructor
    · simp [← hping]
    · rintro - rfl
      exact hping.symm
    · rintro - rfl
      exact ⟨_,hping.symm,foldl_min_isLeast first rest⟩
    · intro _
      exact ⟨_,_,_,hping.symm,foldl_min_isLeast first rest,foldl_max_isGreatest first rest,hbetween⟩
    · rw [← hstddev]
      split_ifs with hlen
      · exact iff_of_false (by simp) (not_le.mpr hlen)
      · exact iff_of_true rfl (not_lt.mp hlen)
    · intro hlen
      rw [← hstddev, if_pos hlen]
      exact real_sqrt_variance (first::rest)

/-- The log of one visit and what it dispatched under the label of the host. -/
def Accounted (cfg : Config) (host : HostEntry) (visit : List (Event σ)) : Prop :=
  ∃ (answer : Option (List AddrInfo)) (outcomes : List (Option ℚ)) (ping dropped stddev : Reading),
    resolutions visit = [(stateKey cfg.defaultPort host,.ok answer)] ∧
    (handshakes visit).map Prod.snd = outcomes.map .ok ∧
    dispatched visit = [(labelOf cfg.defaultPort host,.ping,ping),
      (labelOf cfg.defaultPort host,.pingDroprate,dropped),
      (labelOf cfg.defaultPort host,.pingStddev,stddev)] ∧
    Measured cfg.aggregate cfg.pingCount.toNat answer.isSome outcomes ping dropped stddev

theorem accounted_of_visited {cfg : Config} {host : HostEntry} {visit : List (Event σ)}
    (h : Visited cfg host (.ok ()) visit) : Accounted cfg host visit := by
  obtain ⟨answer,addrInfo,outcomes,ping,dropped,stddev,hresolutions,hsome,hhandshakes,hlen,-,
    hdropped,hstatistics,hdispatched⟩ := (h.finished rfl).2
  have hsamples := List.reduceOption_length_le outcomes
  exact ⟨answer,outcomes,ping,dropped,stddev,hresolutions,hhandshakes,hdispatched,hlen,hsamples,
    hsome ▸ loss_of_droprate hsamples hdropped,summary_of_statistics hstatistics⟩

/-- Whatever the clock, the resolver and the sockets do, a pass dispatches the
three values of each host of a prefix of the configured ones, in order. -/
theorem read_accounting (env : Env σ) (cfg : Config) (w : World σ) :
    ∃ (hosts : List HostEntry) (visits : List (List (Event σ))) (tail : List (Event σ)),
      hosts <+: cfg.hosts ∧
      (readCb env cfg w).2.log = w.log++(visits.flatten++tail) ∧
      List.Forall₂ (Accounted cfg) hosts visits ∧
      dispatched tail = [] ∧
      (readCb env cfg w).1 ≠ .error .zeroDivision ∧ (readCb env cfg w).1 ≠ .error .mathDomain := by
  obtain ⟨es,hlog,hplain,finished,rest,visits,tail,hhosts,rfl,hvisits,htail⟩ := wp_readCb env cfg w
  refine ⟨finished,visits,tail,⟨rest,hhosts.symm⟩,hlog,
    hvisits.imp (fun _ _ h => accounted_of_visited h),?_,?_,?_⟩
  · rcases htail with hnoise | ⟨host,rest',e,-,hvisit⟩
    · exact hnoise.2.2.2
    · exact (hvisit.raised e rfl).2
  · intro h
    rw [h] at hplain
    obtain ⟨x,hx⟩ := hplain
    cases hx
  · intro h
    rw [h] at hplain
    obtain ⟨x,hx⟩ := hplain
    cases hx

end WireProbe.ReadAccounting
