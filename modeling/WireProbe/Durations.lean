import Mathlib.Data.Rat.Floor
import Mathlib.Tactic.Linarith
import Mathlib.Tactic.Ring
import WireProbe.Text

/-!
# Durations on the command line

A duration is read as an unsigned number of 64 bits with the suffix `ms`, the
suffix `s` or none. Reading checks each step for overflow; as a step never
makes the number smaller, only a number that does not fit is refused.
-/

set_option autoImplicit false

namespace WireProbe.Durations
open WireProbe.Text

/-! ### Numbers -/

inductive ParseIntError where
  | empty
  | invalidDigit
  | posOverflow
  deriving DecidableEq, Repr

def checkedMul (a b : UInt64) : Option UInt64 :=
  if h : a.toNat*b.toNat < 2^64 then some (.ofNatLT _ h) else none

def checkedAdd (a b : UInt64) : Option UInt64 :=
  if h : a.toNat+b.toNat < 2^64 then some (.ofNatLT _ h) else none

def toDigit (c : Char) : Option UInt64 := if c.isDigit then some (.ofNat (c.toNat-48)) else none

/-- The loop of `u64::from_str` over the digits. -/
def accumulate : UInt64 → List Char → Except ParseIntError UInt64
  | result, [] => .ok result
  | result, c::digits =>
    match toDigit c with
    | none => .error .invalidDigit
    | some x =>
      match (checkedMul result 10).bind (checkedAdd · x) with
      | none => .error .posOverflow
      | some result => accumulate result digits

/-- `u64::from_str`. A minus sign is no digit of an unsigned number. -/
def fromStr : List Char → Except ParseIntError UInt64
  | [] => .error .empty
  | ['+'] => .error .invalidDigit
  | '+'::digits => accumulate 0 digits
  | src => accumulate 0 src

/-- An optional plus sign and at least one digit, which denote `v`. -/
def Numeral (s : List Char) (v : ℕ) : Prop :=
  ∃ digits, digits ≠ [] ∧ (∀ c ∈ digits, c.isDigit = true) ∧ (s = digits ∨ s = '+'::digits) ∧
    Nat.ofDigitChars 10 digits 0 = v

theorem checkedMul_eq_some_iff (a b c : UInt64) :
    checkedMul a b = some c ↔ a.toNat*b.toNat = c.toNat := by
  have hc := c.toNat_lt
  unfold checkedMul
  split_ifs with h
  · rw [Option.some.injEq, ← UInt64.toNat_inj, UInt64.toNat_ofNatLT]
  · simp only [false_iff]
    omega

theorem checkedAdd_eq_some_iff (a b c : UInt64) :
    checkedAdd a b = some c ↔ a.toNat+b.toNat = c.toNat := by
  have hc := c.toNat_lt
  unfold checkedAdd
  split_ifs with h
  · rw [Option.some.injEq, ← UInt64.toNat_inj, UInt64.toNat_ofNatLT]
  · simp only [false_iff]
    omega

/-- One digit is taken in without overflow where the result fits. -/
theorem appended_eq_some_iff (result x next : UInt64) :
    (checkedMul result 10).bind (checkedAdd · x) = some next ↔
      10*result.toNat+x.toNat = next.toNat := by
  have hten : (10 : UInt64).toNat = 10 := rfl
  rw [Option.bind_eq_some_iff]
  simp only [checkedMul_eq_some_iff, checkedAdd_eq_some_iff, hten]
  constructor
  · rintro ⟨product,hproduct,hsum⟩
    omega
  · intro h
    have hnext : next.toNat < UInt64.size := next.toNat_lt
    refine ⟨.ofNatLT (result.toNat*10) (by omega),?_,?_⟩
    · rw [UInt64.toNat_ofNatLT]
    · rw [UInt64.toNat_ofNatLT]
      omega

theorem toDigit_digit {c : Char} (h : c.isDigit = true) :
    ∃ x, toDigit c = some x ∧ x.toNat = c.toNat-48 := by
  have hrange : 48 ≤ c.toNat ∧ c.toNat ≤ 57 := Char.isDigit_iff_toNat.mp h
  have hsize : 9 < UInt64.size := by decide
  refine ⟨_,if_pos h,UInt64.toNat_ofNat_of_lt' ?_⟩
  omega

theorem le_ofDigitChars (digits : List Char) (n : ℕ) : n ≤ Nat.ofDigitChars 10 digits n := by
  rw [Nat.ofDigitChars_eq_ofDigitChars_zero]
  have hpow : 1 ≤ 10^digits.length := Nat.one_le_pow _ _ (by decide)
  nlinarith

theorem accumulate_eq_ok_iff (result : UInt64) (digits : List Char) (v : UInt64) :
    accumulate result digits = .ok v ↔ (∀ c ∈ digits, c.isDigit = true) ∧
      Nat.ofDigitChars 10 digits result.toNat = v.toNat := by
  induction digits generalizing result with
  | nil =>
    simp [accumulate, Nat.ofDigitChars, UInt64.toNat_inj]
  | cons c digits ih =>
    rw [List.forall_mem_cons, Nat.ofDigitChars_cons, accumulate]
    by_cases hc : c.isDigit = true
    · obtain ⟨x,hx,hvalue⟩ := toDigit_digit hc
      have happended := appended_eq_some_iff result x
      simp only [hx]
      cases hnext : (checkedMul result 10).bind (checkedAdd · x) with
      | none =>
        simp only [reduceCtorEq, false_iff, not_and]
        rintro - hdigits
        have hle := le_ofDigitChars digits (10*result.toNat+(c.toNat - '0'.toNat))
        have hzero : '0'.toNat = 48 := rfl
        have hv : v.toNat < UInt64.size := v.toNat_lt
        have hfits := (happended (.ofNatLT (10*result.toNat+x.toNat) (by omega))).mpr
          (UInt64.toNat_ofNatLT ..).symm
        rw [hnext] at hfits
        cases hfits
      | some next =>
        have hsum := (happended next).mp hnext
        have hzero : '0'.toNat = 48 := rfl
        simp only [ih, hc, true_and]
        rw [hzero, ← hvalue, hsum]
    · simp [toDigit, hc]

theorem fromStr_plus {digits : List Char} (h : digits ≠ []) :
    fromStr ('+'::digits) = accumulate 0 digits := by
  obtain ⟨c,rest,rfl⟩ := List.exists_cons_of_ne_nil h
  rfl

theorem fromStr_cons {c : Char} (hc : c ≠ '+') (rest : List Char) :
    fromStr (c::rest) = accumulate 0 (c::rest) := by
  unfold fromStr
  split
  · rename_i h
    cases h
  · rename_i h
    exact absurd (List.cons.inj h).1 hc
  · rename_i h
    exact absurd (List.cons.inj h).1 hc
  · rfl

/-- Reading succeeds on the numerals of the numbers that fit. -/
theorem fromStr_eq_ok_iff (s : List Char) (v : UInt64) : fromStr s = .ok v ↔ Numeral s v.toNat := by
  have hzero : (0 : UInt64).toNat = 0 := rfl
  constructor
  · intro h
    cases s with
    | nil => cases h
    | cons c rest =>
      by_cases hc : c = '+'
      · subst hc
        by_cases hrest : rest = []
        · subst hrest
          cases h
        · rw [fromStr_plus hrest, accumulate_eq_ok_iff, hzero] at h
          exact ⟨rest,hrest,h.1,.inr rfl,h.2⟩
      · rw [fromStr_cons hc, accumulate_eq_ok_iff, hzero] at h
        exact ⟨c::rest,List.cons_ne_nil _ _,h.1,.inl rfl,h.2⟩
  · rintro ⟨digits,hne,hdigits,hs,hvalue⟩
    have haccumulate : accumulate 0 digits = .ok v := by
      rw [accumulate_eq_ok_iff, hzero]
      exact ⟨hdigits,hvalue⟩
    rcases hs with rfl | rfl
    · obtain ⟨c,rest,rfl⟩ := List.exists_cons_of_ne_nil hne
      have hc : c ≠ '+' := by
        rintro rfl
        exact absurd (hdigits '+' (by simp)) (by decide)
      rw [fromStr_cons hc, haccumulate]
    · rw [fromStr_plus hne, haccumulate]

/-! ### Durations -/

/-- `std::time::Duration`. -/
@[ext]
structure Duration where
  secs : UInt64
  nanos : ℕ
  nanos_lt : nanos < 1000000000
  deriving DecidableEq

namespace Duration

def fromMillis (millis : UInt64) : Duration where
  secs := millis/1000
  nanos := (millis%1000).toNat*1000000
  nanos_lt := by
    have hmod : (millis%1000).toNat = millis.toNat%1000 := UInt64.toNat_mod ..
    omega

def fromSecs (secs : UInt64) : Duration := ⟨secs,0,by decide⟩

def asMillis (d : Duration) : ℕ := d.secs.toNat*1000+d.nanos/1000000

def isZero (d : Duration) : Bool := d.secs = 0 ∧ d.nanos = 0

/-- The derived order, by seconds and then by nanoseconds. -/
def exceeds (d d' : Duration) : Bool := d'.secs < d.secs ∨ d'.secs = d.secs ∧ d'.nanos < d.nanos

/-- The length in nanoseconds. -/
def asNanos (d : Duration) : ℕ := d.secs.toNat*1000000000+d.nanos

def asSecsF64 (d : Duration) : ℚ := d.secs.toNat+d.nanos/1000000000

/-- A duration is its nanoseconds. -/
theorem asNanos_injective : Function.Injective asNanos := by
  intro d d' h
  have hlt := d.nanos_lt
  have hlt' := d'.nanos_lt
  unfold asNanos at h
  apply Duration.ext
  · rw [← UInt64.toNat_inj]
    omega
  · omega

@[simp] theorem asNanos_fromMillis (millis : UInt64) :
    (fromMillis millis).asNanos = millis.toNat*1000000 := by
  have hdiv : (millis/1000).toNat = millis.toNat/1000 := UInt64.toNat_div ..
  have hmod : (millis%1000).toNat = millis.toNat%1000 := UInt64.toNat_mod ..
  simp only [asNanos, fromMillis, hdiv, hmod]
  omega

@[simp] theorem asNanos_fromSecs (secs : UInt64) :
    (fromSecs secs).asNanos = secs.toNat*1000000000 := by
  simp only [asNanos, fromSecs, Nat.add_zero]

theorem asMillis_eq (d : Duration) : d.asMillis = d.asNanos/1000000 := by
  unfold asMillis asNanos
  omega

theorem asSecsF64_eq (d : Duration) : d.asSecsF64 = d.asNanos/1000000000 := by
  unfold asSecsF64 asNanos
  push_cast
  ring

theorem isZero_iff (d : Duration) : d.isZero = true ↔ d.asNanos = 0 := by
  have hsecs : d.secs = 0 ↔ d.secs.toNat = 0 := UInt64.toNat_inj.symm
  unfold isZero asNanos
  rw [decide_eq_true_eq, hsecs]
  omega

end Duration

/-! ### Reading a duration -/

def parseDuration (s : List Char) : Except ParseIntError Duration :=
  match s.dropSuffix? "ms".toList with
  | some ms => (fromStr ms).map Duration.fromMillis
  | none =>
    match s.dropSuffix? ['s'] with
    | some sec => (fromStr sec).map Duration.fromSecs
    | none => (fromStr s).map Duration.fromMillis

/-- A numeral of a number that fits, with the suffix of its unit; without a
suffix it counts milliseconds. -/
def Denotes (s : List Char) (nanos : ℕ) : Prop :=
  ∃ numeral v, Numeral numeral v ∧ v < 2^64 ∧
    (s = numeral++"ms".toList ∧ nanos = v*1000000 ∨ s = numeral++['s'] ∧ nanos = v*1000000000 ∨
      s = numeral ∧ nanos = v*1000000)

theorem Numeral.not_mem {s : List Char} {v : ℕ} (h : Numeral s v) {c : Char}
    (hdigit : c.isDigit = false) (hplus : c ≠ '+') : c ∉ s := by
  obtain ⟨digits,-,hdigits,hs,-⟩ := h
  have hnot : c ∉ digits := by
    intro hmem
    rw [hdigits c hmem] at hdigit
    cases hdigit
  rcases hs with rfl | rfl
  · exact hnot
  · exact List.not_mem_cons_of_ne_of_not_mem hplus hnot

theorem dropSuffix_eq_some_iff {s suffix rest : List Char} :
    s.dropSuffix? suffix = some rest ↔ s = rest++suffix := by
  simp [List.dropSuffix?_eq_some_iff]

theorem dropSuffix_eq_none {s suffix : List Char} {c : Char} (hc : c ∈ suffix) (h : c ∉ s) :
    s.dropSuffix? suffix = none := by
  rw [Option.eq_none_iff_forall_ne_some]
  intro rest hrest
  rw [dropSuffix_eq_some_iff] at hrest
  exact h (hrest ▸ List.mem_append_right _ hc)

section Suffixes
variable {numeral : List Char} {v : ℕ}

theorem parseDuration_millis (numeral : List Char) :
    parseDuration (numeral++"ms".toList) = (fromStr numeral).map Duration.fromMillis := by
  rw [parseDuration, dropSuffix_eq_some_iff.mpr rfl]

/-- No numeral ends in an `m`, so seconds are not taken for milliseconds. -/
theorem parseDuration_secs (h : Numeral numeral v) :
    parseDuration (numeral++['s']) = (fromStr numeral).map Duration.fromSecs := by
  have hms : (numeral++['s']).dropSuffix? "ms".toList = none := by
    apply dropSuffix_eq_none (c := 'm') (by decide)
    rw [List.mem_append, not_or]
    exact ⟨h.not_mem (by decide) (by decide),by decide⟩
  rw [parseDuration, hms, dropSuffix_eq_some_iff.mpr rfl]

theorem parseDuration_bare (h : Numeral numeral v) :
    parseDuration numeral = (fromStr numeral).map Duration.fromMillis := by
  have hs : 's' ∉ numeral := h.not_mem (by decide) (by decide)
  rw [parseDuration, dropSuffix_eq_none (by decide) hs, dropSuffix_eq_none (by decide) hs]

end Suffixes

theorem fromStr_of_numeral {s : List Char} {v : ℕ} (h : Numeral s v) (hv : v < 2^64) :
    ∃ n, fromStr s = .ok n ∧ n.toNat = v := by
  refine ⟨.ofNatLT v hv,(fromStr_eq_ok_iff s _).mpr ?_,UInt64.toNat_ofNatLT ..⟩
  rw [UInt64.toNat_ofNatLT]
  exact h

theorem map_eq_ok {ε α β : Type} {r : Except ε α} {f : α → β} {b : β} (h : r.map f = .ok b) :
    ∃ a, r = .ok a ∧ f a = b := by
  cases r with
  | error e => cases h
  | ok a =>
    cases h
    exact ⟨a,rfl,rfl⟩

/-- A duration is read, to the nanosecond, exactly from the texts that denote one. -/
theorem parseDuration_iff (s : List Char) (nanos : ℕ) :
    (parseDuration s).map Duration.asNanos = .ok nanos ↔ Denotes s nanos := by
  constructor
  · intro h
    obtain ⟨d,hd,rfl⟩ := map_eq_ok h
    unfold parseDuration at hd
    split at hd
    next ms hms =>
      obtain ⟨n,hn,rfl⟩ := map_eq_ok hd
      exact ⟨ms,n.toNat,(fromStr_eq_ok_iff ms n).mp hn,n.toNat_lt,
        .inl ⟨dropSuffix_eq_some_iff.mp hms,Duration.asNanos_fromMillis n⟩⟩
    next =>
      split at hd
      next sec hsec =>
        obtain ⟨n,hn,rfl⟩ := map_eq_ok hd
        exact ⟨sec,n.toNat,(fromStr_eq_ok_iff sec n).mp hn,n.toNat_lt,
          .inr (.inl ⟨dropSuffix_eq_some_iff.mp hsec,Duration.asNanos_fromSecs n⟩)⟩
      next =>
        obtain ⟨n,hn,rfl⟩ := map_eq_ok hd
        exact ⟨s,n.toNat,(fromStr_eq_ok_iff s n).mp hn,n.toNat_lt,
          .inr (.inr ⟨rfl,Duration.asNanos_fromMillis n⟩)⟩
  · rintro ⟨numeral,v,hnumeral,hv,hsuffix⟩
    obtain ⟨n,hn,rfl⟩ := fromStr_of_numeral hnumeral hv
    rcases hsuffix with ⟨rfl,rfl⟩ | ⟨rfl,rfl⟩ | ⟨rfl,rfl⟩
    · rw [parseDuration_millis, hn, ← Duration.asNanos_fromMillis]
      rfl
    · rw [parseDuration_secs hnumeral, hn, ← Duration.asNanos_fromSecs]
      rfl
    · rw [parseDuration_bare hnumeral, hn, ← Duration.asNanos_fromMillis]
      rfl

example : (parseDuration "500ms".toList).map Duration.asNanos = .ok 500000000 := by decide

theorem Denotes.dvd {s : List Char} {nanos : ℕ} (h : Denotes s nanos) : 1000000 ∣ nanos := by
  obtain ⟨numeral,v,-,-,⟨-,rfl⟩ | ⟨-,rfl⟩ | ⟨-,rfl⟩⟩ := h
  · exact Nat.dvd_mul_left _ _
  · exact Dvd.dvd.mul_left (by decide) _
  · exact Nat.dvd_mul_left _ _

theorem denotes_of_read {s : List Char} {d : Duration} (h : parseDuration s = .ok d) :
    Denotes s d.asNanos :=
  (parseDuration_iff s d.asNanos).mp (by rw [h]; rfl)

theorem read_of_denotes {s : List Char} {nanos : ℕ} (h : Denotes s nanos) :
    ∃ d, parseDuration s = .ok d ∧ d.asNanos = nanos :=
  map_eq_ok ((parseDuration_iff s nanos).mpr h)

/-! ### Announcing an interval -/

/-- `f64::round`: halves away from zero. -/
def roundHalfAway (q : ℚ) : ℤ := if 0 ≤ q then ⌊q+1/2⌋ else ⌈q-1/2⌉

/-- `as u32`, which truncates and saturates. -/
def asU32 (q : ℚ) : UInt32 :=
  if q ≤ 0 then 0 else if 4294967295 ≤ q then 4294967295 else .ofNat ⌊q⌋.toNat

/-- The whole seconds of an interval, before the cast. -/
def roundedSecs (interval : Duration) : ℚ := max (roundHalfAway interval.asSecsF64) 1

def intervalSecs (interval : Duration) : UInt32 := asU32 (roundedSecs interval)

theorem asU32_natCast {n : ℕ} (h : n < 4294967295) : (asU32 n).toNat = n := by
  have hhigh : ¬ (4294967295 : ℚ) ≤ n := by
    rw [not_le]
    exact_mod_cast h
  unfold asU32
  split_ifs with hzero
  · have hn : n = 0 := by exact_mod_cast hzero.antisymm (Nat.cast_nonneg n)
    rw [hn]
    rfl
  · rw [← Int.cast_natCast, Int.floor_intCast, Int.toNat_natCast]
    exact UInt32.toNat_ofNat_of_lt' (Nat.lt_trans h (by decide))

theorem roundHalfAway_asSecsF64 (interval : Duration) :
    roundHalfAway interval.asSecsF64 = ((interval.asMillis+500)/1000 : ℕ) := by
  have hsum : interval.asSecsF64+1/2 = ((interval.asNanos+500000000 : ℕ) : ℚ)/(1000000000 : ℕ) := by
    simp only [interval.asSecsF64_eq]
    push_cast
    ring
  have hnonneg : 0 ≤ interval.asSecsF64 := by
    simp only [interval.asSecsF64_eq]
    exact div_nonneg (Nat.cast_nonneg _) (by norm_num)
  rw [roundHalfAway, if_pos hnonneg, hsum, Rat.floor_natCast_div_natCast, interval.asMillis_eq]
  norm_cast
  omega

theorem roundedSecs_eq (interval : Duration) :
    roundedSecs interval = (max 1 ((interval.asMillis+500)/1000) : ℕ) := by
  rw [roundedSecs, roundHalfAway_asSecsF64, max_comm]
  push_cast
  rfl

/-- The announced interval is rounded to the nearest second, and at least one;
the cast leaves it as it is. -/
theorem intervalSecs_eq {interval : Duration} (h : interval.asMillis ≤ 86400000) :
    (intervalSecs interval).toNat = max 1 ((interval.asMillis+500)/1000) := by
  rw [intervalSecs, roundedSecs_eq]
  apply asU32_natCast
  omega

end WireProbe.Durations
