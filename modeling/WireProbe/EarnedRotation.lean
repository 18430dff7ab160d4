import WireProbe.PluginRotation

/-!
# Rotations earned by the address they abandon

The failure count under a key is the number of failed cycles since the last
success or rotation. It describes the selected address only as long as that
address keeps being answered: one that vanishes leaves its count to the
address that replaces it.
-/

set_option autoImplicit false

namespace WireProbe.EarnedRotation
open WireProbe.CyclicOrder WireProbe.Transducer WireProbe.PluginRotation

variable {Key A : Type*} [DecidableEq Key] [LinearOrder A]

/-- Recording the outcome of `c` moves the selection away from the address that
was selected for `c`. -/
def Moves (key : Key) (st : AddrState Key A) (c : List A × Bool) : Prop :=
  (entry (cycle key st c).1 key).selected ≠ (cycle key st c).2.1

/-- The stored address is missing from the answer. -/
def Vanished (key : Key) (st : AddrState Key A) (answer : List A) : Prop :=
  ∃ a ∈ (entry st key).selected, a ∉ answer

/-- The failure completes a count of five, over an answer that lists the address
due once, among others. -/
def Completes (key : Key) (st : AddrState Key A) (c : List A × Bool) : Prop :=
  c.2 = false ∧ rotateAfterFailures ≤ (entry st key).failures+1 ∧ 2 ≤ c.1.length ∧
    ∃ a ∈ due st key c.1, c.1.count a = 1

instance (key : Key) (st : AddrState Key A) (c : List A × Bool) : Decidable (Moves key st c) :=
  inferInstanceAs (Decidable (_ ≠ _))

instance (key : Key) (st : AddrState Key A) (answer : List A) :
    Decidable (Vanished key st answer) :=
  inferInstanceAs (Decidable (∃ a ∈ (entry st key).selected, a ∉ answer))

instance (key : Key) (st : AddrState Key A) (c : List A × Bool) :
    Decidable (Completes key st c) :=
  inferInstanceAs (Decidable (_ ∧ _ ∧ _ ∧ _))

/-- An address listed once among others is not its own successor. -/
theorem successor_ne {addrs : List A} {a : A} (hlen : 2 ≤ addrs.length)
    (hcount : addrs.count a = 1) : next addrs.toFinset a ≠ a := by
  have hmem : a ∈ addrs := List.count_pos_iff.mp (by omega)
  apply next_ne (List.mem_toFinset.mpr hmem)
  by_contra hcard
  have hone : addrs.toFinset.card ≤ 1 := by omega
  have hall : ∀ b ∈ addrs, a = b := fun b hb =>
    Finset.card_le_one.mp hone a (List.mem_toFinset.mpr hmem) b (List.mem_toFinset.mpr hb)
  have hlength := List.count_eq_length.mpr hall
  omega

theorem moves_iff (key : Key) (st : AddrState Key A) (c : List A × Bool) (hc : c.1 ≠ []) :
    Moves key st c ↔ Completes key st c := by
  obtain ⟨addrs,ok⟩ := c
  obtain ⟨first,rest,rfl⟩ := List.exists_cons_of_ne_nil hc
  have hlen : 2 ≤ (first::rest).length ↔ rest ≠ [] := by cases rest <;> simp
  rw [Moves, cycle_entry, cycle_probed]
  simp only [Completes, due_cons, Option.mem_some_iff, exists_eq_left']
  cases ok with
  | true => simp
  | false =>
    simp only [Bool.false_eq_true, if_false, true_and]
    split_ifs with h1 h2
    · simp only [ne_eq, not_true_eq_false, hlen, false_iff]
      rintro ⟨hfive,hrest,-⟩
      rcases h1 with h1 | h1
      · omega
      · exact hrest h1
    · rw [not_or, not_lt, ← ne_eq, ← hlen] at h1
      rw [ne_eq, Option.some.injEq]
      exact iff_of_true (successor_ne h1.2 h2) ⟨h1.1,h1.2,h2⟩
    · simp [h2]

/-- A count left behind by a cycle: it failed, its address stays selected, and
the count was one less before. -/
theorem cycle_count (key : Key) (st : AddrState Key A) (c : List A × Bool) (hc : c.1 ≠ [])
    {n : ℕ} (h : (entry (cycle key st c).1 key).failures = n+1) :
    c.2 = false ∧ (entry st key).failures = n ∧
      (entry (cycle key st c).1 key).selected = (cycle key st c).2.1 := by
  obtain ⟨addrs,ok⟩ := c
  obtain ⟨first,rest,rfl⟩ := List.exists_cons_of_ne_nil hc
  rw [cycle_entry] at h ⊢
  cases ok with
  | true => simp at h
  | false =>
    simp only [Bool.false_eq_true, if_false] at h ⊢
    split_ifs at h ⊢
    · exact ⟨trivial,by simpa using h,rfl⟩

/-- A stored address is probed again unless it vanished. -/
theorem probed_again_iff (key : Key) (st : AddrState Key A) (c : List A × Bool) (hc : c.1 ≠ [])
    {a : A} (ha : (entry st key).selected = some a) :
    (cycle key st c).2.1 = some a ↔ ¬Vanished key st c.1 := by
  obtain ⟨addrs,ok⟩ := c
  obtain ⟨first,rest,rfl⟩ := List.exists_cons_of_ne_nil hc
  have hvanished : Vanished key st (first::rest) ↔ a ∉ first::rest := by
    simp [Vanished, ha]
  rw [cycle_probed, Option.some.injEq, hvanished, not_not]
  constructor
  · intro h
    rw [← h]
    exact chosen_mem st key first rest
  · exact chosen_present st key first rest a ha

theorem cycle_probes (key : Key) (st : AddrState Key A) (c : List A × Bool) (hc : c.1 ≠ []) :
    ∃ a, (cycle key st c).2.1 = some a := by
  obtain ⟨addrs,ok⟩ := c
  obtain ⟨first,rest,rfl⟩ := List.exists_cons_of_ne_nil hc
  exact ⟨_,rfl⟩

section Runs
variable (key : Key) (st : AddrState Key A) (cs : List (List A × Bool))

/-- The dictionary before cycle `i`. -/
def before (i : ℕ) : AddrState Key A := final (cycle key) st (cs.take i)

theorem before_succ (i : ℕ) (hi : i < cs.length) :
    before key st cs (i+1) = (cycle key (before key st cs i) cs[i]).1 :=
  final_take_succ _ st cs i hi

/-- The address probed in cycle `i` and whether it answered. -/
def probe (i : ℕ) (hi : i < cs.length) : Option A × Bool :=
  (cycle key (before key st cs i) cs[i]).2

/-- Where cycle `i` moves the selection, its address was probed in each of the
last five cycles and they all failed. -/
def Earned : Prop :=
  ∀ i, ∀ hi : i < cs.length, Moves key (before key st cs i) cs[i] →
    rotateAfterFailures ≤ i+1 ∧ ∀ j, ∀ hj : j < cs.length, j ≤ i → i < j+rotateAfterFailures →
      probe key st cs j hj = ((probe key st cs i hi).1,false)

/-- Where cycle `i` completes a count, neither it nor the three cycles before
it found the stored address gone. -/
def Undisturbed : Prop :=
  ∀ i, ∀ hi : i < cs.length, Completes key (before key st cs i) cs[i] →
    ∀ j, ∀ hj : j < cs.length, j ≤ i → i+1 < j+rotateAfterFailures →
      ¬Vanished key (before key st cs j) cs[j].1

instance : Decidable (Earned key st cs) := inferInstanceAs (Decidable (∀ i, ∀ _ : i < _, _))

instance : Decidable (Undisturbed key st cs) :=
  inferInstanceAs (Decidable (∀ i, ∀ _ : i < _, _))

variable {key st cs}

/-- Behind a count stands the cycle before: it failed, the count was one less
before it, and the stored address is the one it probed. -/
theorem previous_cycle (hne : ∀ c ∈ cs, c.1 ≠ []) {k i : ℕ} (hi : i < cs.length)
    (hk : k+1 ≤ (entry (before key st cs (i+1)) key).failures) :
    cs[i].2 = false ∧ k ≤ (entry (before key st cs i) key).failures ∧
      ∃ b, (probe key st cs i hi).1 = some b ∧
        (entry (before key st cs (i+1)) key).selected = some b := by
  have hc := hne _ (List.getElem_mem hi)
  obtain ⟨n,hn⟩ := Nat.exists_eq_add_of_le hk
  rw [before_succ key st cs i hi] at hn ⊢
  obtain ⟨hfailed,hcount,hselected⟩ :=
    cycle_count key (before key st cs i) cs[i] hc (hn.trans (Nat.add_right_comm k 1 n))
  obtain ⟨b,hb⟩ := cycle_probes key (before key st cs i) cs[i] hc
  exact ⟨hfailed,by omega,b,hb,hselected.trans hb⟩

/-- Behind a count of `k` stand `k` failed cycles, and they probed one address
where no address vanished between them. -/
theorem count_describes (hne : ∀ c ∈ cs, c.1 ≠ []) (hst : st key = none) (k i : ℕ)
    (hi : i < cs.length) (hfailed : cs[i].2 = false)
    (hk : k ≤ (entry (before key st cs i) key).failures) :
    k+1 ≤ i+1 ∧ ((∀ j, ∀ hj : j < cs.length, j ≤ i → i < j+(k+1) →
        probe key st cs j hj = ((probe key st cs i hi).1,false)) ↔
      ∀ j, ∀ hj : j < cs.length, j ≤ i → i+1 < j+(k+1) →
        ¬Vanished key (before key st cs j) cs[j].1) := by
  induction k generalizing i with
  | zero =>
    refine ⟨by omega,?_,?_⟩
    · intro _ j _ hji hij
      omega
    · intro _ j hj hji hij
      obtain rfl : j = i := by omega
      exact Prod.ext rfl hfailed
  | succ k ih =>
    cases i with
    | zero => simp [before, entry, hst] at hk
    | succ i =>
      have hprev : i < cs.length := by omega
      obtain ⟨hfailed',hcount,b,hb,hselected⟩ := previous_cycle hne hprev hk
      obtain ⟨hki,hiff⟩ := ih i hprev hfailed' hcount
      have hagain := probed_again_iff key _ cs[i+1] (hne _ (List.getElem_mem hi)) hselected
      refine ⟨by omega,?_⟩
      by_cases hvanished : Vanished key (before key st cs (i+1)) cs[i+1].1
      · apply iff_of_false
        · intro hsame
          have hlast := congrArg Prod.fst (hsame i hprev (by omega) (by omega))
          exact hagain.mp (hlast.symm.trans hb) hvanished
        · intro hnone
          exact hnone (i+1) hi le_rfl (by omega) hvanished
      · have hsame : (probe key st cs (i+1) hi).1 = (probe key st cs i hprev).1 :=
          (hagain.mpr hvanished).trans hb.symm
        rw [hsame]
        constructor
        · intro hprobes j hj hji hij
          by_cases hlast : j = i+1
          · subst hlast
            exact hvanished
          · exact hiff.mp (fun m hm hmi him => hprobes m hm (by omega) (by omega)) j hj (by omega)
              (by omega)
        · intro hnone j hj hji hij
          by_cases hlast : j = i+1
          · subst hlast
            exact Prod.ext hsame hfailed
          · exact hiff.mpr (fun m hm hmi him => hnone m hm (by omega) (by omega)) j hj (by omega)
              (by omega)

/-- In a run from an empty dictionary every move away from an address is earned
by five failures of that address exactly where no address vanishes inside the
count that is completed. -/
theorem rotation_earned_iff (key : Key) (st : AddrState Key A) (hst : st key = none)
    (cs : List (List A × Bool)) (hne : ∀ c ∈ cs, c.1 ≠ []) :
    Earned key st cs ↔ Undisturbed key st cs := by
  apply forall₂_congr
  intro i hi
  rw [moves_iff key _ _ (hne _ (List.getElem_mem hi))]
  apply imp_congr_right
  rintro ⟨hfailed,hfive,-⟩
  obtain ⟨hlen,hiff⟩ := count_describes hne hst 4 i hi hfailed (Nat.le_of_succ_le_succ hfive)
  exact (and_iff_right hlen).trans hiff

end Runs

section Witness
open GetAddrInfo

/-- One success, then five failures of one address under answers that change around it. -/
def steady : List (List AddrInfo × Bool) :=
  ([answer2,answer1],true)::List.replicate 4 ([answer1,answer2],false)++
    [([answer3,answer2,answer1],false)]

/-- The first address fails four times, vanishes, and the next one fails once. -/
def inherited : List (List AddrInfo × Bool) :=
  List.replicate 4 ([answer1,answer2],false)++[([answer2,answer3],false)]

theorem rotation_earned_steady : Earned target fresh steady :=
  (rotation_earned_iff target fresh rfl steady (by decide)).mpr (by decide)

theorem inherited_count_rotates :
    ¬ ∀ cs : List (List AddrInfo × Bool), (∀ c ∈ cs, c.1 ≠ []) → Earned target fresh cs := by
  intro h
  exact absurd (h inherited (by decide)) (by decide)

end Witness

end WireProbe.EarnedRotation
