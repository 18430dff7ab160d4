import Mathlib.Data.Finset.Max
import Mathlib.Data.Finset.Sort
import Mathlib.Data.List.Rotate
import Mathlib.Tactic.Linarith

/-!
# The cyclic successor in a finite set of a linear order

The least larger element of the set, or its minimum where nothing is larger.
Walking it visits a finite set once per lap. Towards a fixed member the walk
makes progress even where the set changes at every step: the number of
elements of an enclosing universe still ahead strictly decreases.
-/

set_option autoImplicit false

namespace WireProbe.CyclicOrder

variable {α : Type*} [LinearOrder α]

def above (S : Finset α) (c : α) : Finset α := S.filter (c < ·)

@[simp] theorem mem_above {S : Finset α} {c x : α} : x ∈ above S c ↔ x ∈ S ∧ c < x := by
  simp [above]

def next (S : Finset α) (c : α) : α :=
  if h : (above S c).Nonempty then (above S c).min' h
  else if h : S.Nonempty then S.min' h
  else c

theorem next_mem {S : Finset α} (hS : S.Nonempty) (c : α) : next S c ∈ S := by
  unfold next
  split_ifs with h
  · exact (mem_above.mp ((above S c).min'_mem h)).1
  · exact S.min'_mem hS

/-- Where something is larger the successor is the least such element. -/
theorem next_of_above {S : Finset α} {c : α} (h : (above S c).Nonempty) :
    IsLeast {x | x ∈ S ∧ c < x} (next S c) := by
  rw [next, dif_pos h]
  constructor
  · exact mem_above.mp ((above S c).min'_mem h)
  · intro x hx
    exact (above S c).min'_le x (mem_above.mpr hx)

/-- Where nothing is larger the walk wraps around to the minimum. -/
theorem next_of_top {S : Finset α} {c : α} (hS : S.Nonempty) (h : ∀ x ∈ S, x ≤ c) :
    IsLeast {x | x ∈ S} (next S c) := by
  have hn : ¬ (above S c).Nonempty := by
    rintro ⟨x,hx⟩
    exact absurd (h x (mem_above.mp hx).1) (not_le.mpr (mem_above.mp hx).2)
  rw [next, dif_neg hn, dif_pos hS]
  exact ⟨S.min'_mem hS,fun x hx => S.min'_le x hx⟩

theorem next_eq_of_above {S : Finset α} {c d : α} (h : IsLeast {x | x ∈ S ∧ c < x} d) :
    next S c = d :=
  (next_of_above ⟨d,mem_above.mpr h.1⟩).unique h

theorem next_eq_of_top {S : Finset α} {c d : α} (hc : ∀ x ∈ S, x ≤ c)
    (h : IsLeast {x | x ∈ S} d) : next S c = d :=
  (next_of_top ⟨d,h.1⟩ hc).unique h

theorem next_ne {S : Finset α} {c : α} (hc : c ∈ S) (hS : 2 ≤ S.card) : next S c ≠ c := by
  by_cases h : (above S c).Nonempty
  · exact ne_of_gt (next_of_above h).1.2
  · have htop : ∀ x ∈ S, x ≤ c := by
      intro x hx
      by_contra hlt
      exact h ⟨x,mem_above.mpr ⟨hx,not_le.mp hlt⟩⟩
    obtain ⟨x,hx,hxc⟩ := Finset.exists_mem_ne (by omega : 1 < S.card) c
    have hmin := (next_of_top ⟨c,hc⟩ htop).2 hx
    exact ne_of_lt (lt_of_le_of_lt hmin (lt_of_le_of_ne (htop x hx) hxc))

theorem next_singleton (c d : α) : next {c} d = c := by
  have h := next_mem (Finset.singleton_nonempty c) d
  simpa using h

/-! ### The successor as a position in a sorted list -/

/-- The entry after the first occurrence of `c`, the first entry after the
last. In a sorted list this is the cyclic successor exactly where `c` is not
repeated; where it is, the entry after the first copy is the second copy. -/
def following (l : List α) (c : α) : Option α :=
  l[(l.idxOf c+1) % l.length]?

theorem following_sorted (l : List α) (hl : l.Pairwise (· ≤ ·)) (c : α) (hc : c ∈ l) :
    following l c = some (if l.count c = 1 then next l.toFinset c else c) := by
  obtain ⟨as,bs,rfl,hca⟩ := List.eq_append_cons_of_mem hc
  obtain ⟨-,hcb,hab⟩ := List.pairwise_append.mp hl
  obtain ⟨hbs,-⟩ := List.pairwise_cons.mp hcb
  have hidx : (as++c::bs).idxOf c = as.length := by simp [List.idxOf_append, hca]
  have hcount : (as++c::bs).count c = bs.count c+1 := by
    simp [List.count_append, List.count_eq_zero_of_not_mem hca]
  have has : ∀ x ∈ as, x < c := fun x hx =>
    lt_of_le_of_ne (hab x hx c (by simp)) (fun h => hca (h ▸ hx))
  rw [following, hidx, hcount]
  cases bs with
  | nil =>
    -- `c` closes the list: the successor is the head.
    have htop : ∀ x ∈ (as++[c]).toFinset, x ≤ c := by
      intro x hx
      simp only [List.mem_toFinset, List.mem_append, List.mem_singleton] at hx
      rcases hx with hx | rfl
      · exact le_of_lt (has x hx)
      · exact le_refl _
    have hlen : (as.length+1) % (as++[c]).length = 0 := by simp
    rw [hlen]
    cases as with
    | nil =>
      simp [next_singleton]
    | cons a as =>
      have hle : ∀ x ∈ (a::as++[c]), a ≤ x := by
        intro x hx
        rcases List.mem_cons.mp hx with rfl | hx
        · exact le_refl _
        · exact (List.pairwise_cons.mp hl).1 x hx
      have h := next_eq_of_top (d := a) htop
        ⟨by simp, fun x hx => hle x (List.mem_toFinset.mp hx)⟩
      rw [h]
      simp
  | cons b bs =>
    have hlen : (as.length+1) % (as++c::b::bs).length = as.length+1 :=
      Nat.mod_eq_of_lt (by simp)
    have hget : (as++c::b::bs)[as.length+1]? = some b := by simp
    rw [hlen, hget]
    by_cases hbc : b = c
    · subst b
      simp
    · have hlt : c < b := lt_of_le_of_ne (hbs b (by simp)) (Ne.symm hbc)
      obtain ⟨hbb,-⟩ := List.pairwise_cons.mp (List.pairwise_cons.mp hcb).2
      have hzero : (b::bs).count c = 0 := by
        apply List.count_eq_zero_of_not_mem
        intro hm
        rcases List.mem_cons.mp hm with h | h
        · exact hbc h.symm
        · exact absurd (hbb c h) (not_le.mpr hlt)
      have hnext : next (as++c::b::bs).toFinset c = b := by
        apply next_eq_of_above
        refine ⟨⟨by simp,hlt⟩,?_⟩
        rintro x ⟨hx,hcx⟩
        simp only [List.mem_toFinset, List.mem_append, List.mem_cons] at hx
        rcases hx with hx | rfl | rfl | hx
        · exact absurd (has x hx) (not_lt.mpr (le_of_lt hcx))
        · exact absurd hcx (lt_irrefl _)
        · exact le_refl _
        · exact hbb x hx
      rw [hzero, hnext]
      rfl

theorem getElem_next (S : Finset α) (i : ℕ) (hi : i < (S.sort (· ≤ ·)).length) :
    (S.sort (· ≤ ·))[(i+1) % (S.sort (· ≤ ·)).length]? = some (next S (S.sort (· ≤ ·))[i]) := by
  have hnodup := S.sort_nodup (· ≤ ·)
  have h := following_sorted (S.sort (· ≤ ·)) (S.pairwise_sort (· ≤ ·))
    (S.sort (· ≤ ·))[i] (List.getElem_mem hi)
  have hidx : (S.sort (· ≤ ·)).idxOf (S.sort (· ≤ ·))[i] = i :=
    hnodup.idxOf_getElem i hi
  have hcount : (S.sort (· ≤ ·)).count (S.sort (· ≤ ·))[i] = 1 :=
    List.count_eq_one_of_mem hnodup (List.getElem_mem hi)
  rwa [following, hidx, if_pos hcount, Finset.sort_toFinset] at h

/-! ### Laps -/

theorem getElem_iterate_next (S : Finset α) (i k : ℕ) (hi : i < (S.sort (· ≤ ·)).length) :
    (S.sort (· ≤ ·))[(i+k) % (S.sort (· ≤ ·)).length]? =
      some ((next S)^[k] (S.sort (· ≤ ·))[i]) := by
  induction k with
  | zero =>
    rw [Nat.add_zero, Nat.mod_eq_of_lt hi, List.getElem?_eq_getElem hi]
    rfl
  | succ k ih =>
    have hk : (i+k) % (S.sort (· ≤ ·)).length < (S.sort (· ≤ ·)).length :=
      Nat.mod_lt _ (by omega)
    rw [List.getElem?_eq_getElem hk] at ih
    rw [Function.iterate_succ_apply', ← Option.some.inj ih, ← getElem_next S _ hk,
      Nat.mod_add_mod, Nat.add_assoc]

theorem iterate_next_mem {S : Finset α} {c : α} (hc : c ∈ S) (k : ℕ) : (next S)^[k] c ∈ S := by
  induction k with
  | zero => exact hc
  | succ k ih =>
    rw [Function.iterate_succ_apply']
    exact next_mem ⟨c,hc⟩ _

theorem exists_sort_getElem {S : Finset α} {c : α} (hc : c ∈ S) :
    ∃ i, ∃ hi : i < (S.sort (· ≤ ·)).length, (S.sort (· ≤ ·))[i] = c :=
  List.getElem_of_mem ((S.mem_sort (· ≤ ·)).mpr hc)

/-- One lap: as many steps as the set has elements lead back to the start. -/
theorem iterate_next_card {S : Finset α} {c : α} (hc : c ∈ S) : (next S)^[S.card] c = c := by
  obtain ⟨i,hi,rfl⟩ := exists_sort_getElem hc
  have h := getElem_iterate_next S i S.card hi
  rw [← Finset.length_sort (· ≤ ·) (s := S), Nat.add_mod_right, Nat.mod_eq_of_lt hi,
    List.getElem?_eq_getElem hi] at h
  rw [← Finset.length_sort (· ≤ ·) (s := S)]
  exact (Option.some.inj h).symm

/-- The elements entered during one lap are those of the set, each once. -/
theorem lap_perm {S : Finset α} {c : α} (hc : c ∈ S) :
    ((List.range S.card).map (fun k => (next S)^[k+1] c)).Perm (S.sort (· ≤ ·)) := by
  obtain ⟨i,hi,rfl⟩ := exists_sort_getElem hc
  have hrot : (List.range S.card).map (fun k => (next S)^[k+1] (S.sort (· ≤ ·))[i]) =
      (S.sort (· ≤ ·)).rotate (i+1) := by
    apply List.ext_getElem?
    intro k
    by_cases hk : k < S.card
    · rw [List.getElem?_rotate (by simpa using hk), List.getElem?_map, List.getElem?_range hk,
        show k+(i+1) = i+(k+1) by omega, getElem_iterate_next S i (k+1) hi]
      rfl
    · rw [List.getElem?_eq_none (by simpa using hk), List.getElem?_eq_none (by simpa using hk)]
  rw [hrot]
  exact List.rotate_perm _ _

/-! ### Progress through changing sets -/

/-- How many elements of the universe the walk has ahead of it, from `c`
exclusive to `b` inclusive; a full lap where the two agree. -/
def ahead (U : Finset α) (c b : α) : ℕ :=
  if c < b then (U.filter (fun x => c < x ∧ x ≤ b)).card
  else (above U c).card+(U.filter (· ≤ b)).card

theorem ahead_le_card (U : Finset α) (c b : α) : ahead U c b ≤ U.card := by
  unfold ahead
  split_ifs with h
  · exact Finset.card_filter_le _ _
  · have hd : Disjoint (above U c) (U.filter (· ≤ b)) := by
      rw [Finset.disjoint_left]
      intro x hx hx'
      have hcx := (mem_above.mp hx).2
      have hxb := (Finset.mem_filter.mp hx').2
      exact h (lt_of_lt_of_le hcx hxb)
    rw [← Finset.card_union_of_disjoint hd]
    apply Finset.card_le_card
    apply Finset.union_subset
    · exact Finset.filter_subset _ _
    · exact Finset.filter_subset _ _

theorem ahead_pos {U : Finset α} {b : α} (hb : b ∈ U) (c : α) : 0 < ahead U c b := by
  unfold ahead
  split_ifs with h
  · exact Finset.card_pos.mpr ⟨b,Finset.mem_filter.mpr ⟨hb,h,le_refl _⟩⟩
  · have : 0 < (U.filter (· ≤ b)).card :=
      Finset.card_pos.mpr ⟨b,Finset.mem_filter.mpr ⟨hb,le_refl _⟩⟩
    omega

/-- A step in any subset that still holds `b` either arrives or gets closer. -/
theorem ahead_next_lt {U T : Finset α} (hT : T ⊆ U) {b : α} (hb : b ∈ T) (c : α)
    (hne : next T c ≠ b) : ahead U (next T c) b < ahead U c b := by
  have hmem : next T c ∈ U := hT (next_mem ⟨b,hb⟩ c)
  by_cases hab : (above T c).Nonempty
  · obtain ⟨⟨-,hcd⟩,hmin⟩ := next_of_above hab
    by_cases hcb : c < b
    · have hdb : next T c < b := lt_of_le_of_ne (hmin ⟨hb,hcb⟩) hne
      rw [ahead, ahead, if_pos hdb, if_pos hcb]
      apply Finset.card_lt_card
      refine Finset.ssubset_iff_of_subset ?_ |>.mpr ⟨next T c,?_,?_⟩
      · intro x hx
        simp only [Finset.mem_filter] at hx ⊢
        exact ⟨hx.1,lt_trans hcd hx.2.1,hx.2.2⟩
      · exact Finset.mem_filter.mpr ⟨hmem,hcd,le_of_lt hdb⟩
      · simp
    · have hdb : ¬ next T c < b := fun h => hcb (lt_trans hcd h)
      rw [ahead, ahead, if_neg hdb, if_neg hcb]
      apply Nat.add_lt_add_right
      apply Finset.card_lt_card
      refine Finset.ssubset_iff_of_subset ?_ |>.mpr ⟨next T c,mem_above.mpr ⟨hmem,hcd⟩,by simp⟩
      intro x hx
      obtain ⟨hxU,hdx⟩ := mem_above.mp hx
      exact mem_above.mpr ⟨hxU,lt_trans hcd hdx⟩
  · have htop : ∀ x ∈ T, x ≤ c := by
      intro x hx
      by_contra hlt
      exact hab ⟨x,mem_above.mpr ⟨hx,not_le.mp hlt⟩⟩
    have hdb : next T c < b := lt_of_le_of_ne ((next_of_top ⟨b,hb⟩ htop).2 hb) hne
    have hcb : ¬ c < b := not_lt.mpr (htop b hb)
    rw [ahead, ahead, if_pos hdb, if_neg hcb]
    have hlt : (U.filter (fun x => next T c < x ∧ x ≤ b)).card < (U.filter (· ≤ b)).card := by
      apply Finset.card_lt_card
      refine Finset.ssubset_iff_of_subset ?_ |>.mpr ⟨next T c,?_,?_⟩
      · intro x hx
        simp only [Finset.mem_filter] at hx ⊢
        exact ⟨hx.1,hx.2.2⟩
      · exact Finset.mem_filter.mpr ⟨hmem,le_of_lt hdb⟩
      · simp
    omega

/-- How far a walk is from `b`: nothing is ahead of it once it is there. -/
def distance (U : Finset α) (b c : α) : ℕ := if c = b then 0 else ahead U c b

theorem distance_le_card (U : Finset α) (b c : α) : distance U b c ≤ U.card := by
  unfold distance
  split_ifs
  · exact Nat.zero_le _
  · exact ahead_le_card U c b

theorem distance_pos {U : Finset α} {b c : α} (hb : b ∈ U) (hne : c ≠ b) : 0 < distance U b c := by
  rw [distance, if_neg hne]
  exact ahead_pos hb c

theorem distance_next {U T : Finset α} (hT : T ⊆ U) {b c : α} (hb : b ∈ T) (hne : c ≠ b) :
    1+distance U b (next T c) ≤ distance U b c := by
  by_cases harrives : next T c = b
  · rw [harrives, distance, if_pos rfl]
    exact distance_pos (hT hb) hne
  · have hcloser := ahead_next_lt hT hb c harrives
    rw [distance, if_neg harrives, distance, if_neg hne]
    omega

end WireProbe.CyclicOrder
