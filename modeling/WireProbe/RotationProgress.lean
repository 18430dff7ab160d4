import WireProbe.AddressRotation

/-!
# Where a run of rotations gets to

Under a resolver that keeps answering with one set, in whatever order, the
rotations walk a full lap. Under changing answers the walk still approaches
every address that keeps being returned, and is thrown back only where the
address in use has vanished and the resolver's first answer replaces it.
-/

set_option autoImplicit false

namespace WireProbe.RotationProgress
open WireProbe.CyclicOrder WireProbe.AddressRotation WireProbe.Transducer

variable {α : Type*} [LinearOrder α]

/-- The address selected after each call. -/
def visited (s : Selection α) (answers : List (List α)) : List α :=
  (states applyResolution s answers).map Selection.current

/-- One call on an answer that holds the address in use. -/
theorem rotate_present (s : Selection α) (fresh : List α) (h : s.current ∈ fresh) :
    (applyResolution s fresh).1.current = next fresh.toFinset s.current := by
  obtain ⟨preferred,rest,rfl⟩ := List.exists_cons_of_ne_nil (List.ne_nil_of_mem h)
  simp only [applyResolution, adopt_cons]
  rw [successor_lookup _ _ (List.mem_toFinset.mpr h)]
  rfl

theorem rotate_constant {S : Finset α} {s : Selection α} (hs : s.current ∈ S) {fresh : List α}
    (hset : fresh.toFinset = S) : (applyResolution s fresh).1.current = next S s.current := by
  rw [rotate_present s fresh (List.mem_toFinset.mp (hset ▸ hs)), hset]

theorem visited_constant (S : Finset α) (s : Selection α) (hs : s.current ∈ S)
    (answers : List (List α)) (hanswers : ∀ fresh ∈ answers, fresh.toFinset = S) :
    visited s answers = (List.range answers.length).map (fun k => (next S)^[k+1] s.current) := by
  induction answers generalizing s with
  | nil => rfl
  | cons fresh rest ih =>
    have hstep := rotate_constant hs (hanswers fresh (by simp))
    have hrest := ih (applyResolution s fresh).1 (hstep ▸ next_mem ⟨_,hs⟩ _)
      (fun a ha => hanswers a (by simp [ha]))
    rw [hstep] at hrest
    rw [visited, states_cons, List.map_cons, hstep, List.length_cons, List.range_succ_eq_map,
      List.map_cons, List.map_map]
    congr 1

theorem final_constant (S : Finset α) (s : Selection α) (hs : s.current ∈ S)
    (answers : List (List α)) (hanswers : ∀ fresh ∈ answers, fresh.toFinset = S) :
    (final applyResolution s answers).current = (next S)^[answers.length] s.current := by
  induction answers generalizing s with
  | nil => rfl
  | cons fresh rest ih =>
    have hstep := rotate_constant hs (hanswers fresh (by simp))
    rw [final_cons, ih _ (hstep ▸ next_mem ⟨_,hs⟩ _) (fun a ha => hanswers a (by simp [ha])),
      hstep, List.length_cons, Function.iterate_succ_apply]

/-- As many rotations as the set has addresses select each of them once and
end on the one they started from; with two addresses or more no rotation
selects the address it has just abandoned. -/
theorem lap_visits_all (S : Finset α) (s : Selection α) (hc : s.current ∈ S)
    (answers : List (List α)) (hlen : answers.length = S.card)
    (hanswers : ∀ fresh ∈ answers, fresh.toFinset = S) :
    (visited s answers).Perm (S.sort (· ≤ ·)) ∧
    (final applyResolution s answers).current = s.current ∧
    (2 ≤ S.card → (s.current :: visited s answers).IsChain (· ≠ ·)) := by
  have hvisited := visited_constant S s hc answers hanswers
  rw [hlen] at hvisited
  refine ⟨?_,?_,?_⟩
  · rw [hvisited]
    exact lap_perm hc
  · rw [final_constant S s hc answers hanswers, hlen]
    exact iterate_next_card hc
  · intro htwo
    have hall : s.current :: visited s answers =
        (List.range (S.card+1)).map (fun k => (next S)^[k] s.current) := by
      rw [hvisited, List.range_succ_eq_map, List.map_cons, List.map_map]
      rfl
    rw [hall, List.isChain_iff_getElem]
    intro k hk
    simp only [List.getElem_map, List.getElem_range, Function.iterate_succ_apply']
    exact (next_ne (iterate_next_mem hc k) htwo).symm

theorem lap_visits_all_endpoint :
    (visited ⟨[endpoint 1,endpoint 2],endpoint 2⟩
      [[endpoint 1,endpoint 2],[endpoint 2,endpoint 1,endpoint 1]]).Perm
      (({endpoint 1,endpoint 2} : Finset SocketAddr).sort (· ≤ ·)) :=
  (lap_visits_all {endpoint 1,endpoint 2} ⟨[endpoint 1,endpoint 2],endpoint 2⟩ (by decide)
    [[endpoint 1,endpoint 2],[endpoint 2,endpoint 1,endpoint 1]] (by decide) (by decide)).1

/-! ### Changing answers -/

/-- How many of the answers lack the address in use when they arrive. -/
def vanishings (s : Selection α) : List (List α) → ℕ
  | [] => 0
  | fresh::rest => (if fresh.contains s.current then 0 else 1) +
      vanishings (applyResolution s fresh).1 rest

/-- The potential is what the walk has ahead of it plus one full lap for each
jump still to come. -/
theorem reaches (U : Finset α) (b : α) (hb : b ∈ U) (s : Selection α) (answers : List (List α))
    (hanswers : ∀ fresh ∈ answers, b ∈ fresh ∧ ∀ a ∈ fresh, a ∈ U)
    (hlen : ahead U s.current b+vanishings s answers*U.card ≤ answers.length) :
    b ∈ visited s answers := by
  induction answers generalizing s with
  | nil =>
    have := ahead_pos hb s.current
    simp only [List.length_nil] at hlen
    omega
  | cons fresh rest ih =>
    obtain ⟨hbf,hsub⟩ := hanswers fresh (by simp)
    rw [visited, states_cons, List.map_cons, List.mem_cons]
    by_cases hhit : b = (applyResolution s fresh).1.current
    · exact Or.inl hhit
    right
    refine ih (applyResolution s fresh).1 (fun a ha => hanswers a (by simp [ha])) ?_
    simp only [vanishings, List.length_cons, List.contains_iff_mem] at hlen
    by_cases hmem : s.current ∈ fresh
    · have hstep := rotate_present s fresh hmem
      have hlt := ahead_next_lt (U := U) (T := fresh.toFinset)
        (fun a ha => hsub a (List.mem_toFinset.mp ha)) (List.mem_toFinset.mpr hbf) s.current
        (fun h => hhit (hstep.trans h).symm)
      rw [if_pos hmem, Nat.zero_add] at hlen
      rw [← hstep] at hlt
      omega
    · -- The jump may land anywhere, which costs at most one lap.
      have hlap := ahead_le_card U (applyResolution s fresh).1.current b
      have hpos := ahead_pos hb s.current
      rw [if_neg hmem, Nat.add_mul, Nat.one_mul] at hlen
      omega

theorem reached_within_laps (U : Finset α) (b : α) (hb : b ∈ U) (s : Selection α) (k : ℕ)
    (answers : List (List α)) (hlen : answers.length = (k+1)*U.card)
    (hanswers : ∀ fresh ∈ answers, b ∈ fresh ∧ ∀ a ∈ fresh, a ∈ U)
    (hjumps : vanishings s answers ≤ k) : b ∈ visited s answers := by
  apply reaches U b hb s answers hanswers
  have hlap := ahead_le_card U s.current b
  have hall : vanishings s answers*U.card ≤ k*U.card := Nat.mul_le_mul_right _ hjumps
  rw [hlen, Nat.add_mul, Nat.one_mul]
  omega

theorem reached_within_laps_endpoint :
    endpoint 2 ∈ visited ⟨[endpoint 1,endpoint 2,endpoint 3],endpoint 3⟩
      [[endpoint 1,endpoint 2,endpoint 3],[endpoint 2,endpoint 1],[endpoint 3,endpoint 2]] :=
  reached_within_laps {endpoint 1,endpoint 2,endpoint 3} (endpoint 2) (by decide) _ 0 _
    (by decide) (by decide) (by decide)

/-- Two answers that take turns hiding the address in use starve a third
address which both of them hold. -/
theorem alternating_answers_starve :
    ¬ ∀ (U : Finset SocketAddr) (b : SocketAddr) (s : Selection SocketAddr)
        (answers : List (List SocketAddr)),
      b ∈ U → AddressRotation.Reachable s → (∀ a ∈ s.addrs, a ∈ U) → answers.length = U.card →
      (∀ fresh ∈ answers, b ∈ fresh ∧ ∀ a ∈ fresh, a ∈ U) → b ∈ visited s answers := by
  intro h
  have hreach : AddressRotation.Reachable
      (⟨[endpoint 1,endpoint 2,endpoint 3],endpoint 1⟩ : Selection SocketAddr) :=
    ⟨_,[],⟨[endpoint 1,endpoint 2,endpoint 3],by decide⟩,rfl⟩
  have hvisited := h {endpoint 1,endpoint 2,endpoint 3} (endpoint 2) _
    [[endpoint 3,endpoint 2],[endpoint 1,endpoint 2],[endpoint 3,endpoint 2]]
    (by decide) hreach (by decide) (by decide) (by decide)
  exact absurd hvisited (by decide)

end WireProbe.RotationProgress
