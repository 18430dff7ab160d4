import WireProbe.PluginRotation

/-!
# Laps of failing read cycles

Five failed cycles move the selection to the cyclic successor exactly where
the answer that completes the count does not repeat the selected address.
Where no answer does, a lap of such runs selects every address once.
-/

set_option autoImplicit false

namespace WireProbe.PluginRotationRuns
open WireProbe.CyclicOrder WireProbe.Transducer WireProbe.PluginRotation

variable {Key A : Type*} [DecidableEq Key] [LinearOrder A]

/-! ### Failing cycles on one set of answers -/

def failed (answers : List (List A)) : List (List A × Bool) := answers.map (fun addrs => (addrs,false))

/-- Where a completed run of failures leaves the selection. -/
def moved (addrs : List A) (a : A) : A := if addrs.count a = 1 then next addrs.toFinset a else a

theorem moved_mem {addrs : List A} {a : A} (h : a ∈ addrs) : moved addrs a ∈ addrs := by
  unfold moved
  split_ifs
  · exact List.mem_toFinset.mp (next_mem ⟨a,List.mem_toFinset.mpr h⟩ a)
  · exact h

theorem failing_cycle (st : AddrState Key A) (key : Key) (addrs : List A) (a : A) (f : ℕ)
    (he : entry st key = ⟨some a,f⟩) (ha : a ∈ addrs) (htwo : 2 ≤ addrs.toFinset.card) :
    entry (cycle key st (addrs,false)).1 key =
      if f+1 < rotateAfterFailures then ⟨some a,f+1⟩ else ⟨some (moved addrs a),0⟩ := by
  obtain ⟨first,rest,rfl⟩ := List.exists_cons_of_ne_nil (List.ne_nil_of_mem ha)
  have hrest : rest ≠ [] := by
    rintro rfl
    simp at htwo
  have hchosen := chosen_present st key first rest a (by rw [he]) ha
  rw [cycle_entry, hchosen, he]
  simp only [hrest, or_false, moved, Bool.false_eq_true, if_false]
  split_ifs <;> rfl

theorem failing_cycles_hold (st : AddrState Key A) (key : Key) (S : Finset A) (hS : 2 ≤ S.card)
    (answers : List (List A)) (hanswers : ∀ addrs ∈ answers, addrs.toFinset = S) (a : A)
    (ha : a ∈ S) (f : ℕ) (he : entry st key = ⟨some a,f⟩)
    (hf : f+answers.length < rotateAfterFailures) :
    entry (final (cycle key) st (failed answers)) key = ⟨some a,f+answers.length⟩ := by
  induction answers generalizing st f with
  | nil => exact he
  | cons addrs rest ih =>
    have hset := hanswers addrs (by simp)
    rw [List.length_cons] at hf ⊢
    have hstep := failing_cycle st key addrs a f he (by rw [← List.mem_toFinset, hset]; exact ha)
      (by rw [hset]; exact hS)
    rw [if_pos (by omega)] at hstep
    have hrest := ih (cycle key st (addrs,false)).1 (fun x hx => hanswers x (by simp [hx]))
      (f+1) hstep (by omega)
    rw [show f+(rest.length+1) = f+1+rest.length by omega]
    exact hrest

theorem final_failed (key : Key) (st : AddrState Key A) (before : List (List A)) (addrs : List A)
    (after : List (List A)) : final (cycle key) st (failed (before++addrs::after)) =
      final (cycle key) (cycle key (final (cycle key) st (failed before)) (addrs,false)).1
        (failed after) := by
  rw [failed, List.map_append, List.map_cons, final_append, final_cons]
  rfl

/-- The place, in a run of failures, of the cycle that completes the count. -/
def completing (failures : ℕ) : ℕ := 4-min failures 4

omit [LinearOrder A] in
theorem completing_lt {answers : List (List A)} (hlen : answers.length = rotateAfterFailures)
    (f : ℕ) : completing f < answers.length := by
  rw [hlen]
  simp only [completing, rotateAfterFailures]
  omega

theorem completing_min (f : ℕ) : completing (min f 4) = completing f := by
  simp [completing]

/-- The answer at that place. -/
def completer (failures : ℕ) (answers : List (List A)) : List A :=
  answers.getD (completing failures) []

omit [LinearOrder A] in
theorem completer_mem {answers : List (List A)} (hlen : answers.length = rotateAfterFailures)
    (f : ℕ) : completer f answers ∈ answers := by
  have hr := completing_lt hlen f
  rw [completer, List.getD_eq_getElem?_getD, List.getElem?_eq_getElem hr]
  exact List.getElem_mem hr

omit [LinearOrder A] in
theorem split_at_completer {answers : List (List A)}
    (hlen : answers.length = rotateAfterFailures) (f : ℕ) :
    answers = answers.take (completing f) ++
      completer f answers :: answers.drop (completing f+1) := by
  have hr := completing_lt hlen f
  rw [completer, List.getD_eq_getElem?_getD, List.getElem?_eq_getElem hr, Option.getD_some,
    ← List.drop_eq_getElem_cons hr, List.take_append_drop]

/-- One run of failures, whatever the count it starts from. -/
theorem failing_run (st : AddrState Key A) (key : Key) (S : Finset A) (hS : 2 ≤ S.card)
    (answers : List (List A)) (hlen : answers.length = rotateAfterFailures)
    (hanswers : ∀ addrs ∈ answers, addrs.toFinset = S) (a : A) (ha : a ∈ S) (f : ℕ)
    (he : entry st key = ⟨some a,f⟩) :
    entry (final (cycle key) st (failed answers)) key =
      ⟨some (moved (completer f answers) a),min f 4⟩ := by
  have hset : (completer f answers).toFinset = S := hanswers _ (completer_mem hlen f)
  have hmem : a ∈ completer f answers := by rw [← List.mem_toFinset, hset]; exact ha
  have hbefore : ∃ g, entry (final (cycle key) st (failed (answers.take (completing f)))) key =
      ⟨some a,g⟩ ∧ 4 ≤ g := by
    by_cases hf : f ≤ 4
    · refine ⟨f+(answers.take (completing f)).length,?_,?_⟩
      · apply failing_cycles_hold st key S hS _ (fun x hx => hanswers x (List.mem_of_mem_take hx))
          a ha f he
        simp only [List.length_take, completing, rotateAfterFailures]
        omega
      · simp only [List.length_take, completing, hlen, rotateAfterFailures]
        omega
    · refine ⟨f,?_,by omega⟩
      rw [show completing f = 0 by simp only [completing]; omega]
      exact he
  obtain ⟨g,hg,hg4⟩ := hbefore
  have hrotate := failing_cycle _ key (completer f answers) a g hg hmem (by rw [hset]; exact hS)
  rw [if_neg (by simp only [rotateAfterFailures]; omega)] at hrotate
  have hmoved : moved (completer f answers) a ∈ S := by
    rw [← hset]
    exact List.mem_toFinset.mpr (moved_mem hmem)
  have hdrop : (answers.drop (completing f+1)).length = min f 4 := by
    simp only [List.length_drop, hlen, completing, rotateAfterFailures]
    omega
  have hafter := failing_cycles_hold _ key S hS (answers.drop (completing f+1))
    (fun x hx => hanswers x (List.mem_of_mem_drop hx)) _ hmoved 0 hrotate (by
      simp only [hdrop, rotateAfterFailures]
      omega)
  rw [hdrop, Nat.zero_add] at hafter
  rw [← hafter, ← final_failed, ← split_at_completer hlen f]

/-- The step of a whole run of failures; its output is the selection it leaves. -/
def failedRun (key : Key) (st : AddrState Key A) (answers : List (List A)) :
    AddrState Key A × Option A :=
  let st' := final (cycle key) st (failed answers)
  (st',(entry st' key).selected)

def selections (key : Key) (st : AddrState Key A) (runs : List (List (List A))) : List (Option A) :=
  outputs (failedRun key) st runs

section Laps
variable (key : Key) (S : Finset A) (hS : 2 ≤ S.card)
include hS

/-- A run whose completing answer holds the selected address once. -/
theorem failedRun_next {answers : List (List A)} (hlen : answers.length = rotateAfterFailures)
    (hanswers : ∀ addrs ∈ answers, addrs.toFinset = S) (st : AddrState Key A) {a : A}
    (ha : a ∈ S) {f : ℕ} (he : entry st key = ⟨some a,f⟩) (hone : (completer f answers).count a = 1) :
    entry (failedRun key st answers).1 key = ⟨some (next S a),min f 4⟩ ∧
      (failedRun key st answers).2 = some (next S a) := by
  have hrun := failing_run st key S hS answers hlen hanswers a ha f he
  rw [moved, if_pos hone, hanswers _ (completer_mem hlen f)] at hrun
  exact ⟨hrun,by simp [failedRun, hrun]⟩

theorem selections_lap (runs : List (List (List A)))
    (hruns : ∀ answers ∈ runs, answers.length = rotateAfterFailures ∧
      ∀ addrs ∈ answers, addrs.toFinset = S)
    (st : AddrState Key A) (a : A) (ha : a ∈ S) (f : ℕ) (he : entry st key = ⟨some a,f⟩)
    (hcount : ∀ j, ∀ hj : j < runs.length, (completer f runs[j]).count ((next S)^[j] a) = 1) :
    selections key st runs =
      (List.range runs.length).map (fun k => some ((next S)^[k+1] a)) := by
  induction runs generalizing st a f with
  | nil => rfl
  | cons answers rest ih =>
    obtain ⟨hlen,hanswers⟩ := hruns answers (by simp)
    obtain ⟨hentry,hout⟩ := failedRun_next key S hS hlen hanswers st ha he (hcount 0 (by simp))
    have hrest := ih (fun x hx => hruns x (by simp [hx])) _ (next S a) (next_mem ⟨a,ha⟩ a)
      (min f 4) hentry (by
        intro j hj
        rw [completer, completing_min]
        exact hcount (j+1) (by simpa using hj))
    rw [selections, outputs_cons, ← selections, hrest, hout, List.length_cons,
      List.range_succ_eq_map, List.map_cons, List.map_map]
    congr 1

theorem changes_iff (runs : List (List (List A)))
    (hruns : ∀ answers ∈ runs, answers.length = rotateAfterFailures ∧
      ∀ addrs ∈ answers, addrs.toFinset = S)
    (st : AddrState Key A) (a : A) (ha : a ∈ S) (f : ℕ) (he : entry st key = ⟨some a,f⟩) :
    (some a :: selections key st runs).IsChain (· ≠ ·) ↔
      ∀ j, ∀ hj : j < runs.length, (completer f runs[j]).count ((next S)^[j] a) = 1 := by
  induction runs generalizing st a f with
  | nil => simp [selections]
  | cons answers rest ih =>
    obtain ⟨hlen,hanswers⟩ := hruns answers (by simp)
    rw [selections, outputs_cons, ← selections, List.isChain_cons_cons]
    by_cases hone : (completer f answers).count a = 1
    · obtain ⟨hentry,hout⟩ := failedRun_next key S hS hlen hanswers st ha he hone
      rw [hout, ih (fun x hx => hruns x (by simp [hx])) _ (next S a) (next_mem ⟨a,ha⟩ a)
        (min f 4) hentry]
      simp only [completer, completing_min]
      constructor
      · rintro ⟨-,hrest⟩ j hj
        cases j with
        | zero => exact hone
        | succ j => exact hrest j (by simpa using hj)
      · intro hall
        exact ⟨fun h => next_ne ha hS (Option.some.inj h).symm,
          fun j hj => hall (j+1) (by simpa using hj)⟩
    · have hrun := failing_run st key S hS answers hlen hanswers a ha f he
      rw [moved, if_neg hone] at hrun
      have hout : (failedRun key st answers).2 = some a := by simp [failedRun, hrun]
      constructor
      · rintro ⟨hne,-⟩
        exact absurd hout.symm hne
      · intro hall
        exact absurd (hall 0 (by simp)) hone

end Laps

/-! ### From an arbitrary dictionary -/

/-- What `preferredAddress` has repaired stays repaired: selecting twice is
selecting once. -/
theorem cycle_preferred (st : AddrState Key A) (key : Key) (c : List A × Bool) :
    cycle key (preferredAddress st key (some c.1)).1 c = cycle key st c := by
  obtain ⟨addrs,ok⟩ := c
  cases addrs with
  | nil => rfl
  | cons first rest =>
    have hchosen : chosen (preferredAddress st key (some (first::rest))).1 key first rest =
        chosen st key first rest :=
      chosen_present _ key first rest _ (by simp [preferredAddress_cons]) (chosen_mem st key first rest)
    simp only [cycle, preferredAddress_cons _ key first rest] at hchosen ⊢
    simp only [hchosen, entry_store, store_store]

/-- Every run of failures changes the selection and a lap of runs selects each
address once, exactly where the answer completing a run holds the address
selected by then only once. -/
theorem rotation_visits_all_iff (key : Key) (S : Finset A) (hS : 2 ≤ S.card)
    (st : AddrState Key A) (runs : List (List (List A))) (hlen : runs.length = S.card)
    (hruns : ∀ answers ∈ runs, answers.length = rotateAfterFailures ∧
      ∀ addrs ∈ answers, addrs.toFinset = S)
    (a : A) (hstart : runs.flatten.head?.bind (due st key) = some a) :
    ((some a :: selections key st runs).IsChain (· ≠ ·) ∧
      (selections key st runs).Perm ((S.sort (· ≤ ·)).map some)) ↔
    ∀ j, ∀ hj : j < runs.length,
      (completer (entry st key).failures runs[j]).count ((next S)^[j] a) = 1 := by
  cases runs with
  | nil => simp at hlen; omega
  | cons answers rest =>
    obtain ⟨hfive,hanswers⟩ := hruns answers (by simp)
    cases answers with
    | nil => simp [rotateAfterFailures] at hfive
    | cons addrs more =>
      have hset := hanswers addrs (by simp)
      cases addrs with
      | nil => simp at hset; simp [← hset] at hS
      | cons first tail =>
        simp only [List.flatten_cons, List.cons_append, List.head?_cons, Option.bind_some,
          due_cons, Option.some.injEq] at hstart
        have ha : a ∈ S := by
          rw [← hset, ← hstart]
          exact List.mem_toFinset.mpr (chosen_mem st key first tail)
        -- The first cycle repairs the entry; the run is the same from there.
        have hentry : entry (preferredAddress st key (some (first::tail))).1 key =
            ⟨some a,(entry st key).failures⟩ := by
          rw [preferredAddress_cons, entry_store, hstart]
        have hrun : failedRun key (preferredAddress st key (some (first::tail))).1
            ((first::tail)::more) = failedRun key st ((first::tail)::more) := by
          simp only [failedRun, failed, List.map_cons, final_cons]
          rw [cycle_preferred st key (first::tail,false)]
        have hsel : selections key (preferredAddress st key (some (first::tail))).1
            (((first::tail)::more)::rest) = selections key st (((first::tail)::more)::rest) := by
          rw [selections, selections, outputs_cons, outputs_cons, hrun]
        have hiff := changes_iff key S hS _ hruns _ a ha _ hentry
        rw [hsel] at hiff
        rw [← hiff]
        refine ⟨fun h => h.1,fun h => ⟨h,?_⟩⟩
        have hlap := selections_lap key S hS _ hruns _ a ha _ hentry (hiff.mp h)
        rw [hsel] at hlap
        rw [hlap, hlen]
        have hperm := (lap_perm ha).map some
        rwa [List.map_map] at hperm

section Witness
open GetAddrInfo

theorem rotation_visits_all_shuffled :
    (some answer2 :: selections target fresh [List.replicate 5 [answer2,answer1],
        List.replicate 5 [answer1,answer2,answer2]]).IsChain (· ≠ ·) ∧
      (selections target fresh [List.replicate 5 [answer2,answer1],
        List.replicate 5 [answer1,answer2,answer2]]).Perm
          ((({answer1,answer2} : Finset AddrInfo).sort (· ≤ ·)).map some) :=
  (rotation_visits_all_iff target {answer1,answer2} (by decide) fresh
    [List.replicate 5 [answer2,answer1],List.replicate 5 [answer1,answer2,answer2]]
    (by decide) (by decide) answer2 (by decide)).mpr (by decide)

/-- A resolver that repeats the failing address pins the plugin to it. -/
theorem repeated_answer_pins :
    ¬ ∀ (S : Finset AddrInfo) (runs : List (List (List AddrInfo))) (a : AddrInfo),
      2 ≤ S.card → runs.length = S.card →
      (∀ answers ∈ runs, answers.length = rotateAfterFailures ∧
        ∀ addrs ∈ answers, addrs.toFinset = S) →
      runs.flatten.head?.bind (due fresh target) = some a →
      (some a :: selections target fresh runs).IsChain (· ≠ ·) ∧
        (selections target fresh runs).Perm ((S.sort (· ≤ ·)).map some) := by
  intro h
  have hpinned := (h {answer1,answer2} (List.replicate 2 (List.replicate 5 [answer1,answer1,answer2]))
    answer1 (by decide) (by decide) (by decide) (by decide)).1
  exact absurd hpinned (by decide)

end Witness

end WireProbe.PluginRotationRuns
