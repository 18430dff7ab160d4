import Mathlib.Tactic.Ring
import WireProbe.EarnedRotation
import WireProbe.ReadRounds

/-!
# How long the plugin records an outage

As in the Rust probe, the visits that an address fails lead the rotation of its
target towards one that answers. The way is longer here: an address that
vanishes leaves its count to another, and an answer that repeats the address in
use holds the rotation where it is.
-/

set_option autoImplicit false

namespace WireProbe.PluginOutage
open WireProbe.CyclicOrder WireProbe.Transducer WireProbe.PluginRotation
open WireProbe.EarnedRotation WireProbe.PluginConfig WireProbe.GetAddrInfo WireProbe.PluginRead
open WireProbe.ReadRounds

section Rotation
variable {Key A : Type*} [DecidableEq Key] [LinearOrder A]

/-! ### One visit, at the entry of its target -/

/-- How far a selection is from `b`; without one it may start anywhere. -/
def wayTo (U : Finset A) (b : A) : Option A → ℕ
  | none => U.card
  | some a => distance U b a

/-- How many failures are left until `b` is selected. -/
def outstanding (U : Finset A) (b : A) (e : Entry A) : ℕ :=
  if e.selected = some b then 0
  else rotateAfterFailures*(wayTo U b e.selected-1)+(rotateAfterFailures-min e.failures 4)

/-- The failure completes a count, and the rotation stays where it is. -/
def Stuck (key : Key) (st : AddrState Key A) (first : A) (rest : List A) : Prop :=
  (PluginRotation.recordOutcome (PluginRotation.preferredAddress st key (some (first::rest))).1 key
    (some (first::rest)) false).2 = some (chosen st key first rest)

instance (key : Key) (st : AddrState Key A) (first : A) (rest : List A) :
    Decidable (Stuck key st first rest) := inferInstanceAs (Decidable (_ = _))

theorem wayTo_le {U : Finset A} (b : A) (selected : Option A) : wayTo U b selected ≤ U.card := by
  cases selected with
  | none => exact le_refl _
  | some a => exact distance_le_card U b a

theorem outstanding_le {U : Finset A} {b : A} (hb : b ∈ U) (e : Entry A) :
    outstanding U b e ≤ U.card*rotateAfterFailures := by
  have hway := wayTo_le (U := U) b e.selected
  have hcard : 0 < U.card := Finset.card_pos.mpr ⟨b,hb⟩
  unfold outstanding
  simp only [rotateAfterFailures]
  split_ifs <;> omega

variable {U : Finset A} {b : A} (hb : b ∈ U) (key : Key) (st : AddrState Key A) (first : A)
  (rest : List A)
include hb

omit [DecidableEq Key] in
/-- What choosing the address of a visit does to the way ahead. -/
theorem outstanding_chosen :
    outstanding U b ⟨some (chosen st key first rest),(entry st key).failures⟩ ≤
      outstanding U b (entry st key)+
        (if Vanished key st (first::rest) then 1 else 0)*(U.card*rotateAfterFailures) := by
  have hle := outstanding_le hb ⟨some (chosen st key first rest),(entry st key).failures⟩
  by_cases hvanished : Vanished key st (first::rest)
  · rw [if_pos hvanished]
    omega
  · rw [if_neg hvanished, Nat.zero_mul, Nat.add_zero]
    cases hselected : (entry st key).selected with
    | none =>
      have hway := distance_le_card U b (chosen st key first rest)
      unfold outstanding
      rw [hselected, if_neg (by simp : ¬ (none : Option A) = some b)]
      simp only [wayTo, rotateAfterFailures]
      split_ifs <;> omega
    | some a =>
      have hmem : a ∈ first::rest := by
        by_contra hmissing
        exact hvanished ⟨a,hselected,hmissing⟩
      rw [chosen_present st key first rest a hselected hmem, ← hselected]

omit hb in
theorem stuck_of_repeated (hfive : ¬ ((entry st key).failures+1 < rotateAfterFailures ∨ rest = []))
    (hrepeated : (first::rest).count (chosen st key first rest) ≠ 1) :
    Stuck key st first rest := by
  have htarget := rotation_target (first::rest) _ (chosen_mem st key first rest)
  have hlen : (first::rest).length < 2 ↔ rest = [] := by cases rest <;> simp
  rw [if_neg hrepeated] at htarget
  simp only [Stuck, preferredAddress_cons, PluginRotation.recordOutcome, entry_store, hlen, hfive,
    if_false, Option.bind_some, Bool.false_eq_true]
  exact htarget

/-- A failed visit away from `b` is paid for by the way it covers, unless its
rotation is stuck. -/
theorem outstanding_missed (hmem : b ∈ first::rest) (hsub : ∀ a ∈ first::rest, a ∈ U)
    (haway : chosen st key first rest ≠ b) :
    1+outstanding U b (entry (cycle key st (first::rest,false)).1 key) ≤
      outstanding U b ⟨some (chosen st key first rest),(entry st key).failures⟩+
        (if Stuck key st first rest then 1 else 0)*(U.card*rotateAfterFailures) := by
  have hchosen := chosen_mem st key first rest
  have hrest : rest ≠ [] := by
    rintro rfl
    exact haway ((List.mem_singleton.mp hchosen).trans (List.mem_singleton.mp hmem).symm)
  have hpos := distance_pos hb haway
  have hne : ¬ some (chosen st key first rest) = some b := by simpa using haway
  rw [cycle_entry, if_neg Bool.false_ne_true]
  by_cases hfive : (entry st key).failures+1 < rotateAfterFailures ∨ rest = []
  · have hcount := hfive.resolve_right hrest
    rw [if_pos hfive, outstanding, outstanding, if_neg hne, if_neg hne]
    simp only [wayTo, rotateAfterFailures] at hcount ⊢
    omega
  · rw [if_neg hfive]
    have hcount : ¬ (entry st key).failures+1 < rotateAfterFailures := fun h => hfive (.inl h)
    by_cases hone : (first::rest).count (chosen st key first rest) = 1
    · have hcloser := distance_next (U := U) (T := (first::rest).toFinset)
        (fun a ha => hsub a (List.mem_toFinset.mp ha)) (List.mem_toFinset.mpr hmem) haway
      rw [if_pos hone, outstanding, outstanding, if_neg hne]
      simp only [wayTo, rotateAfterFailures] at hcount ⊢
      split_ifs with harrived
      · omega
      · omega
      · have hpos' := distance_pos hb (fun h => harrived (congrArg some h))
        omega
      · have hpos' := distance_pos hb (fun h => harrived (congrArg some h))
        omega
    · have hcard : 0 < U.card := Finset.card_pos.mpr ⟨b,hb⟩
      rw [if_neg hone, if_pos (stuck_of_repeated key st first rest hfive hone), outstanding,
        outstanding, if_neg hne, if_neg hne]
      simp only [wayTo, rotateAfterFailures] at hcount ⊢
      omega

end Rotation

/-! ### Runs of visits -/

/-- A configuration, one of its hosts, and what the outside answers. -/
abbrev Outing := Config × HostEntry × Round

def Outing.key (v : Outing) : StateKey := stateKey v.1.defaultPort v.2.1

section Runs
variable (key : StateKey)

/-- The address and the outcome that a visit records under `key`. -/
def recorded (st : AddrState StateKey AddrInfo) (v : Outing) : Option (AddrInfo × Bool) :=
  match v.2.2 with
  | .failed _ => none
  | .unresolved => none
  | .resolved first rest outcomes cut =>
    if v.key = key ∧ cut.failure.isNone then some (chosen st key first rest,succeeded outcomes)
    else none

/-- A failure recorded under `key`. -/
def missed (st : AddrState StateKey AddrInfo) (v : Outing) : ℕ :=
  match recorded key st v with
  | some (_, false) => 1
  | _ => 0

/-- A success of another address than `b`. -/
def elsewhere (b : AddrInfo) (st : AddrState StateKey AddrInfo) (v : Outing) : ℕ :=
  match recorded key st v with
  | some (a, true) => if a = b then 0 else 1
  | _ => 0

/-- An outcome recorded under `key`. -/
def visited (st : AddrState StateKey AddrInfo) (v : Outing) : ℕ :=
  match recorded key st v with
  | some _ => 1
  | none => 0

/-- The selected address is gone from the answer, or the rotation stays where it is. -/
def setbacks (st : AddrState StateKey AddrInfo) (v : Outing) : ℕ :=
  match v.2.2 with
  | .failed _ => 0
  | .unresolved => 0
  | .resolved first rest _ _ =>
    if v.key = key then
      (if Vanished key st (first::rest) then 1 else 0)+
      (if missed key st v = 1 ∧ Stuck key st first rest then 1 else 0)
    else 0

/-- Where the visit is to `key`, an answer that names an address has `b` among
those of `U`, and what is recorded of `b` is a success. -/
def Serves (U : Finset AddrInfo) (b : AddrInfo) (st : AddrState StateKey AddrInfo) (v : Outing) :
    Prop :=
  match v.2.2 with
  | .failed _ => True
  | .unresolved => True
  | .resolved first rest _ _ => v.key = key →
    (b ∈ first::rest ∧ ∀ a ∈ first::rest, a ∈ U) ∧ recorded key st v ≠ some (b,false)

instance (U : Finset AddrInfo) (b : AddrInfo) (st : AddrState StateKey AddrInfo) (v : Outing) :
    Decidable (Serves key U b st v) :=
  match v with
  | (_, _, .failed _) => isTrue trivial
  | (_, _, .unresolved) => isTrue trivial
  | (_, _, .resolved first rest _ _) =>
    have := List.decidableBAll (· ∈ U) (first::rest)
    inferInstanceAs (Decidable (_ → _))

/-- A visit to `key` that gets an address. -/
def Attends (v : Outing) (first : AddrInfo) (rest : List AddrInfo) : Prop :=
  v.key = key ∧ ∃ outcomes cut, v.2.2 = .resolved first rest outcomes cut

/-- The other visits are of no account. -/
theorem visit_aside (st : AddrState StateKey AddrInfo) (v : Outing)
    (h : ∀ first rest, ¬ Attends key v first rest) :
    (visit st v).1 key = st key ∧ recorded key st v = none := by
  obtain ⟨cfg,host,round⟩ := v
  cases round with
  | failed e => exact ⟨rfl,rfl⟩
  | unresolved => exact ⟨rfl,rfl⟩
  | resolved first rest outcomes cut =>
    have hkey : stateKey cfg.defaultPort host ≠ key :=
      fun hkey => h first rest ⟨hkey,outcomes,cut,rfl⟩
    refine ⟨?_,if_neg fun hrecords => hkey hrecords.1⟩
    simp only [visit]
    cases cut.failure with
    | none => exact cycle_other st hkey.symm (first::rest,succeeded outcomes)
    | some e => exact preferredAddress_other st hkey.symm (some (first::rest))

variable {key} {st : AddrState StateKey AddrInfo} {v : Outing} {first : AddrInfo}
  {rest : List AddrInfo}

theorem recorded_chosen (h : Attends key v first rest) {a : AddrInfo} {ok : Bool}
    (hrecorded : recorded key st v = some (a,ok)) : a = chosen st key first rest := by
  obtain ⟨-,outcomes,cut,hround⟩ := h
  simp only [recorded, hround, Option.ite_none_right_eq_some, Option.some.injEq,
    Prod.mk.injEq] at hrecorded
  exact hrecorded.2.1.symm

/-- Under `key` a visit chooses an address, and records what it found. -/
theorem visit_entry (st : AddrState StateKey AddrInfo) (h : Attends key v first rest) :
    entry (visit st v).1 key = match recorded key st v with
      | some (_, ok) => entry (cycle key st (first::rest,ok)).1 key
      | none => ⟨some (chosen st key first rest),(entry st key).failures⟩ := by
  obtain ⟨cfg,host,round⟩ := v
  obtain ⟨rfl,outcomes,cut,rfl⟩ := h
  simp only [visit, recorded, Outing.key]
  cases hfailure : cut.failure with
  | none => rfl
  | some e => exact entry_store _ _ _

variable {U : Finset AddrInfo} {b : AddrInfo}

theorem serves_answer (h : Attends key v first rest) (hserves : Serves key U b st v) :
    (b ∈ first::rest ∧ ∀ a ∈ first::rest, a ∈ U) ∧ recorded key st v ≠ some (b,false) := by
  obtain ⟨hkey,outcomes,cut,hround⟩ := h
  simp only [Serves, hround] at hserves
  exact hserves hkey

/-- A recorded success leaves its address selected. -/
theorem recorded_success {a : AddrInfo} (h : recorded key st v = some (a,true)) :
    (entry (visit st v).1 key).selected = some a := by
  by_cases hattends : ∃ first rest, Attends key v first rest
  · obtain ⟨first,rest,hattends⟩ := hattends
    have hentry := visit_entry st hattends
    rw [h] at hentry
    rw [hentry.trans (cycle_entry st key first rest true), if_pos rfl, recorded_chosen hattends h]
  · push Not at hattends
    rw [(visit_aside key st v hattends).2] at h
    cases h

theorem visit_stays (hserves : Serves key U b st v) (hat : (entry st key).selected = some b) :
    (entry (visit st v).1 key).selected = some b := by
  by_cases hattends : ∃ first rest, Attends key v first rest
  · obtain ⟨first,rest,hattends⟩ := hattends
    obtain ⟨⟨hmem,-⟩,hsuccess⟩ := serves_answer hattends hserves
    have hchosen := chosen_present st key first rest b hat hmem
    cases hrecorded : recorded key st v with
    | none =>
      rw [visit_entry st hattends, hrecorded]
      exact congrArg some hchosen
    | some r =>
      obtain ⟨a,ok⟩ := r
      have ha : a = b := (recorded_chosen hattends hrecorded).trans hchosen
      subst ha
      cases ok with
      | false => exact absurd hrecorded hsuccess
      | true => exact recorded_success hrecorded
  · push Not at hattends
    rwa [entry, (visit_aside key st v hattends).1]

/-- Each failure is paid for by the way it covers, by a setback or by a success elsewhere. -/
theorem visit_outstanding (hb : b ∈ U) (hserves : Serves key U b st v) :
    missed key st v+outstanding U b (entry (visit st v).1 key) ≤
      outstanding U b (entry st key)+
        (setbacks key st v*(U.card*rotateAfterFailures)+elsewhere key b st v*4) := by
  by_cases hattends : ∃ first rest, Attends key v first rest
  · obtain ⟨first,rest,hattends⟩ := hattends
    obtain ⟨⟨hmem,hsub⟩,hsuccess⟩ := serves_answer hattends hserves
    have hstart := outstanding_chosen hb key st first rest
    have hsetbacks : setbacks key st v = (if Vanished key st (first::rest) then 1 else 0)+
        (if missed key st v = 1 ∧ Stuck key st first rest then 1 else 0) := by
      obtain ⟨hkey,outcomes,cut,hround⟩ := hattends
      simp only [setbacks, hround, hkey, if_true]
    have hentry := visit_entry st hattends
    rw [hsetbacks, Nat.add_mul]
    cases hrecorded : recorded key st v with
    | none =>
      have hnone : missed key st v = 0 := by simp only [missed, hrecorded]
      rw [hrecorded] at hentry
      rw [hnone, show entry (visit st v).1 key = ⟨some (chosen st key first rest),
        (entry st key).failures⟩ from hentry]
      omega
    | some r =>
      obtain ⟨a,ok⟩ := r
      obtain rfl := recorded_chosen hattends hrecorded
      rw [hrecorded] at hentry
      cases ok with
      | true =>
        have hnone : missed key st v = 0 := by simp only [missed, hrecorded]
        have hother : elsewhere key b st v = if chosen st key first rest = b then 0 else 1 := by
          simp only [elsewhere, hrecorded]
        have hreset : outstanding U b ⟨some (chosen st key first rest),0⟩ ≤
            outstanding U b ⟨some (chosen st key first rest),(entry st key).failures⟩+
              (if chosen st key first rest = b then 0 else 1)*4 := by
          unfold outstanding
          simp only [Option.some.injEq, rotateAfterFailures]
          split_ifs <;> omega
        rw [hnone, hother, hentry.trans (cycle_entry st key first rest true), if_pos rfl]
        omega
      | false =>
        have hone : missed key st v = 1 := by simp only [missed, hrecorded]
        have haway : chosen st key first rest ≠ b := fun h => hsuccess (h ▸ hrecorded)
        have hmissed := outstanding_missed hb key st first rest hmem hsub haway
        rw [hone, show entry (visit st v).1 key = entry (cycle key st (first::rest,false)).1 key
          from hentry]
        simp only [true_and]
        omega
  · push Not at hattends
    obtain ⟨hkept,hnone⟩ := visit_aside key st v hattends
    rw [entry, hkept, missed, hnone]
    exact (Nat.zero_add _).trans_le (Nat.le_add_right _ _)

theorem run_stays {vs : List Outing} (hserves : Along visit (Serves key U b) st vs)
    (hat : (entry st key).selected = some b) :
    (entry (final visit st vs) key).selected = some b :=
  final_along (Q := fun st => (entry st key).selected = some b)
    (fun _ _ hat hserves => visit_stays hserves hat) hserves hat

/-- While `b` is not selected every recorded visit is a failure or a success elsewhere. -/
theorem visited_away {vs : List Outing} (hserves : Along visit (Serves key U b) st vs)
    (haway : (entry (final visit st vs) key).selected ≠ some b) :
    charged visit (missed key) st vs+charged visit (elsewhere key b) st vs =
      charged visit (visited key) st vs := by
  induction vs generalizing st with
  | nil => rfl
  | cons v vs ih =>
    have hone : missed key st v+elsewhere key b st v = visited key st v := by
      simp only [missed, elsewhere, visited]
      cases hrecorded : recorded key st v with
      | none => rfl
      | some r =>
        obtain ⟨a,ok⟩ := r
        cases ok with
        | false => rfl
        | true =>
          have hother : a ≠ b := by
            rintro rfl
            have hstays := run_stays hserves.2 (recorded_success hrecorded)
            exact haway hstays
          simp only [if_neg hother]
    have hrest := ih hserves.2 haway
    rw [charged, charged, charged]
    omega

/-- While `b` stays in the answers for a target and what is recorded of it is a
success, the target stays on `b` once it is there. The failures recorded under
its key stay within one lap of five for each setback and one more, and four for
each success of another address; after as many records and one for each such
success `b` is selected. -/
theorem visits_reach (key : StateKey) (U : Finset AddrInfo) (b : AddrInfo) (hb : b ∈ U)
    (st : AddrState StateKey AddrInfo) (vs : List Outing)
    (hserves : Along visit (Serves key U b) st vs) :
    let ends := entry (final visit st vs) key
    let thrown := charged visit (setbacks key) st vs
    let others := charged visit (elsewhere key b) st vs
    (∀ k, (entry (final visit st (vs.take k)) key).selected = some b → ends.selected = some b) ∧
    charged visit (missed key) st vs ≤ (thrown+1)*(U.card*rotateAfterFailures)+others*4 ∧
    ((thrown+1)*(U.card*rotateAfterFailures)+others*5 ≤ charged visit (visited key) st vs →
      ends.selected = some b) := by
  intro ends thrown others
  have hbound : charged visit (missed key) st vs+outstanding U b ends ≤
      (thrown+1)*(U.card*rotateAfterFailures)+others*4 := by
    have hpaid : charged visit (missed key) st vs+outstanding U b ends ≤
        outstanding U b (entry st key)+charged visit (fun st v =>
          setbacks key st v*(U.card*rotateAfterFailures)+elsewhere key b st v*4) st vs :=
      charged_le (Q := fun _ => True) (fun st => outstanding U b (entry st key))
        (fun st v _ hserves => ⟨trivial,visit_outstanding hb hserves⟩) hserves trivial
    rw [charged_add, charged_mul, charged_mul] at hpaid
    calc charged visit (missed key) st vs+outstanding U b ends
        ≤ outstanding U b (entry st key)+
          (thrown*(U.card*rotateAfterFailures)+others*4) := hpaid
      _ ≤ U.card*rotateAfterFailures+(thrown*(U.card*rotateAfterFailures)+others*4) :=
        Nat.add_le_add_right (outstanding_le hb _) _
      _ = (thrown+1)*(U.card*rotateAfterFailures)+others*4 := by ring
  refine ⟨?_,le_of_add_le_left hbound,?_⟩
  · intro k hat
    have hrest := run_stays (along_drop st vs k hserves) hat
    rwa [← final_append, List.take_append_drop] at hrest
  · intro hlength
    by_contra haway
    have hall := visited_away hserves haway
    have hleft : 0 < outstanding U b ends := by
      rw [outstanding, if_neg haway]
      simp only [rotateAfterFailures]
      omega
    have hvisited : charged visit (missed key) st vs+others =
      charged visit (visited key) st vs := hall
    omega

/-- A visit to the watched host, with one handshake. -/
def watching (outcome : Option ℚ) : Outing :=
  (StarvedVisits.watched,⟨"db".toList,"db".toList,none⟩,
    .resolved answer1 [answer2] [outcome] .complete)

theorem visits_reach_second : (entry (final visit fresh
    (List.replicate 5 (watching none)++List.replicate 5 (watching (some 4)))) target).selected =
      some answer2 :=
  (visits_reach target {answer1,answer2} answer2 (by decide) fresh
    (List.replicate 5 (watching none)++List.replicate 5 (watching (some 4)))
    (by decide)).2.2 (by decide)

end Runs

end WireProbe.PluginOutage
