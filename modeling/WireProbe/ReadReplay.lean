import WireProbe.ReadRounds

/-!
# Reading a log back

The log of the read callback determines the rotation state of every target: its
own resolutions and recorded outcomes, replayed in order. It also determines
where each handshake had to go, and says where a pass fell short.
-/

set_option autoImplicit false

namespace WireProbe.ReadReplay
open WireProbe.Effect WireProbe.PluginConfig WireProbe.GetAddrInfo WireProbe.PluginRead
open WireProbe.PluginRotation WireProbe.Transducer WireProbe.StarvedVisits WireProbe.ReadRounds

variable {σ : Type}

/-! ### The replay -/

/-- What a reader of the log keeps: the dictionary, and the answer that the next
recorded outcome is about. -/
structure Ledger where
  addrState : AddrState StateKey AddrInfo
  answer : Option (List AddrInfo)

def Ledger.read (l : Ledger) : Label → Ledger
  | .resolve key (.ok answer) => ⟨(PluginRotation.preferredAddress l.addrState key answer).1,answer⟩
  | .record key ok => ⟨(PluginRotation.recordOutcome l.addrState key l.answer ok).1,l.answer⟩
  | _ => l

def replay (st : AddrState StateKey AddrInfo) (ls : List Label) : AddrState StateKey AddrInfo :=
  (ls.foldl Ledger.read ⟨st,none⟩).addrState

/-- The entries of the log that name a target. -/
def names (key : StateKey) : Label → Bool
  | .resolve key' _ => key' = key
  | .record key' _ => key' = key
  | _ => false

/-- The entries that name no target: the reader passes over them. -/
def Plainly (l : Label) : Prop := ∀ key, names key l = false

theorem read_plainly {ls : List Label} (h : ∀ x ∈ ls, Plainly x) (l : Ledger) :
    ls.foldl Ledger.read l = l := by
  induction ls with
  | nil => rfl
  | cons x ls ih =>
    obtain ⟨hx,hls⟩ := List.forall_mem_cons.mp h
    have hread : l.read x = l := by
      cases x with
      | resolve key answer => exact absurd (hx key) (by simp [names])
      | record key ok => exact absurd (hx key) (by simp [names])
      | handshake addr rtt => rfl
      | warning message => rfl
      | dispatch typeInstance type value => rfl
    rw [List.foldl_cons, hread, ih hls]

theorem filter_plainly {ls : List Label} (h : ∀ x ∈ ls, Plainly x) (key : StateKey) :
    ls.filter (names key) = [] :=
  List.filter_eq_nil_iff.mpr fun x hx => by simp [h x hx key]

theorem values_plainly (cfg : Config) (host : HostEntry) (dropped : Reading) (samples : List ℚ) :
    ∀ x ∈ values cfg host dropped samples, Plainly x := by
  simp [values, Plainly, names]

theorem tried_plainly (addr : AddrInfo) (outcomes : List (Option ℚ)) (cut : Cut) :
    ∀ x ∈ tried addr outcomes cut, Plainly x := by
  intro x hx
  rcases List.mem_append.mp hx with hx | hx
  · obtain ⟨o,-,rfl⟩ := List.mem_map.mp hx
    exact fun _ => rfl
  · cases cut with
    | complete => exact absurd hx List.not_mem_nil
    | exhausted =>
      obtain rfl := List.mem_singleton.mp hx
      exact fun _ => rfl
    | raised e =>
      obtain rfl := List.mem_singleton.mp hx
      exact fun _ => rfl

theorem rotations_plainly (key : StateKey) (rotated : Option AddrInfo) :
    ∀ x ∈ rotations key rotated, Plainly x := by
  cases rotated <;> simp [rotations, Plainly, names]

/-- The entries past the recorded outcome of a visit. -/
def closing (cfg : Config) (host : HostEntry) (rotated : Option AddrInfo) (dropped : Reading)
    (samples : List ℚ) : List Label :=
  rotations (stateKey cfg.defaultPort host) rotated++values cfg host dropped samples

theorem closing_plainly (cfg : Config) (host : HostEntry) (rotated : Option AddrInfo)
    (dropped : Reading) (samples : List ℚ) : ∀ x ∈ closing cfg host rotated dropped samples,
      Plainly x :=
  List.forall_mem_append.mpr ⟨rotations_plainly _ rotated,values_plainly cfg host dropped samples⟩

/-- A visit as its entries that name the target, with plain ones in between. -/
inductive Shape (st : AddrState StateKey AddrInfo) (cfg : Config) (host : HostEntry) :
    Round → AddrState StateKey AddrInfo → List Label → Prop where
  | failed (e : Failure) :
    Shape st cfg host (.failed e) st [.resolve (stateKey cfg.defaultPort host) (.error e)]
  | unresolved :
    Shape st cfg host .unresolved st (.resolve (stateKey cfg.defaultPort host) (.ok none)::
      [.warning (unresolvedWarning host.hostname)]++
      .record (stateKey cfg.defaultPort host) false::closing cfg host none (.num 1) [])
  | raised {first : AddrInfo} {rest : List AddrInfo} {outcomes : List (Option ℚ)} {e : Failure} :
    Shape st cfg host (.resolved first rest outcomes (.raised e))
      (PluginRotation.preferredAddress st (stateKey cfg.defaultPort host) (some (first::rest))).1
      (.resolve (stateKey cfg.defaultPort host) (.ok (some (first::rest)))::
        tried (chosen st (stateKey cfg.defaultPort host) first rest) outcomes (.raised e))
  | finished {first : AddrInfo} {rest : List AddrInfo} {outcomes : List (Option ℚ)} {cut : Cut}
    {rotated : Option AddrInfo} (hcut : cut.failure = none) :
    Shape st cfg host (.resolved first rest outcomes cut)
      (PluginRotation.recordOutcome (PluginRotation.preferredAddress st
        (stateKey cfg.defaultPort host) (some (first::rest))).1 (stateKey cfg.defaultPort host)
        (some (first::rest)) (succeeded outcomes)).1
      (.resolve (stateKey cfg.defaultPort host) (.ok (some (first::rest)))::
        tried (chosen st (stateKey cfg.defaultPort host) first rest) outcomes cut++
        .record (stateKey cfg.defaultPort host) (succeeded outcomes)::
          closing cfg host rotated (loss outcomes) outcomes.reduceOption)

theorem visit_shape (st : AddrState StateKey AddrInfo) (cfg : Config) (host : HostEntry)
    (round : Round) : Shape st cfg host round (visit st (cfg,host,round)).1
      (visit st (cfg,host,round)).2 := by
  cases round with
  | failed e => exact .failed e
  | unresolved => exact .unresolved
  | resolved first rest outcomes cut =>
    cases cut with
    | complete => exact .finished rfl
    | exhausted => exact .finished rfl
    | raised e => exact .raised

/-! ### A target's own entries -/

theorem preferredAddress_congr {st st' : AddrState StateKey AddrInfo} {key : StateKey}
    (h : st key = st' key) (addrs : Option (List AddrInfo)) :
    (PluginRotation.preferredAddress st key addrs).1 key =
      (PluginRotation.preferredAddress st' key addrs).1 key := by
  have hentry : entry st key = entry st' key := congrArg (·.getD ⟨none,0⟩) h
  match addrs with
  | none => exact h
  | some [] => exact h
  | some (first::rest) =>
    simp only [PluginRotation.preferredAddress, hentry, store, Function.update_self]

theorem recordOutcome_congr {st st' : AddrState StateKey AddrInfo} {key : StateKey}
    (h : st key = st' key) (addrs : Option (List AddrInfo)) (ok : Bool) :
    (PluginRotation.recordOutcome st key addrs ok).1 key =
      (PluginRotation.recordOutcome st' key addrs ok).1 key := by
  have hentry : entry st key = entry st' key := congrArg (·.getD ⟨none,0⟩) h
  match addrs with
  | none => exact h
  | some [] => exact h
  | some (first::rest) =>
    simp only [PluginRotation.recordOutcome, hentry]
    split_ifs <;> simp [store]

/-- Whatever the readers held before, after a visit both hold its dictionary
under the key. -/
theorem visit_read (st : AddrState StateKey AddrInfo) (v : Config × HostEntry × Round)
    (answer : Option (List AddrInfo)) :
    ((visit st v).2.foldl Ledger.read ⟨st,answer⟩).addrState = (visit st v).1 := by
  obtain ⟨cfg,host,round⟩ := v
  generalize hst : (visit st (cfg,host,round)).1 = st'
  generalize hls : (visit st (cfg,host,round)).2 = ls
  have hshape := visit_shape st cfg host round
  rw [hst, hls] at hshape
  cases hshape with
  | failed e => rfl
  | unresolved =>
    simp only [List.foldl_cons, List.foldl_append, List.foldl_nil, Ledger.read,
      read_plainly (closing_plainly _ _ _ _ _)]
    rfl
  | raised => simp only [List.foldl_cons, read_plainly (tried_plainly _ _ _), Ledger.read]
  | finished hcut =>
    simp only [List.foldl_cons, List.foldl_append, read_plainly (tried_plainly _ _ _),
      read_plainly (closing_plainly _ _ _ _ _), Ledger.read]

theorem names_resolve {key key' : StateKey} (answer : Except Failure (Option (List AddrInfo))) :
    names key (.resolve key' answer) = decide (key' = key) := rfl

theorem names_record {key key' : StateKey} (ok : Bool) :
    names key (.record key' ok) = decide (key' = key) := rfl

/-- A visit names its own target only, and leaves the other entries alone. -/
theorem visit_filter_other (st : AddrState StateKey AddrInfo) (cfg : Config) (host : HostEntry)
    (round : Round) {key : StateKey} (h : stateKey cfg.defaultPort host ≠ key) :
    (visit st (cfg,host,round)).2.filter (names key) = [] ∧
      (visit st (cfg,host,round)).1 key = st key := by
  generalize hst : (visit st (cfg,host,round)).1 = st'
  generalize hls : (visit st (cfg,host,round)).2 = ls
  have hshape := visit_shape st cfg host round
  rw [hst, hls] at hshape
  cases hshape with
  | failed e => simp [names_resolve, h]
  | unresolved =>
    simp [h, filter_plainly (closing_plainly _ _ _ _ _), names]
  | raised =>
    refine ⟨?_,preferredAddress_other _ h.symm _⟩
    simp [names_resolve, h, filter_plainly (tried_plainly _ _ _)]
  | finished hcut =>
    refine ⟨?_,(recordOutcome_other _ h.symm _ _).trans (preferredAddress_other _ h.symm _)⟩
    simp [names_resolve, names_record, h, filter_plainly (tried_plainly _ _ _),
      filter_plainly (closing_plainly _ _ _ _ _)]

/-- Of a visit to the target itself a reader needs the naming entries only. -/
theorem visit_filter_own (st st' : AddrState StateKey AddrInfo) (cfg : Config) (host : HostEntry)
    (round : Round) (answer : Option (List AddrInfo))
    (hst : st (stateKey cfg.defaultPort host) = st' (stateKey cfg.defaultPort host)) :
    (((visit st (cfg,host,round)).2.filter (names (stateKey cfg.defaultPort host))).foldl
      Ledger.read ⟨st',answer⟩).addrState (stateKey cfg.defaultPort host) =
        (visit st (cfg,host,round)).1 (stateKey cfg.defaultPort host) := by
  generalize hafter : (visit st (cfg,host,round)).1 = after
  generalize hls : (visit st (cfg,host,round)).2 = ls
  have hshape := visit_shape st cfg host round
  rw [hafter, hls] at hshape
  cases hshape with
  | failed e =>
    simp only [names_resolve, List.filter_cons, decide_true, if_true, List.filter_nil,
      List.foldl_cons, List.foldl_nil, Ledger.read]
    exact hst.symm
  | unresolved =>
    simp only [List.filter_append, List.filter_cons, decide_true, if_true,
      filter_plainly (closing_plainly _ _ _ _ _), names, List.foldl_cons, List.foldl_append,
      Ledger.read]
    exact hst.symm
  | raised =>
    simp only [names_resolve, List.filter_cons, decide_true, if_true,
      filter_plainly (tried_plainly _ _ _), List.foldl_cons, List.foldl_nil, Ledger.read]
    exact preferredAddress_congr hst.symm _
  | finished hcut =>
    simp only [List.filter_append, names_resolve, names_record, List.filter_cons, decide_true,
      if_true, filter_plainly (tried_plainly _ _ _), filter_plainly (closing_plainly _ _ _ _ _),
      List.foldl_cons, List.foldl_nil, List.foldl_append, Ledger.read]
    exact recordOutcome_congr (preferredAddress_congr hst.symm _) _ _

/-! ### Whole runs -/

/-- The stretches of a log that one visit or the end of one pass wrote. -/
def Stretched (key : StateKey) (st st' : AddrState StateKey AddrInfo) (ls : List Label) : Prop :=
  (∀ answer, (ls.foldl Ledger.read ⟨st,answer⟩).addrState = st') ∧
    ∀ st₀ answer, st key = st₀ key →
      ((ls.filter (names key)).foldl Ledger.read ⟨st₀,answer⟩).addrState key = st' key

theorem stretched_plainly (key : StateKey) (st : AddrState StateKey AddrInfo) {ls : List Label}
    (h : ∀ x ∈ ls, Plainly x) : Stretched key st st ls := by
  constructor
  · intro answer
    rw [read_plainly h]
  · intro st₀ answer hst
    rw [filter_plainly h]
    exact hst.symm

theorem Stretched.append {key : StateKey} {st st' st'' : AddrState StateKey AddrInfo}
    {ls ls' : List Label} (h : Stretched key st st' ls) (h' : Stretched key st' st'' ls') :
    Stretched key st st'' (ls++ls') := by
  constructor
  · intro answer
    have hread := h.1 answer
    rw [List.foldl_append]
    generalize ls.foldl Ledger.read ⟨st,answer⟩ = l at hread ⊢
    obtain ⟨st₁,answer₁⟩ := l
    obtain rfl : st₁ = st' := hread
    exact h'.1 answer₁
  · intro st₀ answer hst
    have hread := h.2 st₀ answer hst
    rw [List.filter_append, List.foldl_append]
    generalize (ls.filter (names key)).foldl Ledger.read ⟨st₀,answer⟩ = l at hread ⊢
    obtain ⟨st₁,answer₁⟩ := l
    exact h'.2 st₁ answer₁ hread.symm

theorem stretched_visit (key : StateKey) (st : AddrState StateKey AddrInfo)
    (v : Config × HostEntry × Round) : Stretched key st (visit st v).1 (visit st v).2 := by
  refine ⟨visit_read st v,?_⟩
  intro st₀ answer hst
  obtain ⟨cfg,host,round⟩ := v
  by_cases hkey : stateKey cfg.defaultPort host = key
  · subst hkey
    exact visit_filter_own st st₀ cfg host round answer hst
  · obtain ⟨hfilter,hother⟩ := visit_filter_other st cfg host round hkey
    rw [hfilter, hother]
    exact hst.symm

theorem stretched_visits (key : StateKey) (st : AddrState StateKey AddrInfo)
    (vs : List (Config × HostEntry × Round)) :
    Stretched key st (final visit st vs) (outputs visit st vs).flatten := by
  induction vs generalizing st with
  | nil => exact stretched_plainly key st fun x hx => absurd hx List.not_mem_nil
  | cons v vs ih => exact (stretched_visit key st v).append (ih _)

theorem ending_plainly (defaultPort : ℤ) (ending : Ending) :
    ∀ x ∈ ending.labels defaultPort, Plainly x := by
  cases ending <;> simp [Ending.labels, Plainly, names]

theorem stretched_passes (key : StateKey) (st : AddrState StateKey AddrInfo) (ps : List Pass) :
    Stretched key st (final passStep st ps) ((outputs passStep st ps).map Prod.fst).flatten := by
  induction ps generalizing st with
  | nil => exact stretched_plainly key st fun x hx => absurd hx List.not_mem_nil
  | cons p ps ih =>
    exact ((stretched_visits key st p.tagged).append (stretched_plainly key _
      (ending_plainly p.cfg.defaultPort p.ending))).append (ih _)

/-- After any number of passes the dictionary is the replay of what they logged,
and the entry of a target the replay of the log's entries that name it. -/
theorem entries_replay (run : List (Env σ × Config)) (w : World σ) : ∃ es,
    (passes run w).log = w.log++es ∧ (passes run w).addrState = replay w.addrState (labels es) ∧
      ∀ key, (passes run w).addrState key =
        replay w.addrState ((labels es).filter (names key)) key := by
  obtain ⟨ps,-,hst,⟨es,hlog,hlabels⟩,-⟩ := passes_follow run w
  refine ⟨es,hlog,?_,?_⟩
  · rw [hlabels, hst]
    exact ((stretched_passes ([],0) w.addrState ps).1 none).symm
  · intro key
    rw [hlabels, hst]
    exact ((stretched_passes key w.addrState ps).2 w.addrState none rfl).symm

/-! ### Where the handshakes go -/

/-- An element of a concatenation lies in one of its parts. -/
theorem append_split {α : Type} {xs ys before after : List α} {x : α}
    (h : xs++ys = before++x::after) :
    (∃ mid, xs = before++x::mid) ∨ ∃ mid, before = xs++mid ∧ ys = mid++x::after := by
  rcases List.append_eq_append_iff.mp h with ⟨mid,hbefore,hys⟩ | ⟨mid,hxs,hafter⟩
  · exact .inr ⟨mid,hbefore,hys⟩
  · cases mid with
    | nil => exact .inr ⟨[],by simpa using hxs.symm,by simpa using hafter.symm⟩
    | cons y mid =>
      obtain ⟨rfl,-⟩ := List.cons.inj hafter
      exact .inl ⟨mid,hxs⟩

theorem singleton_split {α : Type} {before after : List α} {x y : α} (h : [y] = before++x::after) :
    before = [] ∧ y = x := by
  cases before with
  | nil => exact ⟨rfl,(List.cons.inj h).1⟩
  | cons z before => simp at h

/-- Every handshake follows a resolution of its target, past handshakes with the
same address only, and goes to the address due under the answer: the stored one
if it is listed, or else the first. -/
def Aimed (l : Ledger) (ls : List Label) : Prop :=
  ∀ before addr rtt after, ls = before++.handshake addr rtt::after →
    ∃ earlier key first rest mid,
      before = earlier++.resolve key (.ok (some (first::rest)))::mid ∧
      (∀ x ∈ mid, ∃ o, x = .handshake addr (.ok o)) ∧
      due (earlier.foldl Ledger.read l).addrState key (first::rest) = some addr

def Silent (ls : List Label) : Prop := ∀ addr rtt, .handshake addr rtt ∉ ls

theorem aimed_silent {ls : List Label} (h : Silent ls) (l : Ledger) : Aimed l ls := by
  rintro before addr rtt after rfl
  exact absurd (List.mem_append_right before List.mem_cons_self) (h addr rtt)

theorem Aimed.append {l : Ledger} {ls ls' : List Label} (h : Aimed l ls)
    (h' : Aimed (ls.foldl Ledger.read l) ls') : Aimed l (ls++ls') := by
  intro before addr rtt after hsplit
  rcases append_split hsplit with ⟨mid,hls⟩ | ⟨mid,rfl,hls'⟩
  · exact h before addr rtt mid hls
  · obtain ⟨earlier,key,first,rest,between,rfl,hbetween,hdue⟩ := h' mid addr rtt after hls'
    refine ⟨ls++earlier,key,first,rest,between,(List.append_assoc _ _ _).symm,hbetween,?_⟩
    rwa [List.foldl_append]

theorem tried_split {addr addr' : AddrInfo} {outcomes : List (Option ℚ)} {cut : Cut}
    {rtt : Except Failure (Option ℚ)} {before after : List Label}
    (h : tried addr outcomes cut = before++.handshake addr' rtt::after) :
    addr' = addr ∧ ∀ x ∈ before, ∃ o, x = .handshake addr (.ok o) := by
  rcases append_split h with ⟨mid,hmap⟩ | ⟨mid,rfl,hcut⟩
  · obtain ⟨earlier,later,-,rfl,hlater⟩ := List.map_eq_append_iff.mp hmap
    obtain ⟨o,-,-,ho,-⟩ := List.map_eq_cons_iff.mp hlater
    refine ⟨(Label.handshake.inj ho).1.symm,?_⟩
    intro x hx
    obtain ⟨o',-,rfl⟩ := List.mem_map.mp hx
    exact ⟨o',rfl⟩
  · cases cut with
    | complete => simp [Cut.labels] at hcut
    | exhausted =>
      cases (singleton_split hcut).2
    | raised e =>
      obtain ⟨rfl,hraised⟩ := singleton_split hcut
      refine ⟨(Label.handshake.inj hraised).1.symm,?_⟩
      intro x hx
      rw [List.append_nil] at hx
      obtain ⟨o',-,rfl⟩ := List.mem_map.mp hx
      exact ⟨o',rfl⟩

theorem closing_silent (cfg : Config) (host : HostEntry) (rotated : Option AddrInfo)
    (dropped : Reading) (samples : List ℚ) : Silent (closing cfg host rotated dropped samples) := by
  intro addr rtt
  cases rotated <;> simp [closing, rotations, values]

/-- The handshakes right after a resolution. -/
theorem aimed_tried (l : Ledger) (key : StateKey) (first : AddrInfo) (rest : List AddrInfo)
    (outcomes : List (Option ℚ)) (cut : Cut) :
    Aimed l (.resolve key (.ok (some (first::rest)))::
      tried (chosen l.addrState key first rest) outcomes cut) := by
  intro before addr rtt after hsplit
  cases before with
  | nil => cases (List.cons.inj hsplit).1
  | cons x before =>
    obtain ⟨rfl,htried⟩ := List.cons.inj hsplit
    obtain ⟨rfl,hbefore⟩ := tried_split htried
    exact ⟨[],key,first,rest,before,rfl,hbefore,due_cons _ _ _ _⟩

theorem aimed_visit (l : Ledger) (v : Config × HostEntry × Round) :
    Aimed l (visit l.addrState v).2 := by
  obtain ⟨cfg,host,round⟩ := v
  generalize hls : (visit l.addrState (cfg,host,round)).2 = ls
  have hshape := visit_shape l.addrState cfg host round
  rw [hls] at hshape
  have hclosing := closing_silent cfg host
  generalize (visit l.addrState (cfg,host,round)).1 = st' at hshape
  cases hshape with
  | failed e => exact aimed_silent (by simp [Silent]) l
  | unresolved =>
    apply aimed_silent
    intro addr rtt
    simp [hclosing none (.num 1) [] addr rtt]
  | raised => exact aimed_tried l _ _ _ _ _
  | finished hcut =>
    apply (aimed_tried l _ _ _ _ _).append (aimed_silent _ _)
    intro addr rtt
    simp [hclosing _ _ _ addr rtt]

theorem aimed_visits (l : Ledger) (vs : List (Config × HostEntry × Round)) :
    Aimed l (outputs visit l.addrState vs).flatten := by
  induction vs generalizing l with
  | nil => exact aimed_silent (by simp [Silent]) l
  | cons v vs ih =>
    have h := ih ((visit l.addrState v).2.foldl Ledger.read l)
    rw [show l = ⟨l.addrState,l.answer⟩ from rfl, visit_read] at h
    exact (aimed_visit l v).append h

theorem aimed_passes (l : Ledger) (ps : List Pass) :
    Aimed l ((outputs passStep l.addrState ps).map Prod.fst).flatten := by
  induction ps generalizing l with
  | nil => exact aimed_silent (by simp [Silent]) l
  | cons p ps ih =>
    have hending : Silent (p.ending.labels p.cfg.defaultPort) := by
      intro addr rtt
      cases p.ending <;> simp [Ending.labels]
    have hread := (stretched_visits ([],0) l.addrState p.tagged).1 l.answer
    have h := ih ((passStep l.addrState p).2.1.foldl Ledger.read l)
    have hstate : ((passStep l.addrState p).2.1.foldl Ledger.read l).addrState =
        (passStep l.addrState p).1 := by
      rw [passStep, List.foldl_append, read_plainly (ending_plainly _ _)]
      exact hread
    rw [hstate] at h
    exact ((aimed_visits l p.tagged).append (aimed_silent hending _)).append h

/-- In every run of passes each handshake goes to one of the addresses that the
resolver answered for its target in the same visit: the one that the replay of
the log up to there has stored if it is among them, or else the first. -/
theorem handshakes_aimed (run : List (Env σ × Config)) (w : World σ) : ∃ es,
    (passes run w).log = w.log++es ∧ ∀ before addr rtt after,
      labels es = before++.handshake addr rtt::after → ∃ earlier key addrs mid,
        before = earlier++.resolve key (.ok (some addrs))::mid ∧
        (∀ x ∈ mid, ∃ o, x = .handshake addr (.ok o)) ∧ addr ∈ addrs ∧
        due (replay w.addrState earlier) key addrs = some addr := by
  obtain ⟨ps,-,-,⟨es,hlog,hlabels⟩,-⟩ := passes_follow run w
  refine ⟨es,hlog,?_⟩
  intro before addr rtt after hsplit
  rw [hlabels] at hsplit
  obtain ⟨earlier,key,first,rest,mid,rfl,hmid,hdue⟩ :=
    aimed_passes ⟨w.addrState,none⟩ ps before addr rtt after hsplit
  have haddr := hdue
  rw [due_cons, Option.some.injEq] at haddr
  exact ⟨earlier,key,first::rest,mid,rfl,hmid,haddr ▸ chosen_mem _ _ _ _,hdue⟩

end WireProbe.ReadReplay
