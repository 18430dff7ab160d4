import Mathlib.Algebra.Order.Ring.Int
import Mathlib.Data.List.Basic
import WireProbe.Transitions

/-!
# The accept loop over io_uring

The program pushes an accept, submits it, waits, drains the completions it
finds and pushes the next one. The kernel takes queued submissions while the
program is in a call, and completes an accept at any time.
-/

set_option autoImplicit false

namespace WireProbe.AcceptRing
open WireProbe.Transitions

/-! ### The ring -/

def acceptToken : ℕ := 1
def sqEntries : ℕ := 256
def sockCloexec : ℕ := 524288
def eagain : ℤ := 11
def ewouldblock : ℤ := 11
/-- `ACCEPT_ERROR_BACKOFF`, in milliseconds. -/
def acceptErrorBackoff : ℕ := 50

/-- `std::io::ErrorKind`, as far as this program tells kinds apart. -/
inductive ErrorKind where
  | interrupted
  | wouldBlock
  | other (kind : ℕ)
  deriving DecidableEq, Repr

structure Sqe where
  fd : ℤ
  flags : ℕ
  userData : ℕ
  deriving DecidableEq, Repr

structure Cqe where
  userData : ℕ
  result : ℤ
  deriving DecidableEq, Repr

/-- The number of an error of the operating system. -/
abbrev Errno := {n : ℤ // 0 < n ∧ n < 2147483648}

/-- What comes of one accept. -/
inductive Answer where
  | accepted (fd : ℕ)
  | failed (errno : Errno)
  deriving DecidableEq

def Answer.result : Answer → ℤ
  | .accepted fd => fd
  | .failed errno => -errno

inductive Event where
  | armed
  | delivered (result : ℤ)
  | closed (fd : ℤ)
  | closeWarning (fd errno : ℤ)
  | acceptWarning (errno : ℤ)
  | slept (millis : ℕ)
  deriving DecidableEq, Repr

/-! ### The program -/

/-- Where the program is. -/
inductive Pc where
  | push
  | submit
  | wait
  | completion
  | drain (batch : List Cqe) (rearm : Bool)
  | exited (e : ErrorKind)
  deriving DecidableEq, Repr

/-- The ring, and the accepted descriptors that are open. -/
structure State where
  pc : Pc
  sq : List Sqe
  kernel : List Sqe
  cq : List Cqe
  accepted : List ℤ
  log : List Event
  deriving DecidableEq, Repr

def start : State := ⟨.push,[],[],[],[],[]⟩

/-- The calls of the program with their answers, and the kernel's own step.
`close` is asked for an accepted descriptor only. -/
inductive Act where
  | push
  | submit (consumed : ℕ) (answer : Except ErrorKind Unit)
  | wait (consumed : ℕ) (answer : Except ErrorKind Unit)
  | completion
  | next (close : Except ℤ Unit)
  | finish
  | complete (i : ℕ) (answer : Answer)

def pushAccept (sq : List Sqe) (fd : ℤ) : Except ErrorKind (List Sqe) :=
  if sq.length < sqEntries then .ok (sq++[⟨fd,sockCloexec,acceptToken⟩]) else .error .wouldBlock

/-- `i32::saturating_neg`. -/
def saturatingNeg (n : ℤ) : ℤ := if n = -2147483648 then 2147483647 else -n

/-- What the loop does about one result. -/
def onResult (result : ℤ) (close : Except ℤ Unit) : List Event :=
  if 0 ≤ result then
    .closed result :: match close with
      | .ok () => []
      | .error errno => [.closeWarning result errno]
  else
    let errno := saturatingNeg result
    if errno ≠ eagain ∧ errno ≠ ewouldblock then
      [.acceptWarning errno,.slept acceptErrorBackoff]
    else []

/-- The kernel takes submissions off the queue. -/
def consume (s : State) (n : ℕ) : State :=
  { s with sq := s.sq.drop n, kernel := s.kernel++s.sq.take n }

def push (listenerFd : ℤ) (s : State) : State :=
  match pushAccept s.sq listenerFd with
  | .ok sq => { s with pc := .submit, sq := sq, log := s.log++[.armed] }
  | .error e => { s with pc := .exited e }

def submit (s : State) (consumed : ℕ) (answer : Except ErrorKind Unit) : State :=
  { consume s consumed with
    pc := match answer with
      | .ok () => .wait
      | .error e => .exited e }

def submitAndWait (s : State) (consumed : ℕ) (answer : Except ErrorKind Unit) : State :=
  { consume s consumed with
    pc := match answer with
      | .ok () => .completion
      | .error .interrupted => .wait
      | .error e => .exited e }

/-- One completion of the batch. -/
def handle (s : State) (cqe : Cqe) (rest : List Cqe) (rearm : Bool) (close : Except ℤ Unit) :
    State :=
  if cqe.userData = acceptToken then
    { s with
      pc := .drain rest true
      accepted := if 0 ≤ cqe.result then s.accepted.erase cqe.result else s.accepted
      log := s.log++onResult cqe.result close }
  else { s with pc := .drain rest rearm }

/-- The accept `sqe` completes: exactly one completion each. -/
def complete (s : State) (i : ℕ) (sqe : Sqe) (answer : Answer) : State :=
  { s with
    kernel := s.kernel.eraseIdx i
    cq := s.cq++[⟨sqe.userData,answer.result⟩]
    accepted := if 0 ≤ answer.result then s.accepted++[answer.result] else s.accepted
    log := s.log++[.delivered answer.result] }

def step (listenerFd : ℤ) (s : State) : Act → Option State
  | .push => if s.pc = .push then some (push listenerFd s) else none
  | .submit consumed answer =>
    if s.pc = .submit then some (submit s consumed answer) else none
  | .wait consumed answer =>
    if s.pc = .wait then some (submitAndWait s consumed answer) else none
  | .completion =>
    if s.pc = .completion then some { s with pc := .drain s.cq false, cq := [] } else none
  | .next close =>
    match s.pc with
    | .drain (cqe::rest) rearm => some (handle s cqe rest rearm close)
    | _ => none
  | .finish =>
    match s.pc with
    | .drain [] rearm => some { s with pc := if rearm then .push else .wait }
    | _ => none
  | .complete i answer => s.kernel[i]?.map fun sqe => complete s i sqe answer

/-- What an enabled action does, with its guard. -/
inductive Moves (listenerFd : ℤ) (s : State) : Act → State → Prop where
  | push (hpc : s.pc = .push) : Moves listenerFd s .push (push listenerFd s)
  | submit (hpc : s.pc = .submit) (consumed : ℕ) (answer : Except ErrorKind Unit) :
    Moves listenerFd s (.submit consumed answer) (submit s consumed answer)
  | wait (hpc : s.pc = .wait) (consumed : ℕ) (answer : Except ErrorKind Unit) :
    Moves listenerFd s (.wait consumed answer) (submitAndWait s consumed answer)
  | completion (hpc : s.pc = .completion) :
    Moves listenerFd s .completion { s with pc := .drain s.cq false, cq := [] }
  | next {cqe : Cqe} {rest : List Cqe} {rearm : Bool} (hpc : s.pc = .drain (cqe::rest) rearm)
    (close : Except ℤ Unit) : Moves listenerFd s (.next close) (handle s cqe rest rearm close)
  | finish {rearm : Bool} (hpc : s.pc = .drain [] rearm) :
    Moves listenerFd s .finish { s with pc := if rearm then .push else .wait }
  | complete {i : ℕ} {sqe : Sqe} (hsqe : s.kernel[i]? = some sqe) (answer : Answer) :
    Moves listenerFd s (.complete i answer) (complete s i sqe answer)

theorem step_moves {listenerFd : ℤ} {s s' : State} {a : Act} (h : step listenerFd s a = some s') :
    Moves listenerFd s a s' := by
  cases a with
  | push =>
    obtain ⟨hpc,hs⟩ := Option.ite_none_right_eq_some.mp h
    exact Option.some.inj hs ▸ .push hpc
  | submit consumed answer =>
    obtain ⟨hpc,hs⟩ := Option.ite_none_right_eq_some.mp h
    exact Option.some.inj hs ▸ .submit hpc consumed answer
  | wait consumed answer =>
    obtain ⟨hpc,hs⟩ := Option.ite_none_right_eq_some.mp h
    exact Option.some.inj hs ▸ .wait hpc consumed answer
  | completion =>
    obtain ⟨hpc,hs⟩ := Option.ite_none_right_eq_some.mp h
    exact Option.some.inj hs ▸ .completion hpc
  | next close =>
    simp only [step] at h
    split at h
    next cqe rest rearm hpc => exact Option.some.inj h ▸ .next hpc close
    next => cases h
  | finish =>
    simp only [step] at h
    split at h
    next rearm hpc => exact Option.some.inj h ▸ .finish hpc
    next => cases h
  | complete i answer =>
    obtain ⟨sqe,hsqe,hs⟩ := Option.map_eq_some_iff.mp h
    exact hs ▸ .complete hsqe answer

/-! ### What a run has logged -/

/-- The answer of one accept, and of the close of its descriptor. -/
structure Outcome where
  answer : Answer
  close : Except ℤ Unit

def acceptRound (o : Outcome) : List Event :=
  .armed::.delivered o.answer.result::onResult o.answer.result o.close

def rounds (os : List Outcome) : List Event := os.flatMap acceptRound

def Pc.batch : Pc → List Cqe
  | .drain batch _ => batch
  | _ => []

/-- How many accepts are between being pushed and being handled. -/
def Pc.outstanding : Pc → ℕ
  | .push => 0
  | .drain _ true => 0
  | _ => 1

theorem Pc.outstanding_le (pc : Pc) : pc.outstanding ≤ 1 := by
  unfold Pc.outstanding
  split <;> simp

/-- The completions that are not handled yet. -/
def State.pending (s : State) : List Cqe := s.pc.batch++s.cq

/-- The part of the round that is under way. -/
def State.opened (s : State) : List Event :=
  if s.pc.outstanding = 0 then [] else .armed::s.pending.map fun cqe => .delivered cqe.result

theorem opened_eq {s : State} (h : s.pc.outstanding = 1) :
    s.opened = .armed::s.pending.map fun cqe => .delivered cqe.result :=
  if_neg (h ▸ one_ne_zero)

structure Inv (s : State) : Prop where
  sqes : ∀ sqe ∈ s.sq++s.kernel, sqe.userData = acceptToken
  cqes : ∀ cqe ∈ s.pending, ∃ answer : Answer, cqe = ⟨acceptToken,answer.result⟩
  load : s.sq.length+s.kernel.length+s.pending.length = s.pc.outstanding
  log : ∃ os, s.log = rounds os++s.opened
  accepted : s.accepted = (s.pending.map Cqe.result).filter (0 ≤ ·)

theorem inv_start : Inv start :=
  ⟨by simp [start],by simp [start, State.pending, Pc.batch],rfl,⟨[],rfl⟩,rfl⟩

theorem Inv.push {s : State} (h : Inv s) (hpc : s.pc = .push) (fd : ℤ) :
    pushAccept s.sq fd = .ok [⟨fd,sockCloexec,acceptToken⟩] ∧ Inv (push fd s) := by
  obtain ⟨pc,sq,kernel,cq,accepted,log⟩ := s
  obtain rfl : pc = .push := hpc
  obtain ⟨-,-,hload,⟨os,hlog⟩,haccepted⟩ := h
  simp only [State.pending, Pc.batch, Pc.outstanding, List.nil_append, Nat.add_eq_zero_iff,
    List.length_eq_zero_iff] at hload
  obtain ⟨⟨rfl,rfl⟩,rfl⟩ := hload
  simp only [State.opened, Pc.outstanding, if_true, List.append_nil] at hlog
  refine ⟨rfl,?_⟩
  constructor
  · simp [AcceptRing.push, pushAccept, sqEntries]
  · simp [AcceptRing.push, pushAccept, sqEntries, State.pending, Pc.batch]
  · rfl
  · refine ⟨os,?_⟩
    rw [← hlog]
    rfl
  · exact haccepted

/-- A call moves submissions to the kernel and changes nothing else. -/
theorem Inv.consume {s : State} (h : Inv s) (n : ℕ) (pc : Pc) (hbatch : pc.batch = s.pc.batch)
    (hout : pc.outstanding = s.pc.outstanding) : Inv {AcceptRing.consume s n with pc := pc} := by
  have hpending : State.pending {AcceptRing.consume s n with pc := pc} = s.pending :=
    congrArg (·++s.cq) hbatch
  obtain ⟨hsqes,hcqes,hload,hlog,haccepted⟩ := h
  constructor
  · intro sqe hsqe
    apply hsqes
    simp only [AcceptRing.consume, List.mem_append] at hsqe ⊢
    rcases hsqe with hdrop | hkernel | htake
    · exact .inl (List.mem_of_mem_drop hdrop)
    · exact .inr hkernel
    · exact .inl (List.mem_of_mem_take htake)
  · rwa [hpending]
  · rw [hpending]
    simp only [AcceptRing.consume, List.length_append, List.length_drop, List.length_take]
    rw [hout, ← hload]
    omega
  · rw [State.opened, hpending]
    simp only [hout]
    exact hlog
  · rwa [hpending]

theorem Inv.submit {s : State} (h : Inv s) (hpc : s.pc = .submit) (n : ℕ)
    (answer : Except ErrorKind Unit) : Inv (submit s n answer) := by
  apply h.consume
  · rw [hpc]
    cases answer <;> rfl
  · rw [hpc]
    cases answer <;> rfl

theorem Inv.submitAndWait {s : State} (h : Inv s) (hpc : s.pc = .wait) (n : ℕ)
    (answer : Except ErrorKind Unit) : Inv (submitAndWait s n answer) := by
  apply h.consume
  · rw [hpc]
    rcases answer with (_ | _ | _) | _ <;> rfl
  · rw [hpc]
    rcases answer with (_ | _ | _) | _ <;> rfl

theorem Inv.completion {s : State} (h : Inv s) (hpc : s.pc = .completion) :
    Inv {s with pc := .drain s.cq false, cq := []} := by
  obtain ⟨pc,sq,kernel,cq,accepted,log⟩ := s
  obtain rfl : pc = .completion := hpc
  have hpending : State.pending ⟨.drain cq false,sq,kernel,[],accepted,log⟩ =
      State.pending ⟨.completion,sq,kernel,cq,accepted,log⟩ := List.append_nil cq
  obtain ⟨hsqes,hcqes,hload,hlog,haccepted⟩ := h
  constructor
  · exact hsqes
  · rwa [hpending]
  · rwa [hpending]
  · rw [State.opened, hpending]
    exact hlog
  · rwa [hpending]

/-- A drained completion is the only one, and the accept of its round. -/
theorem Inv.handle {s : State} (h : Inv s) {cqe : Cqe} {rest : List Cqe} {rearm : Bool}
    (hpc : s.pc = .drain (cqe::rest) rearm) (close : Except ℤ Unit) :
    Inv (handle s cqe rest rearm close) := by
  obtain ⟨pc,sq,kernel,cq,accepted,log⟩ := s
  obtain rfl : pc = .drain (cqe::rest) rearm := hpc
  obtain ⟨-,hcqes,hload,⟨os,hlog⟩,haccepted⟩ := h
  simp only [State.pending, Pc.batch, List.cons_append, List.length_cons] at hload hcqes haccepted
  cases rearm with
  | true => simp [Pc.outstanding] at hload
  | false =>
    simp only [Pc.outstanding, Nat.add_eq_right, ← Nat.add_assoc] at hload
    simp only [Nat.add_eq_zero_iff, List.length_eq_zero_iff, List.length_append] at hload
    obtain ⟨⟨rfl,rfl⟩,rfl,rfl⟩ := hload
    obtain ⟨answer,rfl⟩ := hcqes cqe List.mem_cons_self
    have hlog' : log = rounds os++[.armed,.delivered answer.result] := hlog
    simp only [AcceptRing.handle, if_true]
    constructor
    · simp
    · simp [State.pending, Pc.batch]
    · rfl
    · refine ⟨os++[⟨answer,close⟩],?_⟩
      simp [hlog', rounds, acceptRound, State.opened, Pc.outstanding]
    · by_cases hresult : 0 ≤ answer.result
      · simp [haccepted, hresult, State.pending, Pc.batch]
      · simp [haccepted, hresult, State.pending, Pc.batch]

theorem Inv.finish {s : State} (h : Inv s) {rearm : Bool} (hpc : s.pc = .drain [] rearm) :
    Inv {s with pc := if rearm then .push else .wait} := by
  obtain ⟨pc,sq,kernel,cq,accepted,log⟩ := s
  obtain rfl : pc = .drain [] rearm := hpc
  obtain ⟨hsqes,hcqes,hload,hlog,haccepted⟩ := h
  cases rearm with
  | true => exact ⟨hsqes,hcqes,hload,hlog,haccepted⟩
  | false => exact ⟨hsqes,hcqes,hload,hlog,haccepted⟩

theorem Inv.complete {s : State} (h : Inv s) {i : ℕ} {sqe : Sqe} (hsqe : s.kernel[i]? = some sqe)
    (answer : Answer) : Inv (complete s i sqe answer) := by
  obtain ⟨pc,sq,kernel,cq,accepted,log⟩ := s
  obtain ⟨hsqes,-,hload,⟨os,hlog⟩,haccepted⟩ := h
  obtain ⟨hi,-⟩ := List.getElem?_eq_some_iff.mp hsqe
  have hout := pc.outstanding_le
  have hone : kernel.length = 1 ∧ sq = [] ∧ State.pending ⟨pc,sq,kernel,cq,accepted,log⟩ = [] ∧
      pc.outstanding = 1 := by
    simp only at hload hi ⊢
    rw [← List.length_eq_zero_iff, ← List.length_eq_zero_iff]
    omega
  obtain ⟨hkernel,rfl,hpending,hpc⟩ := hone
  obtain ⟨sqe',rfl⟩ := List.length_eq_one_iff.mp hkernel
  obtain rfl : i = 0 := Nat.lt_one_iff.mp hi
  obtain rfl : sqe' = sqe := Option.some.inj hsqe
  obtain ⟨hbatch,rfl⟩ := List.append_eq_nil_iff.mp hpending
  have htoken : sqe'.userData = acceptToken := hsqes sqe' (by simp)
  have hpending' : State.pending (AcceptRing.complete ⟨pc,[],[sqe'],[],accepted,log⟩ 0 sqe' answer) =
      [⟨acceptToken,answer.result⟩] := by
    simp only [State.pending, AcceptRing.complete, hbatch, htoken, List.nil_append]
  constructor
  · simp [AcceptRing.complete]
  · rw [hpending']
    exact fun cqe hcqe => ⟨answer,List.mem_singleton.mp hcqe⟩
  · rw [hpending']
    exact hpc.symm
  · refine ⟨os,?_⟩
    rw [opened_eq hpc, hpending] at hlog
    rw [opened_eq (s := AcceptRing.complete ⟨pc,[],[sqe'],[],accepted,log⟩ 0 sqe' answer) hpc, hpending']
    calc log++[.delivered answer.result]
        = rounds os++[.armed]++[.delivered answer.result] := congrArg (·++_) hlog
      _ = rounds os++[.armed,.delivered answer.result] := List.append_assoc ..
  · rw [hpending']
    rw [hpending] at haccepted
    obtain rfl : accepted = [] := haccepted
    by_cases hresult : 0 ≤ answer.result
    · simp [AcceptRing.complete, hresult]
    · simp [AcceptRing.complete, hresult]

theorem Inv.step {listenerFd : ℤ} {s s' : State} {a : Act} (h : Inv s)
    (hstep : step listenerFd s a = some s') : Inv s' := by
  cases step_moves hstep with
  | push hpc => exact (h.push hpc listenerFd).2
  | submit hpc consumed answer => exact h.submit hpc consumed answer
  | wait hpc consumed answer => exact h.submitAndWait hpc consumed answer
  | completion hpc => exact h.completion hpc
  | next hpc close => exact h.handle hpc close
  | finish hpc => exact h.finish hpc
  | complete hsqe answer => exact h.complete hsqe answer

theorem inv_reachable {listenerFd : ℤ} {s : State} (h : Reachable (step listenerFd) start s) :
    Inv s :=
  h.invariant (fun _ _ _ hs hstep => hs.step hstep) inv_start

/-! ### One slot for accepts -/

/-- What the ring is for: one accept at a time, whose descriptor is closed
before the next. -/
inductive Slot where
  | idle
  | armed
  | held (fd : ℤ)
  deriving DecidableEq, Repr

def Slot.next : Slot → Event → Option Slot
  | .idle, .armed => some .armed
  | _, .armed => none
  | .armed, .delivered result => some (if 0 ≤ result then .held result else .idle)
  | _, .delivered _ => none
  | .held fd, .closed fd' => if fd = fd' then some .idle else none
  | _, .closed _ => none
  | slot, _ => some slot

def Slot.holds (fd : ℤ) (slot : Slot) : ℕ := if slot = .held fd then 1 else 0

theorem slot_round (o : Outcome) : run Slot.next .idle (acceptRound o) = some .idle := by
  obtain ⟨answer,close⟩ := o
  cases answer with
  | accepted fd =>
    have hfd : 0 ≤ (Answer.accepted fd).result := Int.natCast_nonneg fd
    cases close <;> simp [acceptRound, onResult, hfd, Slot.next]
  | failed errno =>
    have herrno : ¬ 0 ≤ (Answer.failed errno).result := by
      have hpos := errno.2.1
      simp only [Answer.result]
      omega
    simp only [acceptRound, onResult, if_neg herrno]
    split_ifs <;> simp [Slot.next, herrno]

theorem slot_rounds (os : List Outcome) : run Slot.next .idle (rounds os) = some .idle := by
  induction os with
  | nil => rfl
  | cons o os ih =>
    rw [rounds, List.flatMap_cons, run_append, slot_round]
    exact ih

/-- The log of a reachable state is a history of the slot. -/
theorem Inv.slot {s : State} (h : Inv s) : ∃ slot, run Slot.next .idle s.log = some slot ∧
    (s.pc.outstanding = 0 → slot = .idle) := by
  obtain ⟨os,hlog⟩ := h.log
  rw [hlog, run_append, slot_rounds, Option.bind_some]
  by_cases hout : s.pc.outstanding = 0
  · exact ⟨.idle,by rw [State.opened, if_pos hout]; rfl,fun _ => rfl⟩
  · have hpending : s.pending.length ≤ 1 := by
      have hload := h.load
      have hone := s.pc.outstanding_le
      omega
    rw [State.opened, if_neg hout]
    match s.pending, hpending with
    | [], _ => exact ⟨.armed,rfl,fun h => absurd h hout⟩
    | [cqe], _ => exact ⟨_,rfl,fun h => absurd h hout⟩

theorem slot_count {fd : ℤ} (hfd : 0 ≤ fd) {es : List Event} {slot slot' : Slot}
    (h : run Slot.next slot es = some slot') :
    es.count (.closed fd)+slot'.holds fd = es.count (.delivered fd)+slot.holds fd := by
  induction es generalizing slot with
  | nil => simp_all
  | cons e es ih =>
    obtain ⟨mid,hmid,hrest⟩ := Option.bind_eq_some_iff.mp h
    have htail := ih hrest
    have hhead : (if e = .closed fd then 1 else 0)+mid.holds fd =
        (if e = .delivered fd then 1 else 0)+slot.holds fd := by
      cases e with
      | armed =>
        cases slot with
        | idle =>
          obtain rfl := Option.some.inj hmid
          simp [Slot.holds]
        | armed => cases hmid
        | held other => cases hmid
      | delivered result =>
        cases slot with
        | armed =>
          obtain rfl := Option.some.inj hmid
          by_cases hresult : 0 ≤ result
          · simp [Slot.holds, hresult]
          · simp [Slot.holds, hresult, show result ≠ fd by omega]
        | idle => cases hmid
        | held other => cases hmid
      | closed other =>
        cases slot with
        | held own =>
          obtain ⟨rfl,hidle⟩ := Option.ite_none_right_eq_some.mp hmid
          obtain rfl := Option.some.inj hidle
          simp [Slot.holds]
        | idle => cases hmid
        | armed => cases hmid
      | closeWarning other errno => cases slot <;> simp_all [Slot.next, Slot.holds]
      | acceptWarning errno => cases slot <;> simp_all [Slot.next, Slot.holds]
      | slept millis => cases slot <;> simp_all [Slot.next, Slot.holds]
    simp only [List.count_cons, beq_iff_eq]
    omega

theorem not_delivered {es : List Event} {slot slot' : Slot} (hslot : slot ≠ .armed)
    (harmed : .armed ∉ es) (h : run Slot.next slot es = some slot') (result : ℤ) :
    .delivered result ∉ es := by
  induction es generalizing slot with
  | nil => exact List.not_mem_nil
  | cons e es ih =>
    obtain ⟨mid,hmid,hrest⟩ := Option.bind_eq_some_iff.mp h
    rw [List.mem_cons, not_or] at harmed ⊢
    constructor
    · rintro rfl
      cases slot with
      | armed => exact hslot rfl
      | idle => cases hmid
      | held fd => cases hmid
    · refine ih ?_ harmed.2 hrest
      rintro rfl
      cases slot with
      | armed => exact hslot rfl
      | idle => cases e <;> simp_all [Slot.next]
      | held fd => cases e <;> simp_all [Slot.next]

/-- Between the delivery of a descriptor and the next accept, it is closed once. -/
theorem closed_once {fd : ℤ} (hfd : 0 ≤ fd) {before between after : List Event} {slot slot' : Slot}
    (h : run Slot.next slot (before++.delivered fd::between++.armed::after) = some slot')
    (harmed : .armed ∉ between) : between.count (.closed fd) = 1 := by
  rw [List.append_assoc] at h
  obtain ⟨mid,-,hrest⟩ := run_split h
  obtain ⟨held,hheld,hrest⟩ := Option.bind_eq_some_iff.mp hrest
  obtain rfl : held = .held fd := by
    cases mid with
    | armed => exact (Option.some.inj hheld).symm.trans (if_pos hfd)
    | idle => cases hheld
    | held other => cases hheld
  obtain ⟨last,hbetween,hlast⟩ := run_split hrest
  obtain rfl : last = .idle := by
    cases last with
    | idle => rfl
    | armed => cases hlast
    | held other => cases hlast
  have hcount := slot_count hfd hbetween
  rw [List.count_eq_zero.mpr (not_delivered (by simp) harmed hbetween fd)] at hcount
  simpa [Slot.holds] using hcount

/-- At every `submit_and_wait` exactly one accept is alive; a push never meets a
full queue; a delivered descriptor is closed once, before the next accept; and
an interrupted wait goes on with every completion still there. -/
theorem one_accept_alive (listenerFd : ℤ) (s : State)
    (h : Reachable (step listenerFd) start s) :
    (s.pc = .wait → s.sq.length+s.kernel.length+s.cq.length = 1) ∧
    (s.pc = .push → ∃ sq, pushAccept s.sq listenerFd = .ok sq) ∧
    (∀ before fd between after, s.log = before++.delivered fd::between++.armed::after → 0 ≤ fd →
      .armed ∉ between → between.count (.closed fd) = 1) ∧
    (∀ fd, 0 ≤ fd → s.log.count (.closed fd) ≤ s.log.count (.delivered fd) ∧
      (s.pc = .push → s.log.count (.closed fd) = s.log.count (.delivered fd))) ∧
    (s.pc = .push → s.accepted = []) ∧
    ∀ consumed s', step listenerFd s (.wait consumed (.error .interrupted)) = some s' →
      s'.pc = .wait ∧ s'.cq = s.cq ∧ s'.sq.length+s'.kernel.length+s'.cq.length = 1 := by
  have hwait : ∀ t, Inv t → t.pc = .wait → t.sq.length+t.kernel.length+t.cq.length = 1 := by
    intro t ht hpc
    have hload := ht.load
    rwa [State.pending, hpc] at hload
  have hinv := inv_reachable h
  obtain ⟨slot,hslot,hidle⟩ := hinv.slot
  refine ⟨hwait s hinv,?_,?_,?_,?_,?_⟩
  · intro hpc
    exact ⟨_,(hinv.push hpc listenerFd).1⟩
  · intro before fd between after hlog hfd harmed
    exact closed_once hfd (hlog ▸ hslot) harmed
  · intro fd hfd
    have hcount := slot_count hfd hslot
    simp only [Slot.holds, reduceCtorEq, if_false, Nat.add_zero] at hcount
    constructor
    · omega
    · intro hpc
      rw [hidle (hpc ▸ rfl)] at hcount
      simpa using hcount
  · intro hpc
    have hload := hinv.load
    rw [hpc] at hload
    have hpending : s.pending = [] := List.length_eq_zero_iff.mp (Nat.add_eq_zero_iff.mp hload).2
    rw [hinv.accepted, hpending]
    rfl
  · intro consumed s' hstep
    cases step_moves hstep with
    | wait hpc => exact ⟨rfl,rfl,hwait _ (hinv.step hstep) rfl⟩

/-- One connection, with an interrupted wait before it is accepted. -/
def connection : List Act :=
  [.push,.submit 0 (.ok ()),.wait 1 (.error .interrupted),.complete 0 (.accepted 7),.wait 0 (.ok ()),
    .completion,.next (.ok ()),.finish]

theorem one_accept_alive_connection : ∃ s, run (step 3) start connection = some s ∧
    s.accepted = [] ∧ s.log.count (.closed 7) = s.log.count (.delivered 7) := by
  obtain ⟨-,-,-,hcount,hopen,-⟩ := one_accept_alive 3 _ ⟨connection,rfl⟩
  exact ⟨_,rfl,hopen rfl,(hcount 7 (by decide)).2 rfl⟩

end WireProbe.AcceptRing
