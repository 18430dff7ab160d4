import WireProbe.AddressRotation
import WireProbe.Telegraf

/-!
# The loop of the Rust probe

One cycle probes the address in use, exports one point and sleeps out the
interval; after five failed cycles in a row it resolves the target again and
rotates. The handshake, the resolver, the export and the stopwatch answer from
outside, and a cycle lists what it did.
-/

set_option autoImplicit false

namespace WireProbe.ProbeLoop
open WireProbe.Transducer WireProbe.AddressRotation WireProbe.Collectd

variable {α E R : Type*}

/-! ### The exporter -/

/-- `cli::ExportDst`. -/
inductive ExportDst where
  | telegrafUdp (addr : List Char)
  | collectdUds (path : List Char)
  | collectdExec
  deriving DecidableEq, Repr

inductive Exporter where
  | telegraf (e : Telegraf.TelegrafExporter)
  | collectd (s : Session)
  deriving DecidableEq, Repr

/-- The answers to the system calls of an exporter: those of the UDP socket,
and those of stdout or the Unix socket. -/
structure ExportIo where
  bind : Except ErrorKind Unit
  connectUdp : Except ErrorKind Unit
  sendUdp : Except ErrorKind Unit
  io : Io

def Exporter.new (dst : ExportDst) (targetName az hostname : List Char) (intervalSecs : ℕ)
    (io : ExportIo) : Except ErrorKind Exporter :=
  match dst with
  | .telegrafUdp _ => (Telegraf.new targetName az io.bind io.connectUdp).map .telegraf
  | .collectdUds path =>
    (newUds path hostname targetName intervalSecs io.io).map fun e => .collectd ⟨e,⟨[],[]⟩⟩
  | .collectdExec => .ok (.collectd ⟨newExec hostname targetName intervalSecs,⟨[],[]⟩⟩)

section Export
variable (ryu : R → Bytes)

def Exporter.send (x : Exporter) (rttMs : R) (tsNs : ℕ) (io : ExportIo) :
    Exporter × Except ErrorKind Unit :=
  match x with
  | .telegraf e =>
    let (e, sent) := Telegraf.send ryu e rttMs tsNs io.sendUdp
    (.telegraf e, sent)
  | .collectd s =>
    let (s, sent) := Collectd.send ryu s rttMs io.io
    (.collectd s, sent)

def Exporter.sendFailure (x : Exporter) (tsNs : ℕ) (io : ExportIo) :
    Exporter × Except ErrorKind Unit :=
  match x with
  | .telegraf e =>
    let (e, sent) := Telegraf.sendFailure ryu e tsNs io.sendUdp
    (.telegraf e, sent)
  | .collectd s =>
    let (s, sent) := Collectd.sendFailure ryu s io.io
    (.collectd s, sent)

/-- A call of the exporter. -/
inductive Report (R : Type*) where
  | send (rttMs : R) (tsNs : ℕ)
  | sendFailure (tsNs : ℕ)
  deriving DecidableEq, Repr

def Exporter.call (x : Exporter) (io : ExportIo) : Report R → Exporter × Except ErrorKind Unit
  | .send rttMs tsNs => x.send ryu rttMs tsNs io
  | .sendFailure tsNs => x.sendFailure ryu tsNs io

end Export

/-! ### Resolving again -/

inductive ResolveError (E : Type*) where
  | lookup (e : E)
  | noAddress
  deriving DecidableEq, Repr

/-- `resolve`, from the answer of `to_socket_addrs`. -/
def resolve (answer : Except E (List α)) : Except (ResolveError E) (List α) :=
  match answer with
  | .error e => .error (.lookup e)
  | .ok [] => .error .noAddress
  | .ok (addr::addrs) => .ok (addr::addrs)

/-- The lines `rotate_target` prints. -/
inductive Notice (α E : Type*) where
  | nowResolvesTo (addrs : List α)
  | tryingNext (current : α)
  | reresolvingFailed (e : ResolveError E)
  deriving DecidableEq, Repr

def reresolveAfterFailures : ℕ := 5

/-- What a cycle does, in order. -/
inductive Action (α E R : Type*) where
  | connect (addr : α)
  | probeError (e : E)
  | reresolve
  | notice (line : Notice α E)
  | exported (report : Report R) (sent : Except ErrorKind Unit)
  | stdoutClosed
  | exportError (kind : ErrorKind)
  | sleep (remaining : ℕ)
  | overranInterval (elapsed interval : ℕ)
  deriving DecidableEq

/-- The variables of `run_probe` that live across cycles. -/
structure Loop (α : Type*) where
  exporter : Exporter
  selection : Selection α
  overran : Bool
  failuresUntilReresolve : ℕ
  ended : Bool
  deriving DecidableEq, Repr

/-- What the outside answers in one cycle. `answer` is asked for only when the
target is resolved again; durations are in nanoseconds. -/
structure Tick (α E R : Type*) where
  tsNs : ℕ
  measured : Except E R
  answer : Except E (List α)
  io : ExportIo
  elapsed : ℕ

def pause (interval : ℕ) (l : Loop α) (elapsed : ℕ) : Loop α × List (Action α E R) :=
  if elapsed ≤ interval then (l, [.sleep (interval-elapsed)])
  else if l.overran then (l, [])
  else ({ l with overran := true }, [.overranInterval elapsed interval])

section Cycle
variable [LinearOrder α]

def rotateTarget (s : Selection α) (answer : Except E (List α)) :
    Selection α × List (Notice α E) :=
  match resolve answer with
  | .ok fresh =>
    let (s', outcome) := applyResolution s fresh
    (s', (if outcome.listChanged then [.nowResolvesTo s'.addrs] else []) ++
      (if outcome.moved then [.tryingNext s'.current] else []))
  | .error e => (s, [.reresolvingFailed e])

/-- The countdown of a failed cycle. -/
def countDown (l : Loop α) (answer : Except E (List α)) : Loop α × List (Action α E R) :=
  let left := l.failuresUntilReresolve-1
  if left = 0 then
    let (selection, notices) := rotateTarget l.selection answer
    ({ l with failuresUntilReresolve := reresolveAfterFailures, selection := selection },
      .reresolve :: notices.map .notice)
  else ({ l with failuresUntilReresolve := left }, [])

variable (ryu : R → Bytes)

/-- The two arms of the match on `measure_rtt`. -/
def report (l : Loop α) (t : Tick α E R) : Loop α × List (Action α E R) × Except ErrorKind Unit :=
  match t.measured with
  | .ok rttMs =>
    let (exporter, sent) := l.exporter.send ryu rttMs t.tsNs t.io
    ({ l with failuresUntilReresolve := reresolveAfterFailures, exporter := exporter },
      [.exported (.send rttMs t.tsNs) sent], sent)
  | .error e =>
    let (l, actions) := countDown l t.answer
    let (exporter, sent) := l.exporter.sendFailure ryu t.tsNs t.io
    ({ l with exporter := exporter },
      .probeError e :: actions ++ [.exported (.sendFailure t.tsNs) sent], sent)

def cycle (dst : ExportDst) (interval : ℕ) (l : Loop α) (t : Tick α E R) :
    Loop α × List (Action α E R) :=
  let addr := l.selection.current
  let (l, actions, sent) := report ryu l t
  let actions := .connect addr :: actions
  match sent with
  | .ok () =>
    let (l, rest) := pause interval l t.elapsed
    (l, actions++rest)
  | .error kind =>
    if kind = .brokenPipe ∧ dst = .collectdExec then
      ({ l with ended := true }, actions++[.stdoutClosed])
    else
      let (l, rest) := pause interval l t.elapsed
      (l, actions++.exportError kind::rest)

/-- A turn of the loop; none is taken once it has returned. -/
def step (dst : ExportDst) (interval : ℕ) (l : Loop α) (t : Tick α E R) :
    Loop α × List (Action α E R) :=
  if l.ended then (l, []) else cycle ryu dst interval l t

/-- `run_probe` up to its loop; without an address or an exporter it exits. -/
def launch (dst : ExportDst) (targetName az hostname : List Char) (intervalSecs : ℕ)
    (answer : Except E (List α)) (io : ExportIo) : Option (Loop α) :=
  match resolve answer, Exporter.new dst targetName az hostname intervalSecs io with
  | .ok resolved, .ok exporter =>
    (start resolved).map fun selection => ⟨exporter,selection,false,reresolveAfterFailures,false⟩
  | _, _ => none

end Cycle

/-! ### One turn -/

/-- The call of the exporter that an outcome of `measure_rtt` leads to. -/
def reported (t : Tick α E R) : Report R :=
  match t.measured with
  | .ok rttMs => .send rttMs t.tsNs
  | .error _ => .sendFailure t.tsNs

/-- What the rotation depends on: the selection and the countdown. -/
structure Progress (α : Type*) where
  selection : Selection α
  left : ℕ
  deriving DecidableEq, Repr

def Loop.progress (l : Loop α) : Progress α := ⟨l.selection,l.failuresUntilReresolve⟩

/-- Past its export a cycle only logs and sleeps. -/
def Action.Closing : Action α E R → Prop
  | .connect _ => False
  | .reresolve => False
  | .exported _ _ => False
  | _ => True

theorem pause_closing (interval : ℕ) (l : Loop α) (elapsed : ℕ) :
    ∀ a ∈ (pause interval l elapsed : Loop α × List (Action α E R)).2, a.Closing := by
  unfold pause
  split_ifs <;> simp [Action.Closing]

theorem pause_loop (interval : ℕ) (l : Loop α) (elapsed : ℕ) :
    ∃ overran, (pause interval l elapsed : Loop α × List (Action α E R)).1 =
      { l with overran := overran } := by
  unfold pause
  split_ifs
  · exact ⟨l.overran,rfl⟩
  · exact ⟨l.overran,rfl⟩
  · exact ⟨true,rfl⟩

section Turn
variable [LinearOrder α]

def advance (p : Progress α) (t : Tick α E R) : Progress α :=
  match t.measured with
  | .ok _ => ⟨p.selection,reresolveAfterFailures⟩
  | .error _ =>
    if p.left-1 = 0 then ⟨(rotateTarget p.selection t.answer).1,reresolveAfterFailures⟩
    else ⟨p.selection,p.left-1⟩

/-- What a cycle does between its handshake and its export. -/
def recovery (p : Progress α) (t : Tick α E R) : List (Action α E R) :=
  match t.measured with
  | .ok _ => []
  | .error e => .probeError e ::
      if p.left-1 = 0 then .reresolve :: (rotateTarget p.selection t.answer).2.map .notice else []

variable (ryu : R → Bytes)

def sent (l : Loop α) (t : Tick α E R) : Except ErrorKind Unit :=
  (l.exporter.call ryu t.io (reported t)).2

/-- A turn of a running loop: where it leaves the loop, and what it did. -/
structure Turn (dst : ExportDst) (l : Loop α) (t : Tick α E R) (l' : Loop α)
    (actions : List (Action α E R)) : Prop where
  exporter : l'.exporter = (l.exporter.call ryu t.io (reported t)).1
  progress : l'.progress = advance l.progress t
  ended : l'.ended = true ↔ dst = .collectdExec ∧ sent ryu l t = .error .brokenPipe
  actions : ∃ rest, actions = .connect l.selection.current :: recovery l.progress t ++
    .exported (reported t) (sent ryu l t) :: rest ∧ (∀ a ∈ rest, a.Closing) ∧
    (l'.ended = true → rest = [.stdoutClosed])

/-- The loop right after the export. -/
def settled (l : Loop α) (t : Tick α E R) : Loop α :=
  { l with
    exporter := (l.exporter.call ryu t.io (reported t)).1
    selection := (advance l.progress t).selection
    failuresUntilReresolve := (advance l.progress t).left }

theorem report_eq (l : Loop α) (t : Tick α E R) :
    report ryu l t = (settled ryu l t,
      recovery l.progress t ++ [.exported (reported t) (sent ryu l t)], sent ryu l t) := by
  obtain ⟨tsNs,measured,answer,io,elapsed⟩ := t
  cases measured with
  | ok rttMs => rfl
  | error e =>
    simp only [report, countDown, settled, advance, recovery, Loop.progress]
    by_cases hleft : l.failuresUntilReresolve-1 = 0
    · simp only [hleft, if_true]
      rfl
    · simp only [hleft, if_false]
      rfl

theorem step_eq (dst : ExportDst) (interval : ℕ) (l : Loop α) (t : Tick α E R)
    (hl : l.ended = false) :
    step ryu dst interval l t =
      let actions := .connect l.selection.current :: recovery l.progress t ++
        [.exported (reported t) (sent ryu l t)]
      let pausing := pause interval (settled ryu l t) t.elapsed
      match sent ryu l t with
      | .ok () => (pausing.1, actions++pausing.2)
      | .error kind =>
        if kind = .brokenPipe ∧ dst = .collectdExec then
          ({ settled ryu l t with ended := true }, actions++[.stdoutClosed])
        else (pausing.1, actions++.exportError kind::pausing.2) := by
  rw [step, if_neg (by simp [hl]), cycle, report_eq]
  rfl

theorem step_turn (dst : ExportDst) (interval : ℕ) (l : Loop α) (t : Tick α E R)
    (hl : l.ended = false) :
    Turn ryu dst l t (step ryu dst interval l t).1 (step ryu dst interval l t).2 := by
  obtain ⟨overran,hpause⟩ := pause_loop (E := E) (R := R) interval (settled ryu l t) t.elapsed
  have hclosing := pause_closing (E := E) (R := R) interval (settled ryu l t) t.elapsed
  have hended : (settled ryu l t).ended = false := hl
  rw [step_eq ryu dst interval l t hl]
  cases hsent : sent ryu l t with
  | ok =>
    simp only [hpause]
    refine ⟨rfl,rfl,by simp [hended, hsent],_,?_,hclosing,by simp [hended]⟩
    simp [hsent]
  | error kind =>
    by_cases hend : kind = .brokenPipe ∧ dst = .collectdExec
    · obtain ⟨rfl,rfl⟩ := hend
      refine ⟨rfl,rfl,by simp [hsent],[.stdoutClosed],?_,?_,fun _ => rfl⟩
      · simp [hsent]
      · simp [Action.Closing]
    · simp only [hend, if_false, hpause]
      refine ⟨rfl,rfl,?_,.exportError kind::(pause interval (settled ryu l t) t.elapsed).2,?_,?_,
        by simp [hended]⟩
      · rw [hended, hsent, Except.error.injEq, and_comm]
        simp [hend]
      · simp [hsent]
      · intro a ha
        rcases List.mem_cons.mp ha with rfl | ha
        · trivial
        · exact hclosing a ha

end Turn

/-! ### Runs -/

section Runs
variable [LinearOrder α] (ryu : R → Bytes) (dst : ExportDst) (interval : ℕ)

theorem step_ended {l : Loop α} (t : Tick α E R) (hl : l.ended = true) :
    step ryu dst interval l t = (l, []) := if_pos hl

theorem final_ended {l : Loop α} (ts : List (Tick α E R)) (hl : l.ended = true) :
    final (step ryu dst interval) l ts = l := by
  induction ts with
  | nil => rfl
  | cons t ts ih => rw [final_cons, step_ended ryu dst interval t hl, ih]

/-- A loop that runs after some turns was running before each of them. -/
theorem running_earlier {l : Loop α} (ts rest : List (Tick α E R))
    (h : (final (step ryu dst interval) l (ts++rest)).ended = false) :
    (final (step ryu dst interval) l ts).ended = false := by
  rw [final_append] at h
  by_contra hended
  rw [final_ended ryu dst interval rest (by simpa using hended)] at h
  exact hended h

/-- The turns of a running loop, seen by the rotation alone. -/
def rotationStep (p : Progress α) (t : Tick α E R) : Progress α × List (Action α E R) :=
  (advance p t, recovery p t)

theorem final_progress (l : Loop α) (ts : List (Tick α E R))
    (h : (final (step ryu dst interval) l ts).ended = false) :
    (final (step ryu dst interval) l ts).progress = final rotationStep l.progress ts := by
  induction ts generalizing l with
  | nil => rfl
  | cons t ts ih =>
    have hl : l.ended = false := running_earlier ryu dst interval [] (t::ts) h
    rw [final_cons] at h ⊢
    rw [ih _ h, (step_turn ryu dst interval l t hl).progress]
    rfl

/-- The loop before turn `k` of a run. -/
def before (l : Loop α) (ts : List (Tick α E R)) (k : ℕ) : Loop α :=
  final (step ryu dst interval) l (ts.take k)

theorem before_succ (l : Loop α) (ts : List (Tick α E R)) (k : ℕ) (hk : k < ts.length) :
    before ryu dst interval l ts (k+1) =
      (step ryu dst interval (before ryu dst interval l ts k) ts[k]).1 :=
  final_take_succ _ l ts k hk

end Runs

section Launch
variable [LinearOrder α]

/-- A loop that `run_probe` enters. -/
def Launched (l : Loop α) : Prop :=
  ∃ (E : Type) (dst : ExportDst) (targetName az hostname : List Char) (intervalSecs : ℕ)
    (answer : Except E (List α)) (io : ExportIo),
    launch dst targetName az hostname intervalSecs answer io = some l

theorem launched_selection {l : Loop α} (h : Launched l) :
    (∃ r : Choice α, l.selection = r.selection) ∧ l.failuresUntilReresolve = reresolveAfterFailures ∧
      l.ended = false := by
  obtain ⟨E,dst,targetName,az,hostname,intervalSecs,answer,io,h⟩ := h
  unfold launch at h
  split at h
  next resolved exporter hresolved hexporter =>
    obtain ⟨selection,hstart,rfl⟩ := Option.map_eq_some_iff.mp h
    exact ⟨reachable_choice selection ⟨selection,[],⟨resolved,hstart⟩,rfl⟩,rfl,rfl⟩
  next => cases h

end Launch

/-- Two addresses at startup, exported to stdout. -/
def launched : Loop SocketAddr :=
  ⟨.collectd ⟨newExec [] [] 10,⟨[],[]⟩⟩,⟨[endpoint 1,endpoint 2],endpoint 1⟩,false,5,false⟩

/-- Every system call of the exporter succeeds, but for the flush of stdout. -/
def flushing (flush : Except ErrorKind Unit) : ExportIo :=
  ⟨.ok (),.ok (),.ok (),⟨.whole,flush,.ok (),.ok ()⟩⟩

theorem launched_launched : Launched launched :=
  ⟨Unit,.collectdExec,[],[],[],10,.ok [endpoint 1,endpoint 2],flushing (.ok ()),by decide⟩

/-- A refused handshake. -/
def refused (answer : Except Unit (List SocketAddr)) (flush : Except ErrorKind Unit) :
    Tick SocketAddr Unit ℕ :=
  ⟨0,.error (),answer,flushing flush,0⟩

end WireProbe.ProbeLoop
