import WireProbe.Cli
import WireProbe.DeliveredPoints
import WireProbe.Utf8Lossy

/-!
# From the command line to the points

`run_probe` resolves its target, reads the name of the host and opens the
exporter; then it loops. What arrives at the other end of the exporter is, for
every command line that is accepted, labelled by that command line.
-/

set_option autoImplicit false

namespace WireProbe.ProbeStartup
open WireProbe.Transducer WireProbe.Collectd WireProbe.ProbeLoop WireProbe.Sanitize
open WireProbe.AddressRotation WireProbe.LineDecoding WireProbe.LineStream WireProbe.UdsFraming
open WireProbe.Durations WireProbe.Cli WireProbe.Utf8Lossy WireProbe.DeliveredPoints

/-! ### The name of the host -/

def hostNameLength : ℕ := 256

/-- What `gethostname` leaves in a zeroed buffer. -/
def gethostname (name : Bytes) : Bytes :=
  name.take hostNameLength++List.replicate (hostNameLength-name.length) 0

/-- `hostname`, from the buffer that `gethostname` has filled. -/
def hostname (buf : Bytes) : List Char :=
  let stop := (buf.findIdx? (· = 0)).getD buf.length
  let name := if stop ≤ buf.length then buf.take stop else buf
  sanitize (lossy name)

theorem hostname_gethostname {name : Bytes} (hname : 0 ∉ name) (hlength : name.length ≤ hostNameLength) :
    hostname (gethostname name) = sanitize (lossy name) := by
  have hnone : name.findIdx? (fun b => decide (b = 0)) = none := by
    rw [List.findIdx?_eq_none_iff]
    intro b hb
    simp only [decide_eq_false_iff_not]
    rintro rfl
    exact hname hb
  have hstop : ((gethostname name).findIdx? (fun b => decide (b = 0))).getD (gethostname name).length =
      name.length := by
    rw [gethostname, List.take_of_length_le hlength, List.findIdx?_append, hnone]
    cases hzeros : hostNameLength-name.length with
    | zero => simp
    | succ n => simp [List.replicate_succ, List.findIdx?_cons]
  have htake : (gethostname name).take name.length = name := by
    rw [gethostname, List.take_of_length_le hlength, List.take_left]
  have hle : name.length ≤ (gethostname name).length := by
    rw [gethostname, List.take_of_length_le hlength, List.length_append]
    exact Nat.le_add_right _ _
  rw [hostname, hstop, if_pos hle, htake]

/-! ### Before the loop -/

variable {α E R : Type*}

/-- What the outside answers before the first cycle. -/
structure Outside (α E : Type*) where
  answer : Except E (List α)
  hostBuf : Bytes
  io : ExportIo

/-- What `run_probe` prints before it exits with code 1. -/
inductive StartupError (E : Type*) where
  | cannotResolve (e : ResolveError E)
  | noAddress
  | exporterInit (kind : ErrorKind)
  deriving DecidableEq

inductive Warning where
  | belowOneSecond (intervalMillis announced : ℕ)
  deriving DecidableEq, Repr

def isCollectd : ExportDst → Bool
  | .collectdExec => true
  | .collectdUds _ => true
  | .telegrafUdp _ => false

section Startup
variable [LinearOrder α]

/-- `run_probe` up to its loop. -/
def runProbe (targetName az : List Char) (interval : Duration) (dst : ExportDst)
    (w : Outside α E) : List Warning × Except (StartupError E) (Loop α) :=
  match resolve w.answer with
  | .error e => ([], .error (.cannotResolve e))
  | .ok resolved =>
    match adopt resolved with
    | none => ([], .error .noAddress)
    | some (addrs, preferred) =>
      let host := hostname w.hostBuf
      let announced := (intervalSecs interval).toNat
      let warnings := if isCollectd dst ∧ interval.asNanos < 1000000000 then
        [.belowOneSecond interval.asMillis announced] else []
      match Exporter.new dst targetName az host announced w.io with
      | .error kind => (warnings, .error (.exporterInit kind))
      | .ok exporter =>
        (warnings, .ok ⟨exporter,⟨addrs,preferred⟩,false,reresolveAfterFailures,false⟩)

theorem runProbe_eq_ok_iff (targetName az : List Char) (interval : Duration) (dst : ExportDst)
    (w : Outside α E) (l : Loop α) :
    (runProbe targetName az interval dst w).2 = .ok l ↔ launch dst targetName az
      (hostname w.hostBuf) (intervalSecs interval).toNat w.answer w.io = some l := by
  unfold runProbe launch start
  cases resolve w.answer with
  | error e => simp
  | ok resolved =>
    cases hadopt : adopt resolved with
    | none =>
      generalize Exporter.new dst targetName az _ _ w.io = exporter
      cases exporter <;> simp [hadopt]
    | some adopted =>
      generalize hnew : Exporter.new dst targetName az _ _ w.io = exporter
      cases exporter <;> simp [hnew, hadopt]

/-- The second check for an address never finds one missing. -/
theorem runProbe_ne_noAddress (targetName az : List Char) (interval : Duration) (dst : ExportDst)
    (w : Outside α E) : (runProbe targetName az interval dst w).2 ≠ .error .noAddress := by
  unfold runProbe
  rcases w.answer with e | (_ | ⟨addr,addrs⟩)
  · simp [resolve]
  · simp [resolve]
  · simp only [resolve, adopt_cons]
    split <;> simp

end Startup

/-! ### From the command line to the points -/

/-- The names that the points of a command line carry. -/
structure Labels {E : Type} (args : Arguments E) (name zone : Name) : Prop where
  name : ∃ target given, args.target = .ok target ∧ args.targetName = .ok given ∧
    name.text = sanitize (given.getD target)
  zone : ∃ given, args.az = .ok given ∧ zone.text = given.elim "default".toList sanitize

theorem labels {E : Type} {args : Arguments E} {target targetName az : List Char}
    {interval timeout : Duration} {dst : ExportDst}
    (h : Accepted args target targetName az interval timeout dst) :
    ∃ name zone, name.text = targetName ∧ zone.text = az ∧ Labels args name zone := by
  obtain ⟨name,hname,htext⟩ := h.givenName
  obtain ⟨zone,hzone,hztext⟩ := h.givenAz
  have hsan : sanitize (name.getD target) = targetName := by
    rw [← htext]
    cases name <;> rfl
  refine ⟨⟨targetName,_,hsan⟩,⟨az,?_⟩,rfl,rfl,⟨target,name,h.givenTarget,hname,hsan.symm⟩,
    zone,hzone,hztext.symm⟩
  cases zone with
  | none => exact ⟨"default".toList,hztext ▸ by decide⟩
  | some given => exact ⟨given,hztext⟩

section Points
variable {Earg : Type} [LinearOrder α] (ryu : R → Token) (args : Arguments Earg)
  (target targetName az : List Char) (interval timeout : Duration)

/-- What a probe has sent to Telegraf, from its command line on: each datagram
is the point of one cycle, under the names the command line gives. -/
theorem telegraf_points (printed : List Notice) (addr : List Char)
    (hparse : (parse args printed).1 =
      .ok (.probe target targetName az interval timeout (.telegrafUdp addr)))
    (w : Outside α E) (l : Loop α)
    (hstart : (runProbe targetName az interval (.telegrafUdp addr) w).2 = .ok l)
    (ts : List (Tick α E R)) :
    ∃ name zone e, Labels args name zone ∧
      (final (step (LineDecoding.printed ryu) (.telegrafUdp addr) interval.asNanos) l ts).exporter =
        .telegraf e ∧
      e.socket.taken.map decodePoint = (ts.filter fun t => t.io.sendUdp.isOk).map fun t =>
        some ⟨name,zone,t.measured.toOption.map ryu,t.tsNs⟩ := by
  obtain ⟨-,haccepted⟩ := (parse_eq_ok_iff _ _ _ _ _ _ _ _).mp hparse
  obtain ⟨name,zone,rfl,rfl,hlabels⟩ := labels haccepted
  have hlaunch := (runProbe_eq_ok_iff _ _ _ _ _ _).mp hstart
  obtain ⟨e,hexporter,htaken⟩ := datagrams_decode ryu addr name zone _ _ interval.asNanos _ _ l
    hlaunch ts
  exact ⟨name,zone,e,hlabels,hexporter,htaken⟩

/-- A probe of `mdb`, sent to `dst` every ten seconds. -/
def commandLine (dst : List Char) : Arguments Unit where
  help := false
  version := false
  mode := .ok (some "probe".toList)
  bind := .ok none
  port := .ok none
  target := .ok "mdb:9999".toList
  targetName := .ok (some "mdb".toList)
  az := .ok none
  interval := .ok (some "10s".toList)
  timeout := .ok none
  exportDst := .ok (some dst)
  leftover := []

def tenSeconds : Duration := .fromSecs 10

def fiveSeconds : Duration := .fromSecs 5

/-- The target resolves to one address, and the exporter can be opened. -/
def outside : Outside SocketAddr Unit :=
  ⟨.ok [endpoint 1],gethostname (asBytes "obs 01".toList),flushing (.ok ())⟩

/-- A float printed as one digit. -/
def digit (_ : Unit) : Token := ⟨['4'],by decide,List.forall_mem_singleton.mpr (.inl rfl)⟩

/-- A handshake that succeeds, and how its export fares. -/
def exporting (sendUdp : Except ErrorKind Unit) (write : WriteAll)
    (connect : Except ErrorKind Unit) : Tick SocketAddr Unit Unit :=
  ⟨7,.ok (),.error (),⟨.ok (),.ok (),sendUdp,⟨write,.ok (),connect,.ok ()⟩⟩,0⟩

/-- The second datagram is refused, and only the first arrives. -/
theorem telegraf_points_refused : ∃ name zone e, Labels (commandLine "telegraf-udp://".toList) name zone ∧
    (final (step (LineDecoding.printed digit) (.telegrafUdp []) 10000000000)
        ⟨.telegraf ⟨⟨[]⟩,Telegraf.buildPrefix "mdb".toList "default".toList,[]⟩,
          ⟨[endpoint 1],endpoint 1⟩,false,5,false⟩
        [exporting (.ok ()) .whole (.ok ()),exporting (.error (.other 111)) .whole (.ok ())]).exporter =
      .telegraf e ∧
    e.socket.taken.map decodePoint = [some ⟨name,zone,some (digit ()),7⟩] :=
  telegraf_points digit (commandLine "telegraf-udp://".toList) "mdb:9999".toList "mdb".toList
    "default".toList tenSeconds fiveSeconds [] [] (by decide) outside _ (by decide)
    [exporting (.ok ()) .whole (.ok ()),exporting (.error (.other 111)) .whole (.ok ())]

/-- What collectd reads from the connections of a probe, from its command line
on: the points of the cycles whose line was written whole and not behind a torn
one, under the names the command line and the host give, with the interval in
whole seconds. -/
theorem collectd_points (printed : List Notice) (path : List Char)
    (hparse : (parse args printed).1 =
      .ok (.probe target targetName az interval timeout (.collectdUds path)))
    (w : Outside α E) (l : Loop α)
    (hstart : (runProbe targetName az interval (.collectdUds path) w).2 = .ok l)
    (ts : List (Tick α E R)) :
    ∃ name zone host s, Labels args name zone ∧
      (∀ hostName : List Char, w.hostBuf = gethostname (asBytes hostName) → 0 ∉ asBytes hostName →
        (asBytes hostName).length ≤ hostNameLength → host.text = sanitize hostName) ∧
      (final (step (LineDecoding.printed ryu) (.collectdUds path) interval.asNanos) l ts).exporter =
        .collectd s ∧
      ((delivered s).flatMap (linesOf newline)).map decodePutval =
        arrived false (ts.map fun t =>
          (⟨host,name,max 1 ((interval.asMillis+500)/1000),t.measured.toOption.map ryu⟩,
            attempt t.io.io)) := by
  obtain ⟨-,haccepted⟩ := (parse_eq_ok_iff _ _ _ _ _ _ _ _).mp hparse
  obtain ⟨name,zone,rfl,rfl,hlabels⟩ := labels haccepted
  have hlaunch := (runProbe_eq_ok_iff _ _ _ _ _ _).mp hstart
  rw [(announced haccepted.intervalRange.2).rounded] at hlaunch
  let host : Name := ⟨hostname w.hostBuf,_,rfl⟩
  obtain ⟨s,hexporter,hread⟩ := putvals_decode ryu path host name _ _ interval.asNanos _ _ l hlaunch ts
  refine ⟨name,zone,host,s,hlabels,?_,hexporter,hread⟩
  intro hostName hbuf hzero hlength
  show hostname w.hostBuf = _
  rw [hbuf, hostname_gethostname hzero hlength]
  exact congrArg sanitize (lossy_encode hostName)

theorem outside_started : (runProbe "mdb".toList "default".toList tenSeconds (.collectdUds [])
    outside).2 = .ok ⟨.collectd (opened [] "obs_01".toList "mdb".toList 10),
      ⟨[endpoint 1],endpoint 1⟩,false,5,false⟩ := by
  have hhost : hostname outside.hostBuf = "obs_01".toList := by
    rw [show outside.hostBuf = gethostname (asBytes "obs 01".toList) from rfl,
      hostname_gethostname (by decide) (by decide)]
    decide
  have hannounced : Announced tenSeconds := announced (by decide)
  have hseconds : (intervalSecs tenSeconds).toNat = 10 := hannounced.rounded.trans (by decide)
  rw [runProbe_eq_ok_iff, hhost, hseconds]
  decide

/-- The write of the first line times out and the reconnect is refused, so the
second is lost behind it; the third arrives, and what is torn of the fourth ends
its connection. -/
theorem collectd_points_torn : ∃ name zone host s,
    Labels (commandLine "collectd-uds://".toList) name zone ∧
    (∀ hostName : List Char, outside.hostBuf = gethostname (asBytes hostName) →
      0 ∉ asBytes hostName → (asBytes hostName).length ≤ hostNameLength →
      host.text = sanitize hostName) ∧
    (final (step (LineDecoding.printed digit) (.collectdUds []) 10000000000)
        ⟨.collectd (opened [] "obs_01".toList "mdb".toList 10),
          ⟨[endpoint 1],endpoint 1⟩,false,5,false⟩
        [exporting (.ok ()) (.failed 4 (.other 11)) (.error (.other 111)),
          exporting (.ok ()) .whole (.ok ()),exporting (.ok ()) .whole (.ok ()),
          exporting (.ok ()) (.failed 4 (.other 11)) (.ok ()),
          exporting (.ok ()) .whole (.ok ())]).exporter = .collectd s ∧
    ((delivered s).flatMap (linesOf newline)).map decodePutval =
      [none,some ⟨host,name,10,some (digit ())⟩,some ⟨host,name,10,some (digit ())⟩] := by
  have h := collectd_points digit (commandLine "collectd-uds://".toList) "mdb:9999".toList
    "mdb".toList "default".toList tenSeconds fiveSeconds [] [] (by decide) outside _ outside_started
    [exporting (.ok ()) (.failed 4 (.other 11)) (.error (.other 111)),
      exporting (.ok ()) .whole (.ok ()),exporting (.ok ()) .whole (.ok ()),
      exporting (.ok ()) (.failed 4 (.other 11)) (.ok ()),exporting (.ok ()) .whole (.ok ())]
  have hseconds : max 1 ((tenSeconds.asMillis+500)/1000) = 10 := by decide
  rw [hseconds] at h
  exact h

end Points

end WireProbe.ProbeStartup
