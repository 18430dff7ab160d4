import WireProbe.Durations
import WireProbe.Effect
import WireProbe.ProbeLoop
import WireProbe.Sanitize

/-!
# The command line

`parse` asks the argument parser for one option after the other and checks what
it is given. What the argument parser answers is the input; the lines that
`parse` prints are the state.
-/

set_option autoImplicit false

namespace WireProbe.Cli
open WireProbe.Effect WireProbe.Durations WireProbe.Sanitize WireProbe.Text
open WireProbe.ProbeLoop (ExportDst)

/-- The answers of `pico_args`, one for each option, and the arguments that are
left over; `E` is its type of errors. -/
structure Arguments (E : Type) where
  help : Bool
  version : Bool
  mode : Except E (Option (List Char))
  bind : Except E (Option (List Char))
  port : Except E (Option UInt16)
  target : Except E (List Char)
  targetName : Except E (Option (List Char))
  az : Except E (Option (List Char))
  interval : Except E (Option (List Char))
  timeout : Except E (Option (List Char))
  exportDst : Except E (Option (List Char))
  leftover : List (List Char)

inductive Error (E : Type) where
  | args (e : E)
  | parseInt (e : ParseIntError)
  | text (message : List Char)
  deriving DecidableEq

/-- `parse` returns early with an error, or ends the process. -/
inductive Stop (E : Type) where
  | failed (e : Error E)
  | exit (code : ℕ)
  deriving DecidableEq

/-- The lines that `parse` prints; times are in milliseconds. -/
inductive Notice where
  | help (toStdout : Bool)
  | version
  | timeoutExceedsInterval (timeout interval : ℕ)
  deriving DecidableEq, Repr

inductive Mode where
  | server (bind : List Char) (port : UInt16)
  | probe (target targetName az : List Char) (interval timeout : Duration) (dst : ExportDst)
  deriving DecidableEq

abbrev Run (E α : Type) := Eff (List Notice) (Stop E) α

variable {E : Type}

def print (line : Notice) : Run E Unit := Eff.modify (·++[line])

def stop {α : Type} (reason : Stop E) : Run E α := fun printed => (.error reason,printed)

def failure {α : Type} (message : List Char) : Run E α := stop (.failed (.text message))

/-- The operator `?`. -/
def propagate {ε α : Type} (into : ε → Error E) (r : Except ε α) : Run E α := fun printed =>
  (r.mapError fun e => .failed (into e),printed)

def minIntervalMs : ℕ := 100
def maxIntervalMs : ℕ := 86400000
def maxTimeoutMs : ℕ := 60000

def checkedInterval (s : List Char) : Run E Duration := do
  let interval ← propagate .parseInt (parseDuration s)
  if interval.asMillis < minIntervalMs then
    failure ("interval too small (min ".toList++decimal minIntervalMs++"ms)".toList)
  else if maxIntervalMs < interval.asMillis then
    failure ("interval too large (max ".toList++decimal maxIntervalMs++"ms = 24h)".toList)
  else pure interval

def checkedTimeout (s : List Char) : Run E Duration := do
  let timeout ← propagate .parseInt (parseDuration s)
  if timeout.isZero then failure "timeout must be greater than zero".toList
  else if maxTimeoutMs < timeout.asMillis then
    failure ("timeout too large (max ".toList++decimal maxTimeoutMs++"ms = 60s)".toList)
  else pure timeout

def parseExport (s : List Char) : Except (Error E) ExportDst :=
  match s.dropPrefix? "telegraf-udp://".toList with
  | some addr => .ok (.telegrafUdp addr)
  | none =>
    match s.dropPrefix? "collectd-uds://".toList with
    | some path => .ok (.collectdUds path)
    | none =>
      if s = "collectd-exec".toList then .ok .collectdExec
      else .error (.text ("unknown export scheme '".toList++s++
        "'; expected telegraf-udp://<addr>, collectd-uds://<path>, or collectd-exec".toList))

/-- Not an error: a long timeout is legitimate on a high-latency link. -/
def warnTimeout (timeout interval : Duration) : Run E Unit :=
  if timeout.exceeds interval then
    print (.timeoutExceedsInterval timeout.asMillis interval.asMillis)
  else pure ()

def rejectUnknown : List (List Char) → Run E Unit
  | [] => pure ()
  | arg::_ => failure ("unexpected argument: ".toList++arg)

/-- The arm of the mode `server`. -/
def parseServer (args : Arguments E) : Run E Mode := do
  let bind ← propagate .args args.bind
  let port ← propagate .args args.port
  rejectUnknown args.leftover
  pure (.server (bind.getD "0.0.0.0".toList) (port.getD 9999))

/-- The arm of the mode `probe`. -/
def parseProbe (args : Arguments E) : Run E Mode := do
  let target ← propagate .args args.target
  let targetName ← propagate .args args.targetName
  let targetName := targetName.elim (sanitize target) sanitize
  let az ← propagate .args args.az
  let az := az.elim "default".toList sanitize
  let intervalStr ← propagate .args args.interval
  let timeoutStr ← propagate .args args.timeout
  let exportStr ← propagate .args args.exportDst
  let interval ← checkedInterval (intervalStr.getD "1000ms".toList)
  let timeout ← checkedTimeout (timeoutStr.getD "5000ms".toList)
  warnTimeout timeout interval
  let dst ← propagate id (parseExport (exportStr.getD "collectd-exec".toList))
  rejectUnknown args.leftover
  pure (.probe target targetName az interval timeout dst)

def parseMode (args : Arguments E) (mode : List Char) : Run E Mode :=
  if mode = "server".toList then parseServer args
  else if mode = "probe".toList then parseProbe args
  else failure ("unknown mode '".toList++mode++"'; expected 'server' or 'probe'".toList)

def parse (args : Arguments E) : Run E Mode := do
  if args.help then
    print (.help true)
    stop (.exit 0)
  else if args.version then
    print .version
    stop (.exit 0)
  else
    match ← propagate .args args.mode with
    | none =>
      print (.help false)
      failure "missing required flag --mode".toList
    | some mode => parseMode args mode

/-! ### What is accepted -/

section Outcomes
variable (printed : List Notice)

theorem stop_not_ok {α : Type} (reason : Stop E) (a : α) : (stop reason printed).1 ≠ .ok a := by
  rintro ⟨⟩

theorem failure_not_ok {α : Type} (message : List Char) (a : α) :
    (failure (E := E) message printed).1 ≠ .ok a := stop_not_ok printed _ a

theorem propagate_eq_ok_iff {ε α : Type} (into : ε → Error E) (r : Except ε α) (a : α) :
    (propagate into r printed).1 = .ok a ↔ r = .ok a := by
  cases r with
  | error e => simp [propagate, Except.mapError]
  | ok b => simp [propagate, Except.mapError]

theorem pure_eq_ok_iff {α : Type} (a b : α) :
    ((pure a : Run E α) printed).1 = .ok b ↔ a = b := by
  show Except.ok a = Except.ok b ↔ a = b
  rw [Except.ok.injEq]

theorem checkedInterval_eq_ok_iff (s : List Char) (d : Duration) :
    (checkedInterval (E := E) s printed).1 = .ok d ↔
      parseDuration s = .ok d ∧ minIntervalMs ≤ d.asMillis ∧ d.asMillis ≤ maxIntervalMs := by
  rw [checkedInterval, seq_eq_ok_iff]
  simp only [propagate_eq_ok_iff]
  constructor
  · rintro ⟨interval,hread,h⟩
    split_ifs at h with hsmall hlarge
    · exact absurd h (failure_not_ok _ _ _)
    · exact absurd h (failure_not_ok _ _ _)
    · obtain rfl := (pure_eq_ok_iff _ _ _).mp h
      exact ⟨hread,not_lt.mp hsmall,not_lt.mp hlarge⟩
  · rintro ⟨hread,hmin,hmax⟩
    refine ⟨d,hread,?_⟩
    rw [if_neg (not_lt.mpr hmin), if_neg (not_lt.mpr hmax)]
    rfl

theorem checkedTimeout_eq_ok_iff (s : List Char) (d : Duration) :
    (checkedTimeout (E := E) s printed).1 = .ok d ↔
      parseDuration s = .ok d ∧ d.asNanos ≠ 0 ∧ d.asMillis ≤ maxTimeoutMs := by
  rw [checkedTimeout, seq_eq_ok_iff]
  simp only [propagate_eq_ok_iff]
  constructor
  · rintro ⟨timeout,hread,h⟩
    split_ifs at h with hzero hlarge
    · exact absurd h (failure_not_ok _ _ _)
    · exact absurd h (failure_not_ok _ _ _)
    · obtain rfl := (pure_eq_ok_iff _ _ _).mp h
      exact ⟨hread,fun h => hzero ((Duration.isZero_iff _).mpr h),not_lt.mp hlarge⟩
  · rintro ⟨hread,hpos,hmax⟩
    refine ⟨d,hread,?_⟩
    rw [if_neg (fun h => hpos ((Duration.isZero_iff d).mp h)), if_neg (not_lt.mpr hmax)]
    rfl

theorem warnTimeout_ok (timeout interval : Duration) (u : Unit) :
    (warnTimeout (E := E) timeout interval printed).1 = .ok u := by
  unfold warnTimeout
  split_ifs <;> rfl

theorem rejectUnknown_eq_ok_iff (leftover : List (List Char)) (u : Unit) :
    (rejectUnknown (E := E) leftover printed).1 = .ok u ↔ leftover = [] := by
  cases leftover with
  | nil => exact iff_of_true rfl rfl
  | cons arg rest => exact iff_of_false (failure_not_ok printed _ u) (List.cons_ne_nil _ _)

/-- What a probe is started with, read off the answers. -/
structure Accepted (args : Arguments E) (target targetName az : List Char)
    (interval timeout : Duration) (dst : ExportDst) : Prop where
  givenTarget : args.target = .ok target
  givenName : ∃ given, args.targetName = .ok given ∧
    given.elim (sanitize target) sanitize = targetName
  givenAz : ∃ given, args.az = .ok given ∧ given.elim "default".toList sanitize = az
  readInterval : ∃ given, args.interval = .ok given ∧
    parseDuration (given.getD "1000ms".toList) = .ok interval
  intervalRange : minIntervalMs ≤ interval.asMillis ∧ interval.asMillis ≤ maxIntervalMs
  readTimeout : ∃ given, args.timeout = .ok given ∧
    parseDuration (given.getD "5000ms".toList) = .ok timeout
  timeoutRange : timeout.asNanos ≠ 0 ∧ timeout.asMillis ≤ maxTimeoutMs
  readDst : ∃ given, args.exportDst = .ok given ∧
    parseExport (E := E) (given.getD "collectd-exec".toList) = .ok dst
  nothingLeft : args.leftover = []

theorem parseProbe_eq_ok_iff (args : Arguments E) (mode : Mode) :
    (parseProbe args printed).1 = .ok mode ↔
      ∃ target targetName az interval timeout dst,
        mode = .probe target targetName az interval timeout dst ∧
        Accepted args target targetName az interval timeout dst := by
  unfold parseProbe
  simp only [seq_eq_ok_iff, propagate_eq_ok_iff, checkedInterval_eq_ok_iff,
    checkedTimeout_eq_ok_iff, rejectUnknown_eq_ok_iff, pure_eq_ok_iff]
  constructor
  · rintro ⟨target,htarget,name,hname,az,haz,i,hi,t,ht,d,hd,interval,⟨hinterval,hmin,hmax⟩,
      timeout,⟨htimeout,hpos,hlong⟩,-,-,dst,hdst,-,hleft,rfl⟩
    exact ⟨_,_,_,_,_,_,rfl,htarget,⟨name,hname,rfl⟩,⟨az,haz,rfl⟩,⟨i,hi,hinterval⟩,⟨hmin,hmax⟩,
      ⟨t,ht,htimeout⟩,⟨hpos,hlong⟩,⟨d,hd,hdst⟩,hleft⟩
  · rintro ⟨target,_,_,interval,timeout,dst,rfl,htarget,⟨name,hname,rfl⟩,⟨az,haz,rfl⟩,
      ⟨i,hi,hinterval⟩,⟨hmin,hmax⟩,⟨t,ht,htimeout⟩,⟨hpos,hlong⟩,⟨d,hd,hdst⟩,hleft⟩
    exact ⟨target,htarget,name,hname,az,haz,i,hi,t,ht,d,hd,interval,⟨hinterval,hmin,hmax⟩,
      timeout,⟨htimeout,hpos,hlong⟩,(),warnTimeout_ok _ _ _ _,dst,hdst,(),hleft,rfl⟩

theorem parseServer_not_probe (args : Arguments E) (target targetName az : List Char)
    (interval timeout : Duration) (dst : ExportDst) :
    (parseServer args printed).1 ≠ .ok (.probe target targetName az interval timeout dst) := by
  intro h
  unfold parseServer at h
  simp only [seq_eq_ok_iff, pure_eq_ok_iff] at h
  obtain ⟨_,-,_,-,_,-,⟨⟩⟩ := h

theorem parseMode_eq_ok_iff (args : Arguments E) (mode target targetName az : List Char)
    (interval timeout : Duration) (dst : ExportDst) :
    (parseMode args mode printed).1 = .ok (.probe target targetName az interval timeout dst) ↔
      mode = "probe".toList ∧ Accepted args target targetName az interval timeout dst := by
  unfold parseMode
  split_ifs with hserver hprobe
  · refine iff_of_false (parseServer_not_probe printed _ _ _ _ _ _ _) ?_
    rintro ⟨rfl,-⟩
    exact absurd hserver (by decide)
  · rw [parseProbe_eq_ok_iff, and_iff_right hprobe]
    constructor
    · rintro ⟨_,_,_,_,_,_,⟨⟩,haccepted⟩
      exact haccepted
    · exact fun haccepted => ⟨_,_,_,_,_,_,rfl,haccepted⟩
  · exact iff_of_false (failure_not_ok printed _ _) fun h => hprobe h.1

/-- A probe is started exactly from the command lines of its mode that are
accepted. -/
theorem parse_eq_ok_iff (args : Arguments E) (target targetName az : List Char)
    (interval timeout : Duration) (dst : ExportDst) :
    (parse args printed).1 = .ok (.probe target targetName az interval timeout dst) ↔
      (args.help = false ∧ args.version = false ∧ args.mode = .ok (some "probe".toList)) ∧
        Accepted args target targetName az interval timeout dst := by
  unfold parse
  cases hhelp : args.help with
  | true =>
    simp only [if_true, seq_eq_ok_iff]
    constructor
    · rintro ⟨_,-,h⟩
      exact absurd h (stop_not_ok _ _ _)
    · rintro ⟨⟨⟨⟩,-⟩,-⟩
  | false =>
    cases hversion : args.version with
    | true =>
      simp only [Bool.false_eq_true, if_false, if_true, seq_eq_ok_iff]
      constructor
      · rintro ⟨_,-,h⟩
        exact absurd h (stop_not_ok _ _ _)
      · rintro ⟨⟨-,⟨⟩,-⟩,-⟩
    | false =>
      simp only [Bool.false_eq_true, if_false, seq_eq_ok_iff, propagate_eq_ok_iff, true_and]
      constructor
      · rintro ⟨mode,hmode,h⟩
        cases mode with
        | none =>
          simp only [seq_eq_ok_iff] at h
          obtain ⟨_,-,h⟩ := h
          exact absurd h (failure_not_ok _ _ _)
        | some mode =>
          obtain ⟨rfl,haccepted⟩ := (parseMode_eq_ok_iff _ _ _ _ _ _ _ _ _).mp h
          exact ⟨hmode,haccepted⟩
      · rintro ⟨hmode,haccepted⟩
        exact ⟨_,hmode,(parseMode_eq_ok_iff _ _ _ _ _ _ _ _ _).mpr ⟨rfl,haccepted⟩⟩

end Outcomes

/-! ### Intervals and timeouts -/

/-- From 100 ms to 24 h, in nanoseconds. -/
def IntervalRange (nanos : ℕ) : Prop := 100*1000000 ≤ nanos ∧ nanos ≤ 86400*1000000000

/-- Above zero, up to 60 s. -/
def TimeoutRange (nanos : ℕ) : Prop := 0 < nanos ∧ nanos ≤ 60*1000000000

theorem intervalRange_iff {d : Duration} (h : 1000000 ∣ d.asNanos) :
    minIntervalMs ≤ d.asMillis ∧ d.asMillis ≤ maxIntervalMs ↔ IntervalRange d.asNanos := by
  rw [d.asMillis_eq, minIntervalMs, maxIntervalMs, IntervalRange]
  omega

theorem timeoutRange_iff {d : Duration} (h : 1000000 ∣ d.asNanos) :
    d.asNanos ≠ 0 ∧ d.asMillis ≤ maxTimeoutMs ↔ TimeoutRange d.asNanos := by
  rw [d.asMillis_eq, maxTimeoutMs, TimeoutRange]
  omega

/-- The seconds that `run_probe` announces are the interval rounded, the cast
included. -/
structure Announced (interval : Duration) : Prop where
  rounded : (intervalSecs interval).toNat = max 1 ((interval.asMillis+500)/1000)
  positive : 1 ≤ (intervalSecs interval).toNat
  bounded : (intervalSecs interval).toNat ≤ 86400
  uncast : ((intervalSecs interval).toNat : ℚ) = roundedSecs interval

theorem announced {interval : Duration} (h : interval.asMillis ≤ maxIntervalMs) :
    Announced interval := by
  have hrounded := intervalSecs_eq h
  rw [maxIntervalMs] at h
  refine ⟨hrounded,?_,?_,?_⟩
  · omega
  · omega
  · rw [hrounded, roundedSecs_eq]

/-- What `parse` asks of a command line besides its two times. -/
structure Otherwise (args : Arguments E) (target targetName az : List Char) (dst : ExportDst) :
    Prop where
  probing : args.help = false ∧ args.version = false ∧ args.mode = .ok (some "probe".toList)
  givenTarget : args.target = .ok target
  givenName : ∃ given, args.targetName = .ok given ∧
    given.elim (sanitize target) sanitize = targetName
  givenAz : ∃ given, args.az = .ok given ∧ given.elim "default".toList sanitize = az
  readDst : ∃ given, args.exportDst = .ok given ∧
    parseExport (E := E) (given.getD "collectd-exec".toList) = .ok dst
  nothingLeft : args.leftover = []

/-- A time is read as what it denotes, and as nothing else. -/
theorem reads_iff (answer : Except E (Option (List Char))) (absent : List Char) (d : Duration) :
    (∃ given, answer = .ok given ∧ parseDuration (given.getD absent) = .ok d) ↔
      ∃ given, answer = .ok given ∧ Denotes (given.getD absent) d.asNanos := by
  constructor
  · rintro ⟨given,hgiven,hread⟩
    exact ⟨given,hgiven,denotes_of_read hread⟩
  · rintro ⟨given,hgiven,hdenotes⟩
    obtain ⟨d',hread,hnanos⟩ := read_of_denotes hdenotes
    exact ⟨given,hgiven,Duration.asNanos_injective hnanos ▸ hread⟩

/-- Of the two times only what they denote counts, and that it is in range. -/
theorem parse_times_iff (printed : List Notice) (args : Arguments E)
    (target targetName az : List Char) (interval timeout : Duration) (dst : ExportDst) :
    (parse args printed).1 = .ok (.probe target targetName az interval timeout dst) ↔
      Otherwise args target targetName az dst ∧
      (∃ s, args.interval = .ok s ∧ Denotes (s.getD "1000ms".toList) interval.asNanos) ∧
      IntervalRange interval.asNanos ∧
      (∃ t, args.timeout = .ok t ∧ Denotes (t.getD "5000ms".toList) timeout.asNanos) ∧
      TimeoutRange timeout.asNanos := by
  rw [parse_eq_ok_iff]
  constructor
  · rintro ⟨hprobing,h⟩
    obtain ⟨s,hgiven,hs⟩ := (reads_iff args.interval _ interval).mp h.readInterval
    obtain ⟨t,hgiven',ht⟩ := (reads_iff args.timeout _ timeout).mp h.readTimeout
    exact ⟨⟨hprobing,h.givenTarget,h.givenName,h.givenAz,h.readDst,h.nothingLeft⟩,
      ⟨s,hgiven,hs⟩,(intervalRange_iff hs.dvd).mp h.intervalRange,
      ⟨t,hgiven',ht⟩,(timeoutRange_iff ht.dvd).mp h.timeoutRange⟩
  · rintro ⟨h,⟨s,hgiven,hs⟩,hrange,⟨t,hgiven',ht⟩,hrange'⟩
    exact ⟨h.probing,{
      givenTarget := h.givenTarget
      givenName := h.givenName
      givenAz := h.givenAz
      readInterval := (reads_iff args.interval _ interval).mpr ⟨s,hgiven,hs⟩
      intervalRange := (intervalRange_iff hs.dvd).mpr hrange
      readTimeout := (reads_iff args.timeout _ timeout).mpr ⟨t,hgiven',ht⟩
      timeoutRange := (timeoutRange_iff ht.dvd).mpr hrange'
      readDst := h.readDst
      nothingLeft := h.nothingLeft }⟩

/-- The text that precedes each value of a collectd exporter. -/
theorem linePrefix_new {dst : ExportDst} {targetName az hostname : List Char} {intervalSecs : ℕ}
    {io : ProbeLoop.ExportIo} {s : Collectd.Session}
    (h : ProbeLoop.Exporter.new dst targetName az hostname intervalSecs io = .ok (.collectd s)) :
    s.exporter.linePrefix = Collectd.asBytes ("PUTVAL ".toList++hostname++
      "/wire-probe-tcp/latency-".toList++targetName++" interval=".toList++decimal intervalSecs++
      " N:".toList) := by
  have hbuilt : s.exporter.linePrefix = Collectd.buildPrefix hostname targetName intervalSecs := by
    cases dst with
    | telegrafUdp addr =>
      obtain ⟨e,-,he⟩ := map_eq_ok h
      cases he
    | collectdUds path =>
      obtain ⟨e,he,hs⟩ := map_eq_ok h
      cases hs
      rw [Collectd.newUds_eq_ok he]
    | collectdExec =>
      cases h
      rfl
  rw [hbuilt, Collectd.buildPrefix]
  simp only [← asBytes_append]
  rfl

/-- Texts denote the durations that are read from them. A probe is started
exactly with an interval from 100 ms to 24 h and a timeout above zero up to
60 s that its command line denotes, and any two texts in these ranges start
one. What a collectd exporter then announces is the interval rounded to whole
seconds. -/
theorem durations_exact :
    (∀ s nanos, (parseDuration s).map Duration.asNanos = .ok nanos ↔ Denotes s nanos) ∧
    (∀ (args : Arguments E) printed target targetName az interval timeout dst,
      (parse args printed).1 = .ok (.probe target targetName az interval timeout dst) ↔
        Otherwise args target targetName az dst ∧
        (∃ s, args.interval = .ok s ∧ Denotes (s.getD "1000ms".toList) interval.asNanos) ∧
        IntervalRange interval.asNanos ∧
        (∃ t, args.timeout = .ok t ∧ Denotes (t.getD "5000ms".toList) timeout.asNanos) ∧
        TimeoutRange timeout.asNanos) ∧
    (∀ s nanos t nanos', Denotes s nanos → IntervalRange nanos → Denotes t nanos' →
      TimeoutRange nanos' → ∀ (args : Arguments E) printed target targetName az dst,
      Otherwise args target targetName az dst →
      ∃ interval timeout, interval.asNanos = nanos ∧ timeout.asNanos = nanos' ∧
        (parse {args with interval := .ok (some s), timeout := .ok (some t)} printed).1 =
          .ok (.probe target targetName az interval timeout dst)) ∧
    ∀ (args : Arguments E) printed target targetName az interval timeout dst,
      (parse args printed).1 = .ok (.probe target targetName az interval timeout dst) →
      Announced interval ∧ ∀ hostname io s,
        ProbeLoop.Exporter.new dst targetName az hostname (intervalSecs interval).toNat io =
          .ok (.collectd s) →
        s.exporter.linePrefix = Collectd.asBytes ("PUTVAL ".toList++hostname++
          "/wire-probe-tcp/latency-".toList++targetName++" interval=".toList++
          decimal (max 1 ((interval.asMillis+500)/1000))++" N:".toList) := by
  refine ⟨parseDuration_iff,fun args printed => parse_times_iff printed args,?_,?_⟩
  · intro s nanos t nanos' hs hrange ht hrange' args printed target targetName az dst h
    obtain ⟨interval,-,rfl⟩ := read_of_denotes hs
    obtain ⟨timeout,-,rfl⟩ := read_of_denotes ht
    refine ⟨interval,timeout,rfl,rfl,(parse_times_iff _ _ _ _ _ _ _ _).mpr
      ⟨?_,⟨some s,rfl,hs⟩,hrange,⟨some t,rfl,ht⟩,hrange'⟩⟩
    exact ⟨h.probing,h.givenTarget,h.givenName,h.givenAz,h.readDst,h.nothingLeft⟩
  · intro args printed target targetName az interval timeout dst h
    obtain ⟨-,haccepted⟩ := (parse_eq_ok_iff _ _ _ _ _ _ _ _).mp h
    have hannounced := announced haccepted.intervalRange.2
    refine ⟨hannounced,fun hostname io s hnew => ?_⟩
    rw [linePrefix_new hnew, hannounced.rounded]

/-- A probe of `mdb` whose points go to stdout. -/
def probing : Arguments Unit where
  help := false
  version := false
  mode := .ok (some "probe".toList)
  bind := .ok none
  port := .ok none
  target := .ok "mdb:9999".toList
  targetName := .ok (some "mdb".toList)
  az := .ok none
  interval := .ok none
  timeout := .ok none
  exportDst := .ok none
  leftover := []

/-- An interval of 1500 ms and a timeout of 5 s pass, and two seconds are announced. -/
theorem durations_exact_rounded : ∃ interval timeout : Duration,
    interval.asNanos = 1500000000 ∧ timeout.asNanos = 5000000000 ∧
    (parse {probing with interval := .ok (some "1500ms".toList), timeout := .ok (some "5s".toList)}
      []).1 = .ok (.probe "mdb:9999".toList "mdb".toList "default".toList interval timeout
        .collectdExec) ∧
    (Collectd.newExec "obs01".toList "mdb".toList (intervalSecs interval).toNat).linePrefix =
      Collectd.asBytes "PUTVAL obs01/wire-probe-tcp/latency-mdb interval=2 N:".toList := by
  obtain ⟨hdenotes,-,haccepts,hannounces⟩ := durations_exact (E := Unit)
  have hs : Denotes "1500ms".toList 1500000000 := (hdenotes _ _).mp (by decide)
  have ht : Denotes "5s".toList 5000000000 := (hdenotes _ _).mp (by decide)
  obtain ⟨interval,timeout,hinterval,htimeout,hparse⟩ := haccepts _ _ _ _ hs
    ⟨by decide,by decide⟩ ht ⟨by decide,by decide⟩ probing [] "mdb:9999".toList "mdb".toList "default".toList
    .collectdExec ⟨by decide,rfl,⟨_,rfl,by decide⟩,⟨_,rfl,rfl⟩,⟨_,rfl,rfl⟩,rfl⟩
  obtain ⟨-,hline⟩ := hannounces _ _ _ _ _ _ _ _ hparse
  refine ⟨interval,timeout,hinterval,htimeout,hparse,?_⟩
  let io : ProbeLoop.ExportIo := ⟨.ok (),.ok (),.ok (),⟨.whole,.ok (),.ok (),.ok ()⟩⟩
  have hnew := hline "obs01".toList io _ rfl
  rw [interval.asMillis_eq, hinterval] at hnew
  exact hnew

end WireProbe.Cli
