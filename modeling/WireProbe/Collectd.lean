import WireProbe.Framing

/-!
# The collectd exporter

The exporter renders one PUTVAL line into its buffer and writes it to stdout
or to the stream of a Unix socket. What the operating system answers at each
call is an input; a stream is the list of bytes its peer has accepted. The
rendering of floats belongs to the `ryu` crate and is a parameter.
-/

set_option autoImplicit false

namespace WireProbe.Collectd
open WireProbe.Framing

abbrev Bytes := List UInt8

/-- `str::as_bytes`. -/
def asBytes (s : List Char) : Bytes := s.flatMap String.utf8EncodeChar

/-- `itoa::Buffer::format`. -/
def itoa (n : ℕ) : List Char := Nat.toDigits 10 n

def newline : UInt8 := 10

/-- `std::io::ErrorKind`, as far as this program tells kinds apart. -/
inductive ErrorKind where
  | brokenPipe
  | other (kind : ℕ)
  deriving DecidableEq, Repr

structure UnixStream where
  accepted : Bytes
  deriving DecidableEq, Repr

inductive Dest where
  | exec
  | uds (path : List Char) (stream : UnixStream)
  deriving DecidableEq, Repr

structure CollectdExporter where
  dest : Dest
  linePrefix : Bytes
  buf : Bytes
  deriving DecidableEq, Repr

/-- `write_all` takes the whole buffer, or fails after some of it. The bytes
accepted before a failure are a proper prefix: `piece accepted` of the line. -/
inductive WriteAll where
  | whole
  | failed (accepted : ℕ) (error : ErrorKind)
  deriving DecidableEq, Repr

/-- The answers of the operating system during one call. `flush` is asked on
stdout only, `connect` and `setWriteTimeout` only after a failed write. -/
structure Io where
  write : WriteAll
  flush : Except ErrorKind Unit
  connect : Except ErrorKind Unit
  setWriteTimeout : Except ErrorKind Unit

/-- What outlives the exporter: stdout, and the streams it has dropped. -/
structure Peers where
  stdout : Bytes
  closed : List UnixStream
  deriving DecidableEq, Repr

structure Session where
  exporter : CollectdExporter
  peers : Peers
  deriving DecidableEq, Repr

def buildPrefix (hostname targetName : List Char) (intervalSecs : ℕ) : Bytes :=
  asBytes "PUTVAL ".toList ++ asBytes hostname ++ asBytes "/wire-probe-tcp/latency-".toList ++
    asBytes targetName ++ asBytes " interval=".toList ++ asBytes (itoa intervalSecs) ++
    asBytes " N:".toList

def connectUds (io : Io) : Except ErrorKind UnixStream := do
  io.connect
  io.setWriteTimeout
  return ⟨[]⟩

def newExec (hostname targetName : List Char) (intervalSecs : ℕ) : CollectdExporter :=
  ⟨.exec,buildPrefix hostname targetName intervalSecs,[]⟩

def newUds (path hostname targetName : List Char) (intervalSecs : ℕ) (io : Io) :
    Except ErrorKind CollectdExporter := do
  let stream ← connectUds io
  return ⟨.uds path stream,buildPrefix hostname targetName intervalSecs,[]⟩

/-- A connected stream is a new one. -/
theorem connectUds_eq_ok {io : Io} {stream : UnixStream} (h : connectUds io = .ok stream) :
    stream = ⟨[]⟩ := by
  unfold connectUds at h
  cases hconnect : io.connect with
  | error e =>
    rw [hconnect] at h
    cases h
  | ok _ =>
    cases htimeout : io.setWriteTimeout with
    | error e =>
      rw [hconnect, htimeout] at h
      cases h
    | ok _ =>
      rw [hconnect, htimeout] at h
      cases h
      rfl

theorem newUds_eq_ok {path hostname targetName : List Char} {intervalSecs : ℕ} {io : Io}
    {e : CollectdExporter} (h : newUds path hostname targetName intervalSecs io = .ok e) :
    e = ⟨.uds path ⟨[]⟩,buildPrefix hostname targetName intervalSecs,[]⟩ := by
  unfold newUds at h
  cases hconnect : connectUds io with
  | error kind =>
    rw [hconnect] at h
    cases h
  | ok stream =>
    obtain rfl := connectUds_eq_ok hconnect
    rw [hconnect] at h
    cases h
    rfl

section Render
variable {R : Type*} (ryu : R → Bytes)

def formatLine (e : CollectdExporter) (rttMs : Option R) : CollectdExporter :=
  let buf := ([] : Bytes)
  let buf := buf ++ e.linePrefix
  let buf := match rttMs with
    | some rtt => buf ++ ryu rtt
    | none => buf ++ asBytes ['U']
  { e with buf := buf ++ [newline] }

def flushLine (s : Session) (io : Io) : Session × Except ErrorKind Unit :=
  let buf := s.exporter.buf
  match s.exporter.dest with
  | .exec =>
    match io.write with
    | .whole => ({ s with peers.stdout := s.peers.stdout ++ buf }, io.flush)
    | .failed n e => ({ s with peers.stdout := s.peers.stdout ++ piece n buf }, .error e)
  | .uds path stream =>
    match io.write with
    | .whole => ({ s with exporter.dest := .uds path ⟨stream.accepted ++ buf⟩ }, .ok ())
    | .failed n e =>
      let stale : UnixStream := ⟨stream.accepted ++ piece n buf⟩
      match connectUds io with
      | .ok fresh =>
        -- The old stream is dropped, and with it whatever it held of the line.
        (⟨{ s.exporter with dest := .uds path fresh },
          { s.peers with closed := s.peers.closed ++ [stale] }⟩, .error e)
      | .error reconnectErr =>
        -- The stale stream stays in place and the next send tries again.
        ({ s with exporter.dest := .uds path stale }, .error reconnectErr)

def send (s : Session) (rttMs : R) (io : Io) : Session × Except ErrorKind Unit :=
  flushLine { s with exporter := formatLine ryu s.exporter (some rttMs) } io

def sendFailure (s : Session) (io : Io) : Session × Except ErrorKind Unit :=
  flushLine { s with exporter := formatLine ryu s.exporter none } io

/-- One call of `send` or, without a value, of `send_failure`. -/
structure Call (R : Type*) where
  rttMs : Option R
  io : Io

def call (s : Session) (c : Call R) : Session × Except ErrorKind Unit :=
  match c.rttMs with
  | some rtt => send ryu s rtt c.io
  | none => sendFailure ryu s c.io

/-- The line a call renders, from the prefix and its own argument alone. -/
def line (linePrefix : Bytes) (rttMs : Option R) : Bytes :=
  linePrefix ++ (match rttMs with | some rtt => ryu rtt | none => asBytes ['U']) ++ [newline]

@[simp] theorem formatLine_buf (e : CollectdExporter) (rttMs : Option R) :
    (formatLine ryu e rttMs).buf = line ryu e.linePrefix rttMs := by
  cases rttMs <;> rfl

@[simp] theorem formatLine_dest (e : CollectdExporter) (rttMs : Option R) :
    (formatLine ryu e rttMs).dest = e.dest := rfl

@[simp] theorem formatLine_linePrefix (e : CollectdExporter) (rttMs : Option R) :
    (formatLine ryu e rttMs).linePrefix = e.linePrefix := rfl

theorem call_eq (s : Session) (c : Call R) :
    call ryu s c = flushLine { s with exporter := formatLine ryu s.exporter c.rttMs } c.io := by
  obtain ⟨rttMs,io⟩ := c
  cases rttMs <;> rfl

/-- Of the exporter, a flush touches the destination only. -/
theorem flushLine_frame (s : Session) (io : Io) :
    (flushLine s io).1.exporter =
      { s.exporter with dest := (flushLine s io).1.exporter.dest } := by
  unfold flushLine
  cases s.exporter.dest with
  | exec => cases io.write <;> rfl
  | uds path stream =>
    cases io.write with
    | whole => rfl
    | failed n e => cases connectUds io <;> rfl

theorem flushLine_linePrefix (s : Session) (io : Io) :
    (flushLine s io).1.exporter.linePrefix = s.exporter.linePrefix := by
  rw [flushLine_frame]

@[simp] theorem call_linePrefix (s : Session) (c : Call R) :
    (call ryu s c).1.exporter.linePrefix = s.exporter.linePrefix := by
  rw [call_eq, flushLine_linePrefix, formatLine_linePrefix]

end Render

end WireProbe.Collectd
