import WireProbe.Growable
import WireProbe.ProbeLoop
import WireProbe.Sanitize

/-!
# The buffers of the exporters

Both exporters render every line into one vector, which has room for the
prefix and a fixed headroom from the start. Read as the bytes it holds, the
vector is the buffer of the exporter's model; a line never outgrows the
headroom, so no call moves the vector or depends on what was sent before.
-/

set_option autoImplicit false

namespace WireProbe.SendBuffers
open WireProbe.Collectd (Bytes asBytes itoa newline ErrorKind Dest Io Peers)
open WireProbe.ProbeLoop (ExportDst ExportIo Report)
open WireProbe.Growable WireProbe.Sanitize

/-- `usize::MAX`. -/
def usizeMax : ℕ := 2^64-1

/-- `isize::MAX`, the most bytes a vector can have. -/
def isizeMax : ℕ := 2^63-1

def saturatingAdd (m n : ℕ) : ℕ := min (m+n) usizeMax

section Model
variable (a : Allocator isizeMax) {R : Type*} (ryu : R → Bytes)

/-! ### The Telegraf exporter

Every function whose vector may need room answers nothing where it panics. -/

structure TelegrafExporter where
  socket : Telegraf.UdpSocket
  linePrefix : Bytes
  buf : Vec UInt8

namespace TelegrafExporter

def valueHeadroom : ℕ := 64

def new (targetName az : List Char) (bind connect : Except ErrorKind Unit) :
    Option (Except ErrorKind TelegrafExporter) :=
  match bind, connect with
  | .error e, _ => some (.error e)
  | .ok (), .error e => some (.error e)
  | .ok (), .ok () =>
    let linePrefix := Telegraf.buildPrefix targetName az
    (Vec.withCapacity a (saturatingAdd linePrefix.length valueHeadroom)).map
      fun buf => .ok ⟨⟨[]⟩,linePrefix,buf⟩

def formatLine (linePrefix : Bytes) (rttMs : Option R) (tsNs : UInt64) (out : Vec UInt8) :
    Option (Vec UInt8) := do
  let out := out.clear
  let out ← out.extendFromSlice a linePrefix
  let out ← (match rttMs with
    | some rtt => do
      let out ← out.extendFromSlice a (asBytes "rtt_ms=".toList)
      let out ← out.extendFromSlice a (ryu rtt)
      out.extendFromSlice a (asBytes ",success=1i".toList)
    | none => out.extendFromSlice a (asBytes "success=0i".toList))
  let out ← out.push a 32
  let out ← out.extendFromSlice a (asBytes (itoa tsNs.toNat))
  out.push a newline

def flush (e : TelegrafExporter) (answer : Except ErrorKind Unit) :
    TelegrafExporter × Except ErrorKind Unit :=
  let (socket, sent) := e.socket.send e.buf.content answer
  ({ e with socket := socket }, sent)

def send (e : TelegrafExporter) (rttMs : R) (tsNs : UInt64) (answer : Except ErrorKind Unit) :
    Option (TelegrafExporter × Except ErrorKind Unit) :=
  (formatLine a ryu e.linePrefix (some rttMs) tsNs e.buf).map
    fun buf => flush { e with buf := buf } answer

def sendFailure (e : TelegrafExporter) (tsNs : UInt64) (answer : Except ErrorKind Unit) :
    Option (TelegrafExporter × Except ErrorKind Unit) :=
  (formatLine a ryu e.linePrefix none tsNs e.buf).map
    fun buf => flush { e with buf := buf } answer

end TelegrafExporter

/-! ### The collectd exporter -/

structure CollectdExporter where
  dest : Dest
  linePrefix : Bytes
  buf : Vec UInt8

structure Session where
  exporter : CollectdExporter
  peers : Peers

/-- The session with the buffer read as the bytes it holds. -/
def Session.erase (s : Session) : Collectd.Session :=
  ⟨⟨s.exporter.dest,s.exporter.linePrefix,s.exporter.buf.content⟩,s.peers⟩

namespace CollectdExporter

def valueHeadroom : ℕ := 32

def newExec (hostname targetName : List Char) (intervalSecs : ℕ) : Option CollectdExporter :=
  let linePrefix := Collectd.buildPrefix hostname targetName intervalSecs
  (Vec.withCapacity a (saturatingAdd linePrefix.length valueHeadroom)).map
    fun buf => ⟨.exec,linePrefix,buf⟩

def newUds (path hostname targetName : List Char) (intervalSecs : ℕ) (io : Io) :
    Option (Except ErrorKind CollectdExporter) :=
  match Collectd.connectUds io with
  | .error e => some (.error e)
  | .ok stream =>
    let linePrefix := Collectd.buildPrefix hostname targetName intervalSecs
    (Vec.withCapacity a (saturatingAdd linePrefix.length valueHeadroom)).map
      fun buf => .ok ⟨.uds path stream,linePrefix,buf⟩

/-- What `format_line` does to the buffer. -/
def renderLine (linePrefix : Bytes) (rttMs : Option R) (buf : Vec UInt8) :
    Option (Vec UInt8) := do
  let buf := buf.clear
  let buf ← buf.extendFromSlice a linePrefix
  let buf ← (match rttMs with
    | some rtt => buf.extendFromSlice a (ryu rtt)
    | none => buf.push a 85)
  buf.push a newline

def formatLine (e : CollectdExporter) (rttMs : Option R) : Option CollectdExporter :=
  (renderLine a ryu e.linePrefix rttMs e.buf).map fun buf => { e with buf := buf }

end CollectdExporter

/-- `flush_line` reads the bytes of the buffer and may replace the stream. -/
def Session.flushLine (s : Session) (io : Io) : Session × Except ErrorKind Unit :=
  let (t, sent) := Collectd.flushLine s.erase io
  (⟨{ s.exporter with dest := t.exporter.dest },t.peers⟩, sent)

def Session.send (s : Session) (rttMs : R) (io : Io) :
    Option (Session × Except ErrorKind Unit) :=
  (s.exporter.formatLine a ryu (some rttMs)).map
    fun e => Session.flushLine { s with exporter := e } io

def Session.sendFailure (s : Session) (io : Io) :
    Option (Session × Except ErrorKind Unit) :=
  (s.exporter.formatLine a ryu none).map
    fun e => Session.flushLine { s with exporter := e } io

/-! ### Either exporter -/

inductive Exporter where
  | telegraf (e : TelegrafExporter)
  | collectd (s : Session)

namespace Exporter

def new (dst : ExportDst) (targetName az hostname : List Char) (intervalSecs : ℕ)
    (io : ExportIo) : Option (Except ErrorKind Exporter) :=
  match dst with
  | .telegrafUdp _ =>
    (TelegrafExporter.new a targetName az io.bind io.connectUdp).map (Except.map .telegraf)
  | .collectdUds path =>
    (CollectdExporter.newUds a path hostname targetName intervalSecs io.io).map
      (Except.map fun e => .collectd ⟨e,⟨[],[]⟩⟩)
  | .collectdExec =>
    (CollectdExporter.newExec a hostname targetName intervalSecs).map
      fun e => .ok (.collectd ⟨e,⟨[],[]⟩⟩)

def send (x : Exporter) (rttMs : R) (tsNs : UInt64) (io : ExportIo) :
    Option (Exporter × Except ErrorKind Unit) :=
  match x with
  | .telegraf e => (e.send a ryu rttMs tsNs io.sendUdp).map (Prod.map .telegraf id)
  | .collectd s => (s.send a ryu rttMs io.io).map (Prod.map .collectd id)

def sendFailure (x : Exporter) (tsNs : UInt64) (io : ExportIo) :
    Option (Exporter × Except ErrorKind Unit) :=
  match x with
  | .telegraf e => (e.sendFailure a ryu tsNs io.sendUdp).map (Prod.map .telegraf id)
  | .collectd s => (s.sendFailure a ryu io.io).map (Prod.map .collectd id)

def linePrefix : Exporter → Bytes
  | .telegraf e => e.linePrefix
  | .collectd s => s.exporter.linePrefix

def buf : Exporter → Vec UInt8
  | .telegraf e => e.buf
  | .collectd s => s.exporter.buf

/-- The exporter with its buffer read as the bytes it holds. -/
def erase : Exporter → ProbeLoop.Exporter
  | .telegraf e => .telegraf ⟨e.socket,e.linePrefix,e.buf.content⟩
  | .collectd s => .collectd s.erase

end Exporter

/-- A call of `send` or, without a value, of `send_failure`. -/
structure Call (R : Type*) where
  rttMs : Option R
  tsNs : UInt64
  io : ExportIo

def Call.report (c : Call R) : Report R :=
  match c.rttMs with
  | some rtt => .send rtt c.tsNs.toNat
  | none => .sendFailure c.tsNs.toNat

def Exporter.call (x : Exporter) (c : Call R) : Option (Exporter × Except ErrorKind Unit) :=
  match c.rttMs with
  | some rtt => x.send a ryu rtt c.tsNs c.io
  | none => x.sendFailure a ryu c.tsNs c.io

/-- The exporter after a sequence of calls, whatever they answered. -/
def Exporter.runs (x : Exporter) (calls : List (Call R)) : Option Exporter :=
  calls.foldlM (fun x c => (x.call a ryu c).map Prod.fst) x

/-! ### What a call renders -/

theorem TelegrafExporter.renders_formatLine (linePrefix : Bytes) (rttMs : Option R)
    (tsNs : UInt64) : Renders (TelegrafExporter.formatLine a ryu linePrefix rttMs tsNs)
      (Telegraf.formatLine ryu linePrefix rttMs tsNs.toNat) := by
  have hend := emits_bind (emits_push a 32)
    (emits_bind (emits_extendFromSlice a (asBytes (itoa tsNs.toNat))) (emits_push a newline))
  cases rttMs with
  | none =>
    have hline := emits_bind (emits_extendFromSlice a linePrefix)
      (emits_bind (emits_extendFromSlice a (asBytes "success=0i".toList)) hend)
    simp only [Telegraf.formatLine, List.append_assoc]
    exact renders_clear hline
  | some rtt =>
    have hfields := emits_bind (emits_extendFromSlice a (asBytes "rtt_ms=".toList))
      (emits_bind (emits_extendFromSlice a (ryu rtt))
        (emits_extendFromSlice a (asBytes ",success=1i".toList)))
    have hline := emits_bind (emits_extendFromSlice a linePrefix) (emits_bind hfields hend)
    simp only [List.append_assoc] at hline
    simp only [Telegraf.formatLine, List.append_assoc]
    exact renders_clear hline

theorem CollectdExporter.renders_renderLine (linePrefix : Bytes) (rttMs : Option R) :
    Renders (CollectdExporter.renderLine a ryu linePrefix rttMs)
      (Collectd.line ryu linePrefix rttMs) := by
  cases rttMs with
  | none =>
    have hline := emits_bind (emits_extendFromSlice a linePrefix)
      (emits_bind (emits_push a 85) (emits_push a newline))
    simp only [Collectd.line, List.append_assoc]
    exact renders_clear hline
  | some rtt =>
    have hline := emits_bind (emits_extendFromSlice a linePrefix)
      (emits_bind (emits_extendFromSlice a (ryu rtt)) (emits_push a newline))
    simp only [Collectd.line, List.append_assoc]
    exact renders_clear hline

/-! ### A call renders, then ships -/

theorem Session.flushLine_erase (s : Session) (io : Io) :
    Collectd.flushLine s.erase io = ((s.flushLine io).1.erase,(s.flushLine io).2) := by
  have hframe := Collectd.flushLine_frame s.erase io
  refine Prod.ext ?_ rfl
  exact congrArg (fun e => (⟨e,(Collectd.flushLine s.erase io).1.peers⟩ : Collectd.Session)) hframe

namespace Exporter

/-- What a call does to the buffer. -/
def render (x : Exporter) (c : Call R) : Vec UInt8 → Option (Vec UInt8) :=
  match x with
  | .telegraf e => TelegrafExporter.formatLine a ryu e.linePrefix c.rttMs c.tsNs
  | .collectd s => CollectdExporter.renderLine a ryu s.exporter.linePrefix c.rttMs

/-- What a call does with the rendered buffer. -/
def ship (x : Exporter) (buf : Vec UInt8) (io : ExportIo) : Exporter × Except ErrorKind Unit :=
  match x with
  | .telegraf e => Prod.map .telegraf id (TelegrafExporter.flush { e with buf := buf } io.sendUdp)
  | .collectd s => Prod.map .collectd id (Session.flushLine { s with exporter.buf := buf } io.io)

theorem call_eq (x : Exporter) (c : Call R) :
    x.call a ryu c = (x.render a ryu c x.buf).map fun buf => x.ship buf c.io := by
  obtain ⟨rttMs,tsNs,io⟩ := c
  cases x with
  | telegraf e =>
    have hcall : (telegraf e).call a ryu ⟨rttMs,tsNs,io⟩ =
        ((TelegrafExporter.formatLine a ryu e.linePrefix rttMs tsNs e.buf).map fun buf =>
          TelegrafExporter.flush { e with buf := buf } io.sendUdp).map (Prod.map telegraf id) := by
      cases rttMs <;> rfl
    rw [hcall, Option.map_map]
    rfl
  | collectd s =>
    have hcall : (collectd s).call a ryu ⟨rttMs,tsNs,io⟩ =
        (((CollectdExporter.renderLine a ryu s.exporter.linePrefix rttMs s.exporter.buf).map
          fun buf => { s.exporter with buf := buf }).map fun e =>
            Session.flushLine { s with exporter := e } io.io).map (Prod.map collectd id) := by
      cases rttMs <;> rfl
    rw [hcall, Option.map_map, Option.map_map]
    rfl

@[simp] theorem ship_buf (x : Exporter) (buf : Vec UInt8) (io : ExportIo) :
    (x.ship buf io).1.buf = buf := by
  cases x <;> rfl

@[simp] theorem ship_linePrefix (x : Exporter) (buf : Vec UInt8) (io : ExportIo) :
    (x.ship buf io).1.linePrefix = x.linePrefix := by
  cases x <;> rfl

/-- Read as the bytes it holds, a call with a buffer that may grow is the call
of the exporter's model. -/
theorem call_erase {x y : Exporter} {c : Call R} {sent : Except ErrorKind Unit}
    (h : x.call a ryu c = some (y,sent)) : x.erase.call ryu c.io c.report = (y.erase,sent) := by
  rw [call_eq] at h
  obtain ⟨buf,hbuf,hship⟩ := Option.map_eq_some_iff.mp h
  obtain ⟨rttMs,tsNs,io⟩ := c
  cases x with
  | telegraf e =>
    have hcontent := (TelegrafExporter.renders_formatLine a ryu e.linePrefix rttMs tsNs).content
      hbuf
    cases hship
    cases rttMs <;> simp only [erase, hcontent] <;> rfl
  | collectd s =>
    have hcontent := (CollectdExporter.renders_renderLine a ryu s.exporter.linePrefix rttMs).content
      hbuf
    have hrendered : { s.erase with exporter := Collectd.formatLine ryu s.erase.exporter rttMs } =
        Session.erase { s with exporter.buf := buf } := by
      cases rttMs <;> simp only [Session.erase, hcontent] <;> rfl
    have hcall : (collectd s).erase.call ryu io (Call.report ⟨rttMs,tsNs,io⟩) =
        Prod.map .collectd id (Collectd.call ryu s.erase ⟨rttMs,io.io⟩) := by
      cases rttMs <;> rfl
    rw [hcall, Collectd.call_eq, hrendered, Session.flushLine_erase]
    cases hship
    rfl

/-- Every run is a run of the model. -/
theorem runs_erase {x y : Exporter} {calls : List (Call R)} (h : x.runs a ryu calls = some y) :
    calls.foldl (fun m c => (m.call ryu c.io c.report).1) x.erase = y.erase := by
  induction calls generalizing x with
  | nil =>
    cases h
    rfl
  | cons c calls ih =>
    obtain ⟨z,hz,hrest⟩ := Option.bind_eq_some_iff.mp h
    obtain ⟨⟨z,sent⟩,hcall,rfl⟩ := Option.map_eq_some_iff.mp hz
    rw [List.foldl_cons, call_erase a ryu hcall]
    exact ih hrest

end Exporter

/-! ### What a call renders -/

/-- The line of a call, from the prefix and its own arguments alone. -/
def line (dst : ExportDst) (linePrefix : Bytes) (c : Call R) : Bytes :=
  match dst with
  | .telegrafUdp _ => Telegraf.formatLine ryu linePrefix c.rttMs c.tsNs.toNat
  | .collectdUds _ => Collectd.line ryu linePrefix c.rttMs
  | .collectdExec => Collectd.line ryu linePrefix c.rttMs

def valueHeadroom : ExportDst → ℕ
  | .telegrafUdp _ => TelegrafExporter.valueHeadroom
  | .collectdUds _ => CollectdExporter.valueHeadroom
  | .collectdExec => CollectdExporter.valueHeadroom

/-- The exporter is of the kind the destination asks for. -/
def Exporter.Serves : ExportDst → Exporter → Prop
  | .telegrafUdp _, .telegraf _ => True
  | .collectdUds _, .collectd _ => True
  | .collectdExec, .collectd _ => True
  | _, _ => False

theorem Exporter.renders {dst : ExportDst} {x : Exporter} (h : x.Serves dst) (c : Call R) :
    Renders (x.render a ryu c) (line ryu dst x.linePrefix c) := by
  cases dst <;> cases x
  · exact TelegrafExporter.renders_formatLine a ryu _ c.rttMs c.tsNs
  · cases h
  · cases h
  · exact CollectdExporter.renders_renderLine a ryu _ c.rttMs
  · cases h
  · exact CollectdExporter.renders_renderLine a ryu _ c.rttMs

theorem length_itoa (n : UInt64) : (asBytes (itoa n.toNat)).length ≤ 20 := by
  have hascii : Ascii (itoa n.toNat) := fun c hc => (decimal_component _ c hc).printable.2
  rw [asBytes_ascii hascii, List.length_map]
  exact (Nat.length_toDigits_le_iff (by decide) (by decide)).mpr
    (n.toNat_lt.trans (by decide))

/-- The headroom is counted for a timestamp of 19 digits; one of 20 fills it to
the last byte. -/
theorem length_formatLine (hryu : ∀ r, (ryu r).length ≤ 24) (linePrefix : Bytes)
    (rttMs : Option R) (tsNs : UInt64) :
    (Telegraf.formatLine ryu linePrefix rttMs tsNs.toNat).length ≤ linePrefix.length+64 := by
  have hts := length_itoa tsNs
  have hspace : (asBytes [' ']).length = 1 := rfl
  cases rttMs with
  | none =>
    have hfields : (asBytes "success=0i".toList).length = 10 := rfl
    simp only [Telegraf.formatLine, List.length_append, List.length_singleton]
    omega
  | some rtt =>
    have hrtt := hryu rtt
    have hkey : (asBytes "rtt_ms=".toList).length = 7 := rfl
    have hflag : (asBytes ",success=1i".toList).length = 11 := rfl
    simp only [Telegraf.formatLine, List.length_append, List.length_singleton]
    omega

example : (Telegraf.formatLine (fun _ : Unit => asBytes "-2.2250738585072014e-308".toList) []
    (some ()) (UInt64.toNat 18446744073709551615)).length = 64 := by decide

theorem length_putval (hryu : ∀ r, (ryu r).length ≤ 24) (linePrefix : Bytes)
    (rttMs : Option R) : (Collectd.line ryu linePrefix rttMs).length ≤ linePrefix.length+25 := by
  cases rttMs with
  | none =>
    have hundefined : (asBytes ['U']).length = 1 := rfl
    simp only [Collectd.line, List.length_append, List.length_singleton]
    omega
  | some rtt =>
    have hrtt := hryu rtt
    simp only [Collectd.line, List.length_append, List.length_singleton]
    omega

theorem length_line (hryu : ∀ r, (ryu r).length ≤ 24) (dst : ExportDst) (linePrefix : Bytes)
    (c : Call R) : (line ryu dst linePrefix c).length ≤ linePrefix.length+valueHeadroom dst := by
  have hputval : (Collectd.line ryu linePrefix c.rttMs).length ≤ linePrefix.length+32 :=
    (length_putval ryu hryu linePrefix c.rttMs).trans (Nat.add_le_add_left (by decide) _)
  cases dst with
  | telegrafUdp addr => exact length_formatLine ryu hryu linePrefix c.rttMs c.tsNs
  | collectdUds path => exact hputval
  | collectdExec => exact hputval

/-! ### Every sequence of calls -/

/-- An exporter for the destination whose buffer is as it was reserved. -/
structure Steady (dst : ExportDst) (linePrefix : Bytes) (capacity : ℕ) (x : Exporter) : Prop where
  serves : x.Serves dst
  linePrefix_eq : x.linePrefix = linePrefix
  capacity_eq : x.buf.capacity = capacity
  reserved : linePrefix.length+valueHeadroom dst ≤ capacity
  peak_le : x.buf.peak ≤ linePrefix.length+valueHeadroom dst
  moves_eq : x.buf.moves = 0

theorem Exporter.ship_serves {dst : ExportDst} {x : Exporter} (h : x.Serves dst) (buf : Vec UInt8)
    (io : ExportIo) : (x.ship buf io).1.Serves dst := by
  cases dst <;> cases x <;> exact h

variable {dst : ExportDst} {linePrefix : Bytes} {capacity : ℕ} {x : Exporter}

theorem Steady.call (h : Steady dst linePrefix capacity x) (hryu : ∀ r, (ryu r).length ≤ 24)
    (c : Call R) : ∃ y sent, x.call a ryu c = some (y,sent) ∧ Steady dst linePrefix capacity y ∧
      y.buf.content = line ryu dst linePrefix c := by
  have hlength := length_line ryu hryu dst linePrefix c
  have hrenders := x.renders a ryu h.serves c
  rw [h.linePrefix_eq] at hrenders
  obtain ⟨buf,hbuf,hplace⟩ := hrenders.inPlace x.buf
    (h.capacity_eq ▸ hlength.trans h.reserved)
  refine ⟨(x.ship buf c.io).1,(x.ship buf c.io).2,?_,?_,?_⟩
  · rw [x.call_eq, hbuf]
    rfl
  · exact {
      serves := Exporter.ship_serves h.serves buf c.io
      linePrefix_eq := (x.ship_linePrefix buf c.io).trans h.linePrefix_eq
      capacity_eq := by rw [x.ship_buf, hplace.capacity, h.capacity_eq]
      reserved := h.reserved
      peak_le := by
        rw [x.ship_buf]
        exact hplace.peak.trans (max_le h.peak_le hlength)
      moves_eq := by rw [x.ship_buf, hplace.moves, h.moves_eq] }
  · rw [x.ship_buf]
    exact hrenders.content hbuf

theorem Steady.runs (h : Steady dst linePrefix capacity x) (hryu : ∀ r, (ryu r).length ≤ 24)
    (calls : List (Call R)) :
    ∃ y, x.runs a ryu calls = some y ∧ Steady dst linePrefix capacity y := by
  induction calls generalizing x with
  | nil => exact ⟨x,rfl,h⟩
  | cons c calls ih =>
    obtain ⟨y,sent,hy,hsteady,-⟩ := h.call a ryu hryu c
    obtain ⟨z,hz,hsteady'⟩ := ih hsteady
    refine ⟨z,?_,hsteady'⟩
    rw [Exporter.runs, List.foldlM_cons, hy]
    exact hz

variable {a}

/-- A sum that is granted has not saturated. -/
theorem reserved_buffer {m n : ℕ} {v : Vec UInt8}
    (h : Vec.withCapacity a (saturatingAdd m n) = some v) :
    m+n ≤ v.capacity ∧ v.content = [] ∧ v.peak = 0 ∧ v.moves = 0 := by
  obtain ⟨hcapacity,hlimit,hv⟩ := Vec.withCapacity_eq_some a h
  have hsum : saturatingAdd m n = m+n := by
    unfold saturatingAdd usizeMax isizeMax at *
    omega
  exact ⟨hsum ▸ hcapacity,hv⟩

/-- A new exporter is the model's, with a new buffer that has room for the
prefix and the headroom. -/
theorem Exporter.new_eq_ok {targetName az hostname : List Char} {intervalSecs : ℕ} {io : ExportIo}
    (h : Exporter.new a dst targetName az hostname intervalSecs io = some (.ok x)) :
    x.Serves dst ∧
    Vec.withCapacity a (saturatingAdd x.linePrefix.length (valueHeadroom dst)) = some x.buf ∧
    ProbeLoop.Exporter.new dst targetName az hostname intervalSecs io = .ok x.erase := by
  cases dst with
  | telegrafUdp addr =>
    obtain ⟨opened,hopened,hx⟩ := Option.map_eq_some_iff.mp h
    unfold TelegrafExporter.new at hopened
    split at hopened
    next =>
      cases hopened
      cases hx
    next =>
      cases hopened
      cases hx
    next hbind hconnect =>
      obtain ⟨buf,hbuf,rfl⟩ := Option.map_eq_some_iff.mp hopened
      cases hx
      refine ⟨trivial,hbuf,?_⟩
      rw [ProbeLoop.Exporter.new, hbind, hconnect, Exporter.erase, (reserved_buffer hbuf).2.1]
      rfl
  | collectdUds path =>
    obtain ⟨opened,hopened,hx⟩ := Option.map_eq_some_iff.mp h
    unfold CollectdExporter.newUds at hopened
    split at hopened
    next =>
      cases hopened
      cases hx
    next stream hstream =>
      obtain ⟨buf,hbuf,rfl⟩ := Option.map_eq_some_iff.mp hopened
      cases hx
      refine ⟨trivial,hbuf,?_⟩
      rw [ProbeLoop.Exporter.new, Collectd.newUds, hstream, Exporter.erase, Session.erase,
        (reserved_buffer hbuf).2.1]
      rfl
  | collectdExec =>
    obtain ⟨e,he,hx⟩ := Option.map_eq_some_iff.mp h
    obtain ⟨buf,hbuf,rfl⟩ := Option.map_eq_some_iff.mp he
    cases hx
    refine ⟨trivial,hbuf,?_⟩
    rw [ProbeLoop.Exporter.new, Exporter.erase, Session.erase, (reserved_buffer hbuf).2.1]
    rfl

/-- After every call of every sequence the buffer is the line of that call, in
the room reserved at construction: it was nowhere longer than the prefix and the
headroom, and has never moved. -/
theorem buffers_never_grow (hryu : ∀ r, (ryu r).length ≤ 24) (dst : ExportDst)
    (targetName az hostname : List Char) (intervalSecs : ℕ) (io : ExportIo) (x : Exporter)
    (h : Exporter.new a dst targetName az hostname intervalSecs io = some (.ok x))
    (calls : List (Call R)) (c : Call R) :
    x.linePrefix.length+valueHeadroom dst ≤ x.buf.capacity ∧
    ∃ y, x.runs a ryu (calls++[c]) = some y ∧
      y.buf.content = line ryu dst x.linePrefix c ∧ y.linePrefix = x.linePrefix ∧
      y.buf.peak ≤ x.linePrefix.length+valueHeadroom dst ∧
      y.buf.capacity = x.buf.capacity ∧ y.buf.moves = 0 := by
  obtain ⟨hserves,hbuf,-⟩ := Exporter.new_eq_ok h
  obtain ⟨hreserved,-,hpeak,hmoves⟩ := reserved_buffer hbuf
  have hsteady : Steady dst x.linePrefix x.buf.capacity x :=
    ⟨hserves,rfl,rfl,hreserved,hpeak ▸ Nat.zero_le _,hmoves⟩
  obtain ⟨y,hy,hsteady⟩ := hsteady.runs a ryu hryu calls
  obtain ⟨z,sent,hz,hsteady,hcontent⟩ := hsteady.call a ryu hryu c
  refine ⟨hreserved,z,?_,hcontent,hsteady.linePrefix_eq,hsteady.peak_le,hsteady.capacity_eq,
    hsteady.moves_eq⟩
  rw [Exporter.runs] at hy
  rw [Exporter.runs, List.foldlM_append, hy]
  simp only [Option.bind_eq_bind, Option.bind_some, List.foldlM_cons, hz, Option.map_some]
  rfl

end Model

/-- The least normal float below zero, as `ryu` prints it. -/
def longest (_ : Unit) : Bytes := asBytes "-2.2250738585072014e-308".toList

def opened : ExportIo := ⟨.ok (),.ok (),.ok (),⟨.whole,.ok (),.ok (),.ok ()⟩⟩

/-- A datagram that is refused, then a line that fills the headroom. -/
theorem buffers_never_grow_longest : ∃ x : Exporter,
    Exporter.new (Allocator.doubling isizeMax 8) (.telegrafUdp "127.0.0.1:8094".toList)
      "db_9999".toList "eu-west".toList "obs01".toList 10 opened = some (.ok x) ∧
    ∃ y, x.runs (Allocator.doubling isizeMax 8) longest [
        ⟨none,0,{ opened with sendUdp := .error (.other 0) }⟩,
        ⟨some (),18446744073709551615,opened⟩] = some y ∧
      y.buf.content = asBytes ("tcp_latency,target=db_9999,az=eu-west ".toList ++
        "rtt_ms=-2.2250738585072014e-308,success=1i 18446744073709551615\n".toList) ∧
      y.buf.peak ≤ 38+64 ∧ y.buf.moves = 0 := by
  refine ⟨_,rfl,?_⟩
  obtain ⟨-,y,hy,hcontent,-,hpeak,-,hmoves⟩ := buffers_never_grow
    (a := Allocator.doubling isizeMax 8) longest (by decide)
    (.telegrafUdp "127.0.0.1:8094".toList) "db_9999".toList "eu-west".toList "obs01".toList 10
    opened _ rfl [⟨none,0,{ opened with sendUdp := .error (.other 0) }⟩]
    ⟨some (),18446744073709551615,opened⟩
  exact ⟨y,hy,hcontent.trans (by decide),hpeak,hmoves⟩

end WireProbe.SendBuffers
