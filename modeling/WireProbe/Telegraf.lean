import WireProbe.Collectd

/-!
# The Telegraf exporter

The exporter renders one line of the Influx line protocol into its buffer and
hands it to a connected UDP socket as one datagram. What the operating system
answers is an input; the rendering of floats is a parameter.
-/

set_option autoImplicit false

namespace WireProbe.Telegraf
open WireProbe.Collectd

/-- The datagrams a socket has taken. -/
structure UdpSocket where
  taken : List Bytes
  deriving DecidableEq, Repr

structure TelegrafExporter where
  socket : UdpSocket
  linePrefix : Bytes
  buf : Bytes
  deriving DecidableEq, Repr

def buildPrefix (targetName az : List Char) : Bytes :=
  asBytes "tcp_latency,target=".toList ++ asBytes targetName ++ asBytes ",az=".toList ++
    asBytes az ++ asBytes [' ']

/-- `TelegrafExporter::new`: binding the socket and connecting it to the endpoint. -/
def new (targetName az : List Char) (bind connect : Except ErrorKind Unit) :
    Except ErrorKind TelegrafExporter := do
  bind
  connect
  return ⟨⟨[]⟩,buildPrefix targetName az,[]⟩

def UdpSocket.send (socket : UdpSocket) (datagram : Bytes) (answer : Except ErrorKind Unit) :
    UdpSocket × Except ErrorKind Unit :=
  match answer with
  | .ok () => (⟨socket.taken++[datagram]⟩, .ok ())
  | .error e => (socket, .error e)

section Render
variable {R : Type*} (ryu : R → Bytes)

/-- The content of `out` after the call; what it held before is cleared. -/
def formatLine (linePrefix : Bytes) (rttMs : Option R) (tsNs : ℕ) : Bytes :=
  let out := linePrefix
  let out := match rttMs with
    | some rtt => out ++ asBytes "rtt_ms=".toList ++ ryu rtt ++ asBytes ",success=1i".toList
    | none => out ++ asBytes "success=0i".toList
  out ++ asBytes [' '] ++ asBytes (itoa tsNs) ++ [newline]

def flush (e : TelegrafExporter) (answer : Except ErrorKind Unit) :
    TelegrafExporter × Except ErrorKind Unit :=
  let (socket, sent) := e.socket.send e.buf answer
  ({ e with socket := socket }, sent)

def send (e : TelegrafExporter) (rttMs : R) (tsNs : ℕ) (answer : Except ErrorKind Unit) :
    TelegrafExporter × Except ErrorKind Unit :=
  flush { e with buf := formatLine ryu e.linePrefix (some rttMs) tsNs } answer

def sendFailure (e : TelegrafExporter) (tsNs : ℕ) (answer : Except ErrorKind Unit) :
    TelegrafExporter × Except ErrorKind Unit :=
  flush { e with buf := formatLine ryu e.linePrefix none tsNs } answer

end Render

end WireProbe.Telegraf
