import WireProbe.Effect
import WireProbe.KernelRtt
import WireProbe.PluginRotation

/-!
# The read callback of the collectd plugin

One call of `readCb` is a pass over the hosts under a deadline. The clock, the
resolver and the sockets are the environment `Env`, whose calls answer and move
a state of their own; the pass logs each call to the resolver, each handshake,
each recorded outcome, each warning and each dispatched value. Seconds and
milliseconds are exact rationals.
-/

set_option autoImplicit false

namespace WireProbe.PluginRead
open WireProbe.Floats WireProbe.Effect WireProbe.PluginConfig WireProbe.KernelRtt
open WireProbe.GetAddrInfo

/-- How a pass can end early: an exception of a call it makes, or one of its
own arithmetic. -/
inductive Failure where
  | raised (e : Exception)
  | zeroDivision
  | mathDomain
  deriving DecidableEq, Repr

/-- A dispatched number; `sqrt q` is the real square root of `q`. -/
inductive Reading where
  | nan
  | num (q : ℚ)
  | sqrt (q : ℚ)
  deriving DecidableEq, Repr

inductive ValueType where
  | ping
  | pingDroprate
  | pingStddev
  deriving DecidableEq, Repr

abbrev StateKey := List Char × ℤ

/-- Each call of the resolver and each handshake with the state of the
environment before and after it, and its result. -/
inductive Event (σ : Type) where
  | resolve (start stop : σ) (key : StateKey) (answer : Except Failure (Option (List AddrInfo)))
  | handshake (start stop : σ) (addr : AddrInfo) (timeout : FloatVal)
      (rtt : Except Failure (Option ℚ))
  | record (key : StateKey) (succeeded : Bool)
  | warning (message : Message)
  | dispatch (typeInstance : List Char) (type : ValueType) (value : Reading)

structure Env (σ : Type) where
  monotonic : σ → ℚ × σ
  getInterval : σ → Except Exception FloatVal × σ
  getaddrinfo : StateKey → σ → Except Exception (List AddrInfo) × σ
  socket : ℤ → σ → Except Exception Unit × σ
  connect : SockAddr → FloatVal → σ → Except Exception Unit × σ
  hasTcpInfo : Bool
  byteOrder : ByteOrder
  getsockopt : σ → Except Exception (List UInt8) × σ
  close : σ → σ

structure World (σ : Type) where
  env : σ
  addrState : PluginRotation.AddrState StateKey AddrInfo
  log : List (Event σ)

abbrev Py (σ α : Type) := Eff (World σ) Failure α

variable {σ : Type}

def raising {α : Type} : Except Exception α → Except Failure α
  | .ok a => .ok a
  | .error e => .error (.raised e)

def call {α : Type} (f : σ → Except Exception α × σ) : Py σ α := fun w =>
  (raising (f w.env).1,{w with env := (f w.env).2})

def ofExcept {α : Type} (r : Except Failure α) : Py σ α := fun w => (r,w)

def emitted (event : Event σ) : Py σ Unit := Eff.modify fun w => {w with log := w.log++[event]}

def warning (message : Message) : Py σ Unit := emitted (.warning message)

def monotonic (env : Env σ) : Py σ ℚ := call fun s => (.ok (env.monotonic s).1,(env.monotonic s).2)

/-! ### The budget and the resolver -/

def fallbackInterval : FloatVal := .fin 10
def readBudgetRatio : ℚ := 4/5

def readBudget (env : Env σ) : Py σ FloatVal := do
  let interval ← (call env.getInterval).catching fun
    | .raised .attributeError => some fallbackInterval
    | .raised .typeError => some fallbackInterval
    | .raised .valueError => some fallbackInterval
    | _ => none
  pure ((if interval ≤ .fin 0 then fallbackInterval else interval).scale readBudgetRatio)

/-- `addrs or None`. -/
def orNone {α : Type} : List α → Option (List α)
  | [] => none
  | a::as => some (a::as)

def resolve (env : Env σ) (key : StateKey) : Py σ (Option (List AddrInfo)) :=
  Eff.catching (do
    let addrs ← call (env.getaddrinfo key)
    pure (orNone addrs)) fun
      | .raised .osError => some none
      | _ => none

/-- `_resolve_all`, logged. -/
def resolveAll (env : Env σ) (key : StateKey) : Py σ (Option (List AddrInfo)) := fun w =>
  let (answer, w') := resolve env key w
  (answer,{w' with log := w'.log++[.resolve w.env w'.env key answer]})

/-! ### One handshake -/

/-- The largest number of seconds that fits a count of nanoseconds. -/
def timeoutMax : ℚ := 9223372036854775807/1000000000

def settimeout : FloatVal → Except Failure Unit
  | .nan => .error (.raised .valueError)
  | .posInf => .error (.raised .overflowError)
  | .negInf => .error (.raised .overflowError)
  | .fin t =>
    if t < -timeoutMax ∨ timeoutMax < t then .error (.raised .overflowError)
    else if t < 0 then .error (.raised .valueError)
    else .ok ()

def kernelRttMs (env : Env σ) : Py σ (Option ℚ) :=
  if env.hasTcpInfo then do
    let raw ← Eff.catching (do
      let raw ← call env.getsockopt
      pure (some raw)) fun
        | .raised .osError => some none
        | _ => none
    match raw with
    | none => pure none
    | some raw => ofExcept (raising (blobRttMs env.byteOrder raw))
  else pure none

def timedConnect (env : Env σ) (addr : AddrInfo) (timeout : FloatVal) : Py σ (Option ℚ) := do
  ofExcept (settimeout timeout)
  let t₀ ← monotonic env
  call (env.connect addr.sockaddr timeout)
  let t₁ ← monotonic env
  let elapsedMs := (t₁-t₀)*1000
  let kernelMs ← kernelRttMs env
  pure (some (kernelMs.getD elapsedMs))

def handshake (env : Env σ) (addr : AddrInfo) (timeout : FloatVal) : Py σ (Option ℚ) := do
  -- Outside the `try`: a socket that cannot be had raises.
  call (env.socket addr.family)
  Eff.ensuring ((timedConnect env addr timeout).catching fun
    | .raised .osError => some none
    | _ => none) fun w => {w with env := env.close w.env}

/-- `_tcp_rtt`, logged. -/
def tcpRtt (env : Env σ) (addr : AddrInfo) (timeout : FloatVal) : Py σ (Option ℚ) := fun w =>
  let (rtt, w') := handshake env addr timeout w
  (rtt,{w' with log := w'.log++[.handshake w.env w'.env addr timeout rtt]})

/-! ### The pass -/

/-- The loop over `range(ping_count)`: the samples and the attempts. -/
def probes (env : Env σ) (timeout deadline : FloatVal) (addrInfo : Option AddrInfo) :
    ℕ → List ℚ → ℕ → Py σ (List ℚ × ℕ)
  | 0, samples, attempts => pure (samples,attempts)
  | n+1, samples, attempts =>
    match addrInfo with
    | none => pure (samples,attempts)
    | some addr => do
      let now ← monotonic env
      let remaining := deadline.sub (.fin now)
      if remaining ≤ .fin 0 then
        warning [.text "wire_probe: read budget exhausted, skipping remaining probes"]
        pure (samples,attempts)
      else
        let rtt ← tcpRtt env addr (timeout.min remaining)
        probes env timeout deadline addrInfo n (samples++rtt.toList) (attempts+1)

def preferredAddress (key : StateKey) (addrs : Option (List AddrInfo)) :
    Py σ (Option AddrInfo) := fun w =>
  let (addrState, addr) := PluginRotation.preferredAddress w.addrState key addrs
  (.ok addr,{w with addrState := addrState})

def intText (z : ℤ) : List Char :=
  if z < 0 then '-'::Text.decimal z.natAbs else Text.decimal z.natAbs

def rotationWarning (key : StateKey) (nxt : AddrInfo) : Message :=
  [.text "wire_probe: ", .str key.1, .text ":", .int key.2, .text " failed ",
    .int PluginRotation.rotateAfterFailures, .text " times, trying the next address ",
    .str (reprSockaddr nxt.sockaddr)]

/-- `_record_outcome`, logged, and the warning where it rotates. -/
def recordOutcome (key : StateKey) (addrs : Option (List AddrInfo)) (succeeded : Bool) :
    Py σ Unit := fun w =>
  let (addrState, rotated) := PluginRotation.recordOutcome w.addrState key addrs succeeded
  (.ok (),{w with
    addrState := addrState
    log := w.log++.record key succeeded::(rotated.map fun nxt => .warning (rotationWarning key nxt)).toList})

def divide (a b : ℚ) : Except Failure ℚ := if b = 0 then .error .zeroDivision else .ok (a/b)

def sqrt (q : ℚ) : Except Failure Reading := if q < 0 then .error .mathDomain else .ok (.sqrt q)

def droprate (addrInfo : Option AddrInfo) (attempts : ℕ) (samples : List ℚ) :
    Except Failure Reading :=
  match addrInfo with
  | none => .ok (.num 1)
  | some _ =>
    if attempts = 0 then .ok .nan
    else do
      let q ← divide (attempts-samples.length) attempts
      pure (.num q)

/-- The reported value and the deviation. -/
def statistics (aggregate : Aggregate) : List ℚ → Except Failure (Reading × Reading)
  | [] => .ok (.nan,.nan)
  | first::rest => do
    let samples := first::rest
    let mean ← divide samples.sum samples.length
    let reported := match aggregate with
      | .min => rest.foldl min first
      | .avg => mean
    if 1 < samples.length then do
      let variance ← divide (samples.map fun r => (r-mean)^2).sum samples.length
      let stddev ← sqrt variance
      pure (.num reported,stddev)
    else pure (.num reported,.nan)

def emit (typeInstance : List Char) (type : ValueType) (value : Reading) : Py σ Unit :=
  emitted (.dispatch typeInstance type value)

def seriesLabel (hostname : List Char) (port : ℤ) (hostPort : Option ℤ) : List Char :=
  if hostPort = none then hostname else hostname++ '_'::intText port

def warnUnresolved (hostname : List Char) : Option (List AddrInfo) → Py σ Unit
  | none => warning [.text "wire_probe: cannot resolve '", .str hostname, .text "', counting as drop"]
  | some _ => pure ()

/-- The target of an entry: its hostname with its own port, or else the global one. -/
def stateKey (defaultPort : ℤ) (host : HostEntry) : StateKey :=
  (host.hostname,host.port.getD defaultPort)

def labelOf (defaultPort : ℤ) (host : HostEntry) : List Char :=
  seriesLabel host.hostname (host.port.getD defaultPort) host.port

def probeHost (env : Env σ) (cfg : Config) (deadline : FloatVal) (host : HostEntry) :
    Py σ Unit := do
  let key := stateKey cfg.defaultPort host
  let label := labelOf cfg.defaultPort host
  let addrs ← resolveAll env key
  warnUnresolved host.hostname addrs
  let addrInfo ← preferredAddress key addrs
  let (samples, attempts) ← probes env cfg.timeout deadline addrInfo cfg.pingCount.toNat [] 0
  recordOutcome key addrs (!samples.isEmpty)
  let dropped ← ofExcept (droprate addrInfo attempts samples)
  let (reported, stddev) ← ofExcept (statistics cfg.aggregate samples)
  emit label .ping reported
  emit label .pingDroprate dropped
  emit label .pingStddev stddev

/-- The loop over `_hosts`; it ends at the first host the deadline precedes. -/
def readHosts (env : Env σ) (cfg : Config) (deadline : FloatVal) : List HostEntry → Py σ Unit
  | [] => pure ()
  | host::rest => do
    let now ← monotonic env
    if deadline ≤ .fin now then
      warning [.text "wire_probe: read budget exhausted, skipping '",
        .str (labelOf cfg.defaultPort host), .text "'"]
    else
      probeHost env cfg deadline host
      readHosts env cfg deadline rest

def readCb (env : Env σ) (cfg : Config) : Py σ Unit := do
  let now ← monotonic env
  let budget ← readBudget env
  readHosts env cfg ((FloatVal.fin now).add budget) cfg.hosts

end WireProbe.PluginRead
