import WireProbe.Floats

/-!
# The configuration callback of the collectd plugin

`configCb` walks the nodes of one Module block. A node changes one of the
module's variables, issues a warning, or raises; an exception leaves the nodes
behind it unread. What Python's `int` and `float` make of a string is a
parameter.
-/

set_option autoImplicit false

namespace WireProbe.PluginConfig
open WireProbe.Floats

/-- The classes of exceptions this program tells apart. -/
inductive Exception where
  | attributeError
  | indexError
  | typeError
  | valueError
  | overflowError
  | osError
  | other
  deriving DecidableEq, Repr

/-- A value of a configuration node. -/
inductive Value where
  | str (s : List Char)
  | float (x : FloatVal)
  | bool (b : Bool)
  deriving DecidableEq, Repr

structure Node where
  key : List Char
  values : List Value
  deriving DecidableEq, Repr

/-- The parts of a formatted message. `repr` is the conversion `!r`. -/
inductive Piece where
  | text (s : String)
  | str (s : List Char)
  | value (v : Value)
  | repr (v : Value)
  | int (z : ℤ)
  | float (x : FloatVal)
  deriving DecidableEq, Repr

abbrev Message := List Piece

/-- An element of `_hosts`. -/
structure HostEntry where
  raw : List Char
  hostname : List Char
  port : Option ℤ
  deriving DecidableEq, Repr

inductive Aggregate where
  | avg
  | min
  deriving DecidableEq, Repr

/-- The module variables that the configuration sets, at their defaults. -/
structure Config where
  hosts : List HostEntry := []
  timeout : FloatVal := .fin 5
  pingCount : ℤ := 1
  defaultPort : ℤ := 9999
  aggregate : Aggregate := .avg
  deriving DecidableEq, Repr

/-- `int` and `float` of a string; `none` where they raise `ValueError`. -/
structure Casts where
  int : List Char → Option ℤ
  float : List Char → Option FloatVal

def castInt (casts : Casts) : Value → Except Exception ℤ
  | .str s => (casts.int s).elim (.error .valueError) .ok
  | .float (.fin q) => .ok (q.num.tdiv q.den)
  | .float .nan => .error .valueError
  | .float .posInf => .error .overflowError
  | .float .negInf => .error .overflowError
  | .bool b => .ok (if b then 1 else 0)

def castFloat (casts : Casts) : Value → Except Exception FloatVal
  | .str s => (casts.float s).elim (.error .valueError) .ok
  | .float x => .ok x
  | .bool b => .ok (.fin (if b then 1 else 0))

/-- `str.lower`. No character outside ASCII becomes one of the letters of the
words it is compared with here. -/
def lower (s : List Char) : List Char := s.map Char.toLower

def validPort (port : ℤ) : Bool := 1 ≤ port ∧ port ≤ 65535

def parsePort (casts : Casts) (portStr raw : List Char) : Option ℤ × List Message :=
  match casts.int portStr with
  | none =>
    (none,[[.text "wire_probe: non-numeric port in Host '", .str raw, .text "', using default port"]])
  | some port =>
    if validPort port then (some port,[])
    else (none,[[.text "wire_probe: inline port ", .int port, .text " in '", .str raw,
      .text "' out of range [1, 65535], using default port"]])

/-- The texts before and after the last `c`, as `str.rpartition` has them. -/
def rpartition (c : Char) (s : List Char) : List Char × List Char :=
  let (after, before) := s.reverse.span (· != c)
  (before.tail.reverse,after.reverse)

/-- The hostname and the port that a Host value names, and the warnings. -/
def splitHostPort (casts : Casts) (raw : List Char) :
    (List Char × Option ℤ) × List Message :=
  if raw.head? = some '[' then
    let (addr, rest) := raw.span (· != ']')
    let host := addr.tail
    match rest with
    | [] => ((raw,none),[[.text "wire_probe: unbalanced '[' in Host '", .str raw, .text "'"]])
    | _:: ':'::portStr =>
      let (port, warnings) := parsePort casts portStr raw
      ((host,port),warnings)
    | _ => ((host,none),[])
  else if 2 ≤ raw.count ':' then ((raw,none),[])
  else if raw.contains ':' then
    let (host, portStr) := rpartition ':' raw
    let (port, warnings) := parsePort casts portStr raw
    ((host,port),warnings)
  else ((raw,none),[])

/-- One numeric value, or none and a warning. The handler names `IndexError`,
`TypeError` and `ValueError`; anything else escapes it. -/
def numeric {α : Type} (node : Node) (cast : Value → Except Exception α) (name : String)
    (default : Piece) : Except Exception (Option α × List Message) :=
  let attempt : Except Exception α := match node.values with
    | [] => .error .indexError
    | v::_ => cast v
  match attempt with
  | .ok a => .ok (some a,[])
  | .error e =>
    if e = .indexError ∨ e = .typeError ∨ e = .valueError then
      let raw := node.values.headD (.str "(missing)".toList)
      .ok (none,[[.text "wire_probe: ", .text name, .text " ", .repr raw,
        .text " is not a number, using default ", default]])
    else .error e

/-- The three numeric settings: read, reject with a warning, or assign. -/
def numericSetting {α : Type} (s : Config) (node : Node) (cast : Value → Except Exception α)
    (name : String) (piece : α → Piece) (range : String) (default : Piece)
    (rejected : α → Bool) (assign : α → Config) : Except Exception (Config × List Message) :=
  match numeric node cast name default with
  | .error e => .error e
  | .ok (none,warnings) => .ok (s,warnings)
  | .ok (some a,warnings) =>
    if rejected a then
      .ok (s,warnings++[[.text "wire_probe: ", .text name, .text " ", piece a,
        .text " out of range ", .text range, .text ", using default ", default]])
    else .ok (assign a,warnings)

def configHost (casts : Casts) (s : Config) (node : Node) :
    Except Exception (Config × List Message) :=
  match node.values with
  | [] => .error .indexError
  | .str raw::_ =>
    let ((hostname, port), warnings) := splitHostPort casts raw
    let entry : HostEntry := ⟨raw,hostname,port⟩
    if s.hosts.contains entry then
      .ok (s,warnings++[[.text "wire_probe: duplicate Host '", .str raw, .text "', ignoring"]])
    else .ok ({s with hosts := s.hosts++[entry]},warnings)
  -- Only a string has `startswith`.
  | _::_ => .error .attributeError

def configPort (casts : Casts) (s : Config) (node : Node) :
    Except Exception (Config × List Message) :=
  numericSetting s node (castInt casts) "Port" .int "[1, 65535]" (.int s.defaultPort)
    (fun port => !validPort port) (fun port => {s with defaultPort := port})

def configTimeout (casts : Casts) (s : Config) (node : Node) :
    Except Exception (Config × List Message) :=
  numericSetting s node (castFloat casts) "Timeout" .float "(0, 60]" (.float s.timeout)
    (fun t => t ≤ .fin 0 ∨ .fin 60 < t) (fun t => {s with timeout := t})

def configPingCount (casts : Casts) (s : Config) (node : Node) :
    Except Exception (Config × List Message) :=
  numericSetting s node (castInt casts) "PingCount" .int "[1, 100]" (.int s.pingCount)
    (fun pc => ¬(1 ≤ pc ∧ pc ≤ 100)) (fun pc => {s with pingCount := pc})

/-- `str(value).lower()` as a mode. The text of a float or a bool is none. -/
def readMode : Value → Option Aggregate
  | .str s =>
    if lower s = "avg".toList then some .avg
    else if lower s = "min".toList then some .min
    else none
  | .float _ => none
  | .bool _ => none

def aggregateName : Aggregate → String
  | .avg => "avg"
  | .min => "min"

def configAggregate (s : Config) (node : Node) : Except Exception (Config × List Message) :=
  match node.values with
  | [] => .error .indexError
  | v::_ =>
    match readMode v with
    | none => .ok (s,[[.text "wire_probe: Aggregate '", .value v,
        .text "' unknown (expected avg or min), using default ", .text (aggregateName s.aggregate)]])
    | some mode => .ok ({s with aggregate := mode},[])

/-- The body of the loop over `conf.children`. -/
def configNode (casts : Casts) (s : Config) (node : Node) :
    Except Exception (Config × List Message) :=
  let key := lower node.key
  if key = "host".toList then configHost casts s node
  else if key = "port".toList then configPort casts s node
  else if key = "timeout".toList then configTimeout casts s node
  else if key = "pingcount".toList then configPingCount casts s node
  else if key = "aggregate".toList then configAggregate s node
  else .ok (s,[[.text "wire_probe: unknown config key '", .str node.key, .text "'"]])

structure Outcome where
  config : Config
  warnings : List Message
  raised : Option Exception
  deriving DecidableEq, Repr

/-- No node changes a variable or warns before it raises. -/
def configCb (casts : Casts) : Config → List Node → Outcome
  | s, [] => ⟨s,[],none⟩
  | s, node::rest =>
    match configNode casts s node with
    | .error e => ⟨s,[],some e⟩
    | .ok (s',warnings) =>
      let out := configCb casts s' rest
      {out with warnings := warnings++out.warnings}

/-- collectd calls back once per Module block; the variables persist. -/
def configured (casts : Casts) (s : Config) (blocks : List (List Node)) : Config :=
  blocks.foldl (fun s nodes => (configCb casts s nodes).config) s

end WireProbe.PluginConfig
