import WireProbe.AcceptProgress
import WireProbe.ProbeReporting
import WireProbe.ProbeStartup

/-!
# The process

`main` serves or probes as the command line asks, and the process runs until a
call to `exit`, the return of `main` or a line that cannot be written: the
macros that print panic there, and a panic aborts. Whatever the outside answers,
it ends for a few reasons only, each with its own code.
-/

set_option autoImplicit false

namespace WireProbe.Process
open WireProbe.Effect WireProbe.Transducer WireProbe.Collectd WireProbe.ProbeLoop WireProbe.Cli
open WireProbe.AddressRotation WireProbe.ProbeReporting WireProbe.ProbeStartup
open WireProbe.AcceptProgress

/-! ### Starting the server -/

/-- `std::io::Error`. -/
structure IoError where
  kind : AcceptRing.ErrorKind
  rawOsError : Option ℤ
  deriving DecidableEq, Repr

def enosys : ℤ := 38
def eperm : ℤ := 1
def eacces : ℤ := 13
def eopnotsupp : ℤ := 95

/-- The errors that say io_uring cannot be had here. -/
def IoError.unavailable (e : IoError) : Bool :=
  e.rawOsError ∈ [some enosys,some eperm,some eacces,some eopnotsupp]

inductive Accepting where
  | ioUring
  | blocking
  deriving DecidableEq, Repr

inductive ServerLine where
  | ioUringUnavailable (e : IoError)
  | listening (bindAddr : List Char) (port : UInt16) (accepting : Accepting)
  | allInterfaces
  deriving DecidableEq

/-- `server::run` up to its loop, from the answers of `bind` and `IoUring::new`. -/
def run (bindAddr : List Char) (port : UInt16) (bind ring : Except IoError Unit) :
    List ServerLine × Except IoError Accepting :=
  let banner (accepting : Accepting) := .listening bindAddr port accepting ::
    if bindAddr = "0.0.0.0".toList ∨ bindAddr = "::".toList then [.allInterfaces] else []
  match bind with
  | .error e => ([], .error e)
  | .ok () =>
    match ring with
    | .ok () => (banner .ioUring, .ok .ioUring)
    | .error e =>
      if e.unavailable then (.ioUringUnavailable e :: banner .blocking, .ok .blocking)
      else ([], .error e)

section Parsing
variable {Earg : Type}

/-- No code of its own: an error is reported by `main`. -/
def Failure : Stop Earg → Prop
  | .failed _ => True
  | .exit _ => False

end Parsing

/-! ### The process -/

variable {α E R : Type}

/-- The lines that the process prints, on stdout or stderr; the points of an
exporter are not printed. -/
inductive Line (α E Earg : Type) where
  | parsed (line : Cli.Notice)
  | parseError (e : Error Earg)
  | server (line : ServerLine)
  | acceptWarning (errno : ℤ)
  | closeWarning (fd errno : ℤ)
  | serverError (kind : AcceptRing.ErrorKind)
  | startup (line : Warning)
  | startupError (e : StartupError E)
  | probeError (e : E)
  | rotation (line : ProbeLoop.Notice α E)
  | stdoutClosed
  | exportError (kind : ErrorKind)
  | overranInterval (elapsed interval : ℕ)

/-- What the outside answers: to the server, in its loop too, to the probe, and
to the process when it writes its lines. -/
structure World (α E R : Type) where
  bind : Except IoError Unit
  ring : Except IoError Unit
  listenerFd : ℤ
  acts : List AcceptRing.Act
  accepts : List AcceptRing.Answer
  outside : Outside α E
  ticks : List (Tick α E R)
  /-- Whether the line of this number can be written. -/
  written : ℕ → Bool

section Main
variable {Earg : Type}

def eventLine : AcceptRing.Event → Option (Line α E Earg)
  | .acceptWarning errno => some (.acceptWarning errno)
  | .closeWarning fd errno => some (.closeWarning fd errno)
  | _ => none

def actionLine : Action α E R → Option (Line α E Earg)
  | .probeError e => some (.probeError e)
  | .notice line => some (.rotation line)
  | .stdoutClosed => some .stdoutClosed
  | .exportError kind => some (.exportError kind)
  | .overranInterval elapsed interval => some (.overranInterval elapsed interval)
  | _ => none

/-- `server::run`, and the exit of `main` on its error. -/
def serve (bindAddr : List Char) (port : UInt16) (w : World α E R) :
    List (Line α E Earg) × Option ℕ :=
  let (started, accepting) := run bindAddr port w.bind w.ring
  let started := started.map .server
  match accepting with
  | .error e => (started++[.serverError e.kind], some 1)
  | .ok .blocking => (started++(AcceptParity.runBlocking w.accepts).filterMap eventLine, none)
  | .ok .ioUring =>
    match Transitions.run (AcceptRing.step w.listenerFd) AcceptRing.start w.acts with
    | none => (started, none)
    | some s =>
      let looped := started++s.log.filterMap eventLine
      match s.pc with
      | .exited e => (looped++[.serverError e], some 1)
      | _ => (looped, none)

variable [LinearOrder α] (ryu : R → Bytes)

/-- `run_probe`, whose loop returns where stdout is closed. -/
def probe (targetName az : List Char) (interval : Durations.Duration) (dst : ExportDst)
    (w : World α E R) : List (Line α E Earg) × Option ℕ :=
  let (started, launched) := runProbe targetName az interval dst w.outside
  let started := started.map .startup
  match launched with
  | .error e => (started++[.startupError e], some 1)
  | .ok l =>
    (started++(outputs (step ryu dst interval.asNanos) l w.ticks).flatten.filterMap actionLine,
      if (final (step ryu dst interval.asNanos) l w.ticks).ended then some 0 else none)

/-- The lines of `main` as far as the answers go, and the code with which it
ends, where all of them can be written. -/
def course (args : Arguments Earg) (w : World α E R) : List (Line α E Earg) × Option ℕ :=
  let (parsed, notices) := parse args []
  let notices := notices.map .parsed
  match parsed with
  | .error (.exit code) => (notices, some code)
  | .error (.failed e) => (notices++[.parseError e], some 1)
  | .ok (.server bindAddr port) =>
    let (lines, code) := serve bindAddr port w
    (notices++lines, code)
  | .ok (.probe _ targetName az interval _ dst) =>
    let (lines, code) := probe ryu targetName az interval dst w
    (notices++lines, code)

end Main

end WireProbe.Process
