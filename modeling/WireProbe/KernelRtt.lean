import Mathlib.Data.Rat.Defs
import WireProbe.PluginConfig

/-!
# The handshake time in TCP_INFO

The plugin asks the kernel for 104 bytes of `struct tcp_info` and reads three
of its fields, each at a fixed offset and in the byte order of the machine.
-/

set_option autoImplicit false

namespace WireProbe.KernelRtt
open WireProbe.PluginConfig

inductive ByteOrder where
  | little
  | big
  deriving DecidableEq, Repr

def tcpInfoRttOffset : ℕ := 68
def tcpInfoRetransOffset : ℕ := 100
def tcpInfoMinLen : ℕ := tcpInfoRetransOffset+4
def tcpSynSent : UInt8 := 2
def tcpSynRecv : UInt8 := 3

def nativeU32 (order : ByteOrder) (b₀ b₁ b₂ b₃ : UInt8) : ℕ :=
  match order with
  | .little => b₀.toNat+256*(b₁.toNat+256*(b₂.toNat+256*b₃.toNat))
  | .big => b₃.toNat+256*(b₂.toNat+256*(b₁.toNat+256*b₀.toNat))

/-- `struct.unpack_from("=I", raw, offset)`, which raises on a short buffer. -/
def unpackFrom (order : ByteOrder) (raw : List UInt8) (offset : ℕ) : Except Exception ℕ :=
  match raw.drop offset with
  | b₀::b₁::b₂::b₃::_ => .ok (nativeU32 order b₀ b₁ b₂ b₃)
  | _ => .error .other

/-- `raw[0] in (_TCP_SYN_SENT, _TCP_SYN_RECV)`. -/
def handshakeOpen : List UInt8 → Except Exception Bool
  | [] => .error .indexError
  | state::_ => .ok (state = tcpSynSent ∨ state = tcpSynRecv)

/-- What `_kernel_rtt_ms` makes of the bytes that `getsockopt` returned. -/
def blobRttMs (order : ByteOrder) (raw : List UInt8) : Except Exception (Option ℚ) :=
  if raw.length < tcpInfoMinLen then .ok none
  else do
    let unfinished ← handshakeOpen raw
    if unfinished then .ok none
    else do
      let totalRetrans ← unpackFrom order raw tcpInfoRetransOffset
      if totalRetrans ≠ 0 then .ok none
      else do
        let rttUs ← unpackFrom order raw tcpInfoRttOffset
        .ok (if rttUs ≠ 0 then some (rttUs/1000) else none)

end WireProbe.KernelRtt
