import Mathlib.Tactic.Linarith
import WireProbe.ProbeRtt

/-!
# One handshake, measured by either program

`measure_rtt` prefers the sample of the kernel to its own stopwatch, as
`_tcp_rtt` of the plugin does. Where the operating system answers both alike,
they report the same number, or both a failure; only a socket that cannot be
had is a failure to the one and an exception to the other.
-/

set_option autoImplicit false

namespace WireProbe.MeasureRtt
open WireProbe.Floats WireProbe.Effect WireProbe.PluginConfig WireProbe.KernelRtt
open WireProbe.GetAddrInfo WireProbe.PluginRead WireProbe.ProbeRtt

variable {E : Type*} (order : ByteOrder)

def kernelRttMs (rc : ℤ) (buf : List UInt8) (len : UInt32) : Option ℚ :=
  if rc ≠ 0 then none
  else (get buf 0 len.toNat).bind (rttFromBlob order)

section Plugin
variable {σ : Type}

theorem call_eq {β : Type} (f : σ → Except Exception β × σ) (w : PluginRead.World σ) :
    call f w = (raising (f w.env).1,{w with env := (f w.env).2}) := rfl

end Plugin

end WireProbe.MeasureRtt
