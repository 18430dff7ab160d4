import Mathlib.Tactic.NormNum
import WireProbe.PluginRead

/-!
# The handshake time as the Rust probe reads it

`rttFromBlob` slices the bytes of `struct tcp_info`, every access yielding an
option. The plugin decodes the same fields with a library that raises. On a
blob of any length the two give the same time or both give none.
-/

set_option autoImplicit false

namespace WireProbe.ProbeRtt
open WireProbe.Effect WireProbe.PluginConfig WireProbe.KernelRtt WireProbe.PluginRead

/-- `buf.get(first..last)`. -/
def get (buf : List UInt8) (first last : ℕ) : Option (List UInt8) :=
  if first ≤ last ∧ last ≤ buf.length then some ((buf.drop first).take (last-first)) else none

/-- `u32::from_ne_bytes` of a slice, where `try_into` finds four bytes in it. -/
def fromNeBytes (order : ByteOrder) : List UInt8 → Option ℕ
  | [b₀,b₁,b₂,b₃] => some (nativeU32 order b₀ b₁ b₂ b₃)
  | _ => none

def rttFromBlob (order : ByteOrder) (buf : List UInt8) : Option ℚ :=
  if buf.length < tcpInfoRetransOffset+4 then none
  else do
    let state ← buf.head?
    if state = tcpSynSent ∨ state = tcpSynRecv then none
    else do
      let retransBytes ← get buf tcpInfoRetransOffset (tcpInfoRetransOffset+4)
      let retrans ← fromNeBytes order retransBytes
      if retrans ≠ 0 then none
      else do
        let bytes ← get buf tcpInfoRttOffset (tcpInfoRttOffset+4)
        let rttUs ← fromNeBytes order bytes
        if rttUs ≠ 0 then some (rttUs/1000) else none

/-! ### One field -/

/-- The four bytes from an offset on, as a number of the machine. -/
def word (order : ByteOrder) (raw : List UInt8) (offset : ℕ) : ℕ :=
  nativeU32 order (raw.getD offset 0) (raw.getD (offset+1) 0) (raw.getD (offset+2) 0)
    (raw.getD (offset+3) 0)

theorem drop_four {raw : List UInt8} {offset : ℕ} (h : offset+4 ≤ raw.length) :
    raw.drop offset = raw.getD offset 0::raw.getD (offset+1) 0::raw.getD (offset+2) 0::
      raw.getD (offset+3) 0::raw.drop (offset+4) := by
  have hcons : ∀ i, i < raw.length → raw.drop i = raw.getD i 0::raw.drop (i+1) := by
    intro i hi
    rw [List.getD_eq_getElem?_getD, List.getElem?_eq_getElem hi]
    exact List.drop_eq_getElem_cons hi
  rw [hcons offset (by omega), hcons (offset+1) (by omega), hcons (offset+2) (by omega),
    hcons (offset+3) (by omega)]

theorem unpackFrom_word (order : ByteOrder) {raw : List UInt8} {offset : ℕ}
    (h : offset+4 ≤ raw.length) : unpackFrom order raw offset = .ok (word order raw offset) := by
  rw [unpackFrom, drop_four h]
  rfl

theorem get_four {raw : List UInt8} {offset : ℕ} (h : offset+4 ≤ raw.length) :
    get raw offset (offset+4) = some [raw.getD offset 0,raw.getD (offset+1) 0,
      raw.getD (offset+2) 0,raw.getD (offset+3) 0] := by
  rw [get, if_pos ⟨by omega,h⟩, drop_four h, Nat.add_sub_cancel_left]
  rfl

theorem head_getD {raw : List UInt8} (h : 0 < raw.length) : raw.head? = some (raw.getD 0 0) := by
  cases raw with
  | nil => simp at h
  | cons state rest => rfl

/-! ### The two readers -/

section Readers
variable (order : ByteOrder) {raw : List UInt8}

/-- A handshake that has finished, has seen no retransmission and has left a
sample. -/
def Accepted (raw : List UInt8) : Prop :=
  tcpInfoMinLen ≤ raw.length ∧ raw.getD 0 0 ≠ tcpSynSent ∧ raw.getD 0 0 ≠ tcpSynRecv ∧
    word order raw tcpInfoRetransOffset = 0 ∧ word order raw tcpInfoRttOffset ≠ 0

/-- The decision on a blob that holds the three fields. -/
def verdict (raw : List UInt8) : Option ℚ :=
  if raw.getD 0 0 = tcpSynSent ∨ raw.getD 0 0 = tcpSynRecv then none
  else if word order raw tcpInfoRetransOffset ≠ 0 then none
  else if word order raw tcpInfoRttOffset ≠ 0 then
    some (word order raw tcpInfoRttOffset/1000) else none

theorem rttFromBlob_long (h : tcpInfoMinLen ≤ raw.length) :
    rttFromBlob order raw = verdict order raw := by
  have hshort : tcpInfoRttOffset+4 ≤ raw.length := le_trans (by decide) h
  have hpos : 0 < raw.length := lt_of_lt_of_le (by decide) h
  have hlen : ¬ raw.length < tcpInfoRetransOffset+4 := not_lt.mpr h
  rw [rttFromBlob, if_neg hlen, head_getD hpos, get_four h, get_four hshort]
  rfl

theorem blobRttMs_long (h : tcpInfoMinLen ≤ raw.length) :
    blobRttMs order raw = .ok (verdict order raw) := by
  have hshort : tcpInfoRttOffset+4 ≤ raw.length := le_trans (by decide) h
  have hopen : handshakeOpen raw =
      .ok (decide (raw.getD 0 0 = tcpSynSent ∨ raw.getD 0 0 = tcpSynRecv)) := by
    cases raw with
    | nil => simp [tcpInfoMinLen] at h
    | cons state rest => rfl
  rw [blobRttMs, if_neg (not_lt.mpr h), hopen, unpackFrom_word order h,
    unpackFrom_word order hshort]
  simp only [bind, Except.bind, decide_eq_true_eq, verdict]
  split_ifs <;> rfl

theorem verdict_eq_some (h : tcpInfoMinLen ≤ raw.length) (v : ℚ) :
    verdict order raw = some v ↔
      Accepted order raw ∧ v = word order raw tcpInfoRttOffset/1000 := by
  simp only [verdict, Accepted, h, true_and]
  split_ifs with hopen hretrans hrtt
  · simp only [false_iff]
    rintro ⟨⟨hsent,hrecv,-⟩,-⟩
    exact hopen.elim hsent hrecv
  · simp [hretrans]
  · simp only [not_or] at hopen
    rw [Option.some.injEq, eq_comm]
    exact ⟨fun hv => ⟨⟨hopen.1,hopen.2,not_not.mp hretrans,hrtt⟩,hv⟩,fun hv => hv.2⟩
  · simp [not_not.mp hrtt]

/-- Neither reader looks at a blob that is too short. -/
theorem short_blob (h : ¬ tcpInfoMinLen ≤ raw.length) :
    rttFromBlob order raw = none ∧ blobRttMs order raw = .ok none :=
  ⟨if_pos (not_le.mp h),if_pos (not_le.mp h)⟩

end Readers

theorem rttFromBlob_eq_some (order : ByteOrder) (raw : List UInt8) (v : ℚ) :
    rttFromBlob order raw = some v ↔
      Accepted order raw ∧ v = word order raw tcpInfoRttOffset/1000 := by
  by_cases h : tcpInfoMinLen ≤ raw.length
  · rw [rttFromBlob_long order h, verdict_eq_some order h]
  · simp [(short_blob order h).1, Accepted, h]

theorem blobRttMs_eq (order : ByteOrder) (raw : List UInt8) :
    blobRttMs order raw = .ok (rttFromBlob order raw) := by
  by_cases h : tcpInfoMinLen ≤ raw.length
  · rw [rttFromBlob_long order h, blobRttMs_long order h]
  · rw [(short_blob order h).1, (short_blob order h).2]

theorem kernelRttMs_blob {σ : Type} (env : Env σ) (w : World σ) (raw : List UInt8)
    (hinfo : env.hasTcpInfo = true) (hraw : (env.getsockopt w.env).1 = .ok raw) :
    (kernelRttMs env w).1 = raising (blobRttMs env.byteOrder raw) := by
  have hcall : call env.getsockopt w = (.ok raw,{w with env := (env.getsockopt w.env).2}) := by
    rw [call, hraw]
    rfl
  rw [kernelRttMs, if_pos hinfo]
  simp only [bind, Eff.bind, Eff.catching, pure, hcall, PluginRead.ofExcept]

/-- On every blob that `getsockopt` can return, of any length, the plugin's
reader raises nothing and gives what the Rust reader gives: the time in the
sample of a finished handshake without retransmissions, or nothing. Past the
length check no access of either falls outside the blob. -/
theorem readers_agree {σ : Type} (env : Env σ) (w : World σ) (raw : List UInt8)
    (hinfo : env.hasTcpInfo = true) (hraw : (env.getsockopt w.env).1 = .ok raw) :
    (kernelRttMs env w).1 = .ok (rttFromBlob env.byteOrder raw) ∧
    (∀ v, rttFromBlob env.byteOrder raw = some v ↔
      104 ≤ raw.length ∧ raw.getD 0 0 ≠ 2 ∧ raw.getD 0 0 ≠ 3 ∧
      word env.byteOrder raw 100 = 0 ∧ word env.byteOrder raw 68 ≠ 0 ∧
      v = word env.byteOrder raw 68/1000) ∧
    (104 ≤ raw.length → raw.head?.isSome ∧
      ((get raw 100 104).bind (fromNeBytes env.byteOrder)).isSome ∧
      ((get raw 68 72).bind (fromNeBytes env.byteOrder)).isSome) := by
  refine ⟨?_,?_,?_⟩
  · rw [kernelRttMs_blob env w raw hinfo hraw, blobRttMs_eq]
    rfl
  · intro v
    rw [rttFromBlob_eq_some]
    simp only [Accepted, and_assoc]
    rfl
  · intro h
    have hretrans : get raw 100 104 = _ := get_four h
    have hshort : 68+4 ≤ raw.length := by omega
    have hrtt : get raw 68 72 = _ := get_four hshort
    rw [head_getD (by omega), hretrans, hrtt]
    exact ⟨rfl,rfl,rfl⟩

/-- A connected socket whose `tcp_info` is `raw`. -/
def connected (raw : List UInt8) : Env Unit where
  monotonic := fun s => (0,s)
  getInterval := fun s => (.ok (.fin 10),s)
  getaddrinfo := fun _ s => (.ok [],s)
  socket := fun _ s => (.ok (),s)
  connect := fun _ _ s => (.ok (),s)
  hasTcpInfo := true
  byteOrder := .little
  getsockopt := fun s => (.ok raw,s)
  close := fun s => s

/-- An established connection with a sample of 250 microseconds. -/
def established : List UInt8 := 1::List.replicate 67 0++250::List.replicate 35 0

theorem readers_agree_established :
    (kernelRttMs (connected established) ⟨(),fun _ => none,[]⟩).1 = .ok (some (1/4)) := by
  have h := readers_agree (connected established) ⟨(),fun _ => none,[]⟩ established rfl rfl
  have hvalue : word .little established 68 = 250 := by decide
  rw [h.1, (h.2.1 (1/4)).mpr ⟨by decide,by decide,by decide,by decide,by decide,?_⟩]
  rw [show (connected established).byteOrder = .little from rfl, hvalue]
  norm_num

end WireProbe.ProbeRtt
