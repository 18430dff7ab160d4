import WireProbe.Collectd
import WireProbe.Transducer

/-!
# Framing on the collectd socket

A session on a Unix socket is a wire whose attempts are decided by the write
and by the reconnect. What each connection has delivered is framed, and stays
as it is once a line was torn on it, exactly where no reconnect that had to
replace a torn stream failed before the next byte went out.
-/

set_option autoImplicit false

namespace WireProbe.UdsFraming
open WireProbe.Framing WireProbe.Collectd WireProbe.Transducer

/-- What the peers of all connections ever used have accepted, the one in use last. -/
def delivered (s : Session) : List Bytes :=
  s.peers.closed.map UnixStream.accepted ++
    match s.exporter.dest with
    | .exec => []
    | .uds _ stream => [stream.accepted]

/-- The session `new_uds` opens. -/
def opened (path hostname targetName : List Char) (intervalSecs : ℕ) : Session :=
  ⟨⟨.uds path ⟨[]⟩,buildPrefix hostname targetName intervalSecs,[]⟩,⟨[],[]⟩⟩

theorem newUds_opened (path hostname targetName : List Char) (intervalSecs : ℕ) (io : Io)
    (e : CollectdExporter) (h : newUds path hostname targetName intervalSecs io = .ok e) :
    e = (opened path hostname targetName intervalSecs).exporter := newUds_eq_ok h

/-- The write failed after at least one byte. -/
def Tears (io : Io) : Prop := ∃ n e, io.write = .failed n e ∧ n ≠ 0

def attempt (io : Io) : Attempt :=
  match io.write with
  | .whole => .whole
  | .failed n _ =>
    match connectUds io with
    | .ok _ => .replaced n
    | .error _ => .kept n

theorem attempt_tears (io : Io) (h : Tears io) : (attempt io).Tears := by
  obtain ⟨n,e,hw,hn⟩ := h
  unfold attempt
  cases hc : connectUds io <;> simpa [hw, hc, Attempt.Tears] using hn

theorem tears_attempt (io : Io) (h : (attempt io).Tears) : Tears io := by
  unfold attempt at h
  cases hw : io.write with
  | whole => simp [hw, Attempt.Tears] at h
  | failed n e => cases hc : connectUds io <;> exact ⟨n,e,hw,by simpa [hw, hc, Attempt.Tears] using h⟩

def wire (s : Session) : Wire UInt8 :=
  ⟨s.peers.closed.map UnixStream.accepted,
    match s.exporter.dest with
    | .exec => []
    | .uds _ stream => stream.accepted⟩

def OnUds (s : Session) : Prop := ∃ path stream, s.exporter.dest = .uds path stream

theorem delivered_eq (s : Session) (h : OnUds s) : delivered s = (wire s).streams := by
  obtain ⟨path,stream,hd⟩ := h
  simp [delivered, wire, Wire.streams, hd]

section Calls
variable {R : Type*} (ryu : R → Bytes)

/-- One call writes its own line on the wire. -/
theorem call_wire (s : Session) (h : OnUds s) (c : Call R) :
    OnUds (call ryu s c).1 ∧ wire (call ryu s c).1 =
      (wire s).write (line ryu s.exporter.linePrefix c.rttMs) (attempt c.io) := by
  obtain ⟨path,stream,hd⟩ := h
  rw [call_eq, flushLine, attempt]
  simp only [formatLine_dest, formatLine_buf, hd]
  cases hw : c.io.write with
  | whole => exact ⟨⟨path,_,rfl⟩,by simp [wire, Wire.write, hd]⟩
  | failed n e =>
    cases hc : connectUds c.io with
    | ok fresh =>
      have hfresh : fresh.accepted = [] := congrArg UnixStream.accepted (connectUds_eq_ok hc)
      exact ⟨⟨path,fresh,rfl⟩,by simp [wire, Wire.write, hd, hfresh]⟩
    | error reconnectErr => exact ⟨⟨path,_,rfl⟩,by simp [wire, Wire.write, hd]⟩

def written (linePrefix : Bytes) (calls : List (Call R)) : List (Bytes × Attempt) :=
  calls.map (fun c => (line ryu linePrefix c.rttMs,attempt c.io))

theorem final_wire (s : Session) (h : OnUds s) (calls : List (Call R)) :
    OnUds (final (call ryu) s calls) ∧
    wire (final (call ryu) s calls) = (wire s).run (written ryu s.exporter.linePrefix calls) := by
  induction calls generalizing s with
  | nil => exact ⟨h,rfl⟩
  | cons c calls ih =>
    obtain ⟨hon,hwire⟩ := call_wire ryu s h c
    have hrest := ih (call ryu s c).1 hon
    rw [call_linePrefix, hwire] at hrest
    exact hrest

/-- The framing every connection is meant to have. -/
def Framing (s : Session) (calls : List (Call R)) : Prop :=
  (∀ stream ∈ delivered (final (call ryu) s calls),
    Framed (calls.map (fun c => line ryu s.exporter.linePrefix c.rttMs)) stream) ∧
  ∀ before c after, calls = before++c::after → Tears c.io →
    (delivered (final (call ryu) s calls))[(final (call ryu) s before).peers.closed.length]? =
      (delivered (final (call ryu) s (before++[c])))[
        (final (call ryu) s before).peers.closed.length]?

theorem framing_wire (s : Session) (h : OnUds s) (calls : List (Call R)) :
    Framing ryu s calls ↔
      (∀ stream ∈ ((wire s).run (written ryu s.exporter.linePrefix calls)).streams,
        Framed ((written ryu s.exporter.linePrefix calls).map Prod.fst) stream) ∧
      (wire s).Silent (written ryu s.exporter.linePrefix calls) := by
  have hdel : ∀ calls, delivered (final (call ryu) s calls) =
      ((wire s).run (written ryu s.exporter.linePrefix calls)).streams := fun calls => by
    rw [delivered_eq _ (final_wire ryu s h calls).1, (final_wire ryu s h calls).2]
  have hclosed : ∀ calls, (final (call ryu) s calls).peers.closed.length =
      ((wire s).run (written ryu s.exporter.linePrefix calls)).closed.length := fun calls => by
    rw [← (final_wire ryu s h calls).2]
    simp [wire]
  have hfst : (written ryu s.exporter.linePrefix calls).map Prod.fst =
      calls.map (fun c => line ryu s.exporter.linePrefix c.rttMs) := by
    simp [written, Function.comp_def]
  unfold Framing
  simp only [hdel, hclosed, hfst]
  refine and_congr_right fun _ => ⟨?_,?_⟩
  · intro hs before l a after hsplit htears
    -- A split of what was written comes from a split of the calls.
    obtain ⟨before',rest,rfl,rfl,hrest⟩ := List.map_eq_append_iff.mp hsplit
    obtain ⟨c,after',rfl,hc,rfl⟩ := List.map_eq_cons_iff.mp hrest
    obtain ⟨rfl,rfl⟩ := Prod.mk.inj hc
    simpa [written] using hs before' c after' rfl (tears_attempt _ htears)
  · rintro hs before c after rfl htears
    have hsame := hs (written ryu s.exporter.linePrefix before)
      (line ryu s.exporter.linePrefix c.rttMs) (attempt c.io)
      (written ryu s.exporter.linePrefix after) (by simp [written]) (attempt_tears _ htears)
    simpa [written] using hsame

/-- Whatever is sent, and whatever the operating system answers: the framing
holds exactly where no byte is written to a stream whose torn line could not
be left behind. -/
theorem uds_framing_iff (path hostname targetName : List Char) (intervalSecs : ℕ)
    (calls : List (Call R)) :
    Framing ryu (opened path hostname targetName intervalSecs) calls ↔
      Mended false (calls.map (fun c => attempt c.io)) := by
  have hon : OnUds (opened path hostname targetName intervalSecs) := ⟨path,⟨[]⟩,rfl⟩
  have hsnd : (written ryu (buildPrefix hostname targetName intervalSecs) calls).map Prod.snd =
      calls.map (fun c => attempt c.io) := by
    simp [written, Function.comp_def]
  rw [framing_wire ryu _ hon, ← hsnd]
  apply Wire.framing_iff
  intro c hc
  obtain ⟨call,-,rfl⟩ := List.mem_map.mp hc
  have hprefix : 1 ≤ (asBytes "PUTVAL ".toList).length := by decide
  simp only [line, opened, buildPrefix, List.length_append, List.length_singleton]
  omega

end Calls

/-- The write of the first line times out after four bytes and collectd refuses
the reconnect; the second line then goes out on the stale stream. -/
def tornThenWhole : List (Call Unit) :=
  [⟨none,⟨.failed 4 (.other 11),.ok (),.error (.other 111),.ok ()⟩⟩,
    ⟨none,⟨.whole,.ok (),.ok (),.ok ()⟩⟩]

theorem torn_stream_written_again :
    ¬ Framing (fun _ : Unit => asBytes "4.125".toList)
      (opened "/run/collectd.sock".toList "obs01".toList "mdb".toList 10) tornThenWhole := by
  rintro ⟨-,hsilent⟩
  have h := hsilent [] _ [⟨none,⟨.whole,.ok (),.ok (),.ok ()⟩⟩] rfl
    ⟨4,.other 11,rfl,by decide⟩
  revert h
  decide

end WireProbe.UdsFraming
