import WireProbe.LineDecoding
import WireProbe.LineStream
import WireProbe.ProbeLoop
import WireProbe.UdsFraming

/-!
# The points that arrive

What a run of the probe has handed over is read back at the other end: the
datagrams Telegraf was sent, and the lines collectd cuts from its connections.
A line behind a torn one is never taken for a point.
-/

set_option autoImplicit false

namespace WireProbe.DeliveredPoints
open WireProbe.Transducer WireProbe.Collectd WireProbe.ProbeLoop WireProbe.Sanitize
open WireProbe.LineDecoding WireProbe.LineStream WireProbe.UdsFraming WireProbe.Framing

variable {α E R : Type*}

/-! ### A torn start spoils its line -/

theorem length_splitOn {β : Type*} [BEq β] [LawfulBEq β] (sep : β) (s : List β) :
    (s.splitOn sep).length = s.count sep+1 := by
  induction s with
  | nil => rfl
  | cons x s ih =>
    rw [List.splitOn_cons_eq_if_modifyHead, List.count_cons]
    split <;> simp [ih]

theorem asciiText_append {s t : Bytes} {text : List Char} (h : asciiText (s++t) = some text) :
    ∃ start rest, asciiText s = some start ∧ asciiText t = some rest ∧ text = start++rest ∧
      start.length = s.length := by
  simp only [asciiText, List.all_append, Option.ite_none_right_eq_some, Bool.and_eq_true,
    List.map_append, Option.some.injEq] at h ⊢
  obtain ⟨⟨hs,ht⟩,rfl⟩ := h
  exact ⟨_,_,⟨hs,rfl⟩,⟨ht,rfl⟩,rfl,by simp⟩

theorem decodePutval_words {bytes : Bytes} {line : List Char} (hline : chomp bytes = some line)
    (hwords : ∀ identifier interval value,
      line.splitOn ' ' ≠ ["PUTVAL".toList,identifier,interval,value]) :
    decodePutval bytes = none := by
  rw [decodePutval, hline, Option.bind_eq_bind, Option.bind_some]
  split
  next verb identifier interval value hsplit =>
    refine if_neg ?_
    rintro rfl
    exact hwords _ _ _ hsplit
  next => rfl

/-- A body has three spaces, and begins with its verb. -/
theorem body_spaces (v : Putval Token) : v.body.count ' ' = 3 := by
  have hsplit : v.body.splitOn ' ' = v.words :=
    split_intercalate v.words_over (by decide) (by decide) (by simp [Putval.words])
  have hlength := length_splitOn ' ' v.body
  rw [hsplit] at hlength
  simpa [Putval.words] using hlength.symm

theorem body_verb (v : Putval Token) : ∃ rest, v.body = "PUTVAL".toList++ ' '::rest := by
  refine ⟨[' '].intercalate v.words.tail,?_⟩
  simp [Putval.body, Putval.words]

theorem decode_torn {torn : Bytes} (h : torn ≠ []) {R : Type*} (ryu : R → Token) (v : Putval R) :
    decodePutval (torn++v.line ryu) = none := by
  generalize hu : v.content ryu = u
  rw [v.line_eq, hu]
  cases htext : asciiText (torn++asBytes (u.body++['\n'])) with
  | none => rw [decodePutval, chomp, htext]; rfl
  | some text =>
    obtain ⟨start,rest,-,hrest,rfl,hlength⟩ := asciiText_append htext
    obtain rfl : u.body++['\n'] = rest := by
      have hbody := asciiText_asBytes (ascii_line u.body_printable)
      exact Option.some.inj (hbody.symm.trans hrest)
    have hstart : start ≠ [] := by
      rintro rfl
      exact h (List.length_eq_zero_iff.mp hlength.symm)
    have hline : chomp (torn++asBytes (u.body++['\n'])) = some (start++u.body) := by
      rw [chomp, htext]
      simp [← List.append_assoc]
    refine decodePutval_words hline fun identifier interval value hsplit => ?_
    -- Four words leave no space to the torn start, so it is part of the verb.
    have hcount := length_splitOn ' ' (start++u.body)
    rw [hsplit, List.count_append, body_spaces] at hcount
    have hspace : ' ' ∉ start := List.count_eq_zero.mp (by simpa using hcount)
    obtain ⟨rest,hverb⟩ := body_verb u
    rw [hverb, ← List.append_assoc, List.splitOn_append_cons_self_of_not_mem
      (by simpa using hspace)] at hsplit
    have hhead := congrArg List.length (List.cons.inj hsplit).1
    exact hstart (List.length_eq_zero_iff.mp (by simpa using hhead))

/-! ### The exporter of a run -/

section Exporter
variable (ryu : R → Bytes)

/-- The turns of a running loop, seen by the exporter alone. -/
def exportStep (x : Exporter) (t : Tick α E R) : Exporter × Except ErrorKind Unit :=
  x.call ryu t.io (reported t)

/-- Away from stdout nothing ends the loop. -/
theorem final_exporter [LinearOrder α] {dst : ExportDst} (hdst : dst ≠ .collectdExec)
    (interval : ℕ) {l : Loop α} (hl : l.ended = false) (ts : List (Tick α E R)) :
    (final (step ryu dst interval) l ts).exporter = final (exportStep ryu) l.exporter ts := by
  induction ts generalizing l with
  | nil => rfl
  | cons t ts ih =>
    have hturn := step_turn ryu dst interval l t hl
    have hended : (step ryu dst interval l t).1.ended = false :=
      Bool.eq_false_iff.mpr fun h => hdst (hturn.ended.mp h).1
    rw [final_cons, ih hended, hturn.exporter]
    rfl

def asCall (t : Tick α E R) : Call R := ⟨t.measured.toOption,t.io.io⟩

theorem exportStep_collectd (s : Session) (t : Tick α E R) :
    (exportStep ryu (.collectd s) t).1 = .collectd (Collectd.call ryu s (asCall t)).1 := by
  obtain ⟨tsNs,measured,answer,io,elapsed⟩ := t
  cases measured <;> rfl

theorem final_collectd (s : Session) (ts : List (Tick α E R)) :
    final (exportStep ryu) (.collectd s) ts =
      .collectd (final (Collectd.call ryu) s (ts.map asCall)) := by
  induction ts generalizing s with
  | nil => rfl
  | cons t ts ih =>
    rw [final_cons, exportStep_collectd, ih]
    rfl

theorem exportStep_telegraf (e : Telegraf.TelegrafExporter) (t : Tick α E R) :
    (exportStep ryu (.telegraf e) t).1 = .telegraf (Telegraf.flush
      { e with buf := Telegraf.formatLine ryu e.linePrefix t.measured.toOption t.tsNs }
      t.io.sendUdp).1 := by
  obtain ⟨tsNs,measured,answer,io,elapsed⟩ := t
  cases measured <;> rfl

/-- The datagrams the socket took are the lines of the turns whose `send` went through. -/
theorem final_telegraf (e : Telegraf.TelegrafExporter) (ts : List (Tick α E R)) :
    ∃ e', final (exportStep ryu) (.telegraf e) ts = .telegraf e' ∧
      e'.socket.taken = e.socket.taken++(ts.filter fun t => t.io.sendUdp.isOk).map fun t =>
        Telegraf.formatLine ryu e.linePrefix t.measured.toOption t.tsNs := by
  induction ts generalizing e with
  | nil => exact ⟨e,rfl,(List.append_nil _).symm⟩
  | cons t ts ih =>
    rw [final_cons, exportStep_telegraf]
    obtain ⟨e',hfinal,htaken⟩ := ih (Telegraf.flush
      { e with buf := Telegraf.formatLine ryu e.linePrefix t.measured.toOption t.tsNs }
      t.io.sendUdp).1
    refine ⟨e',hfinal,htaken.trans ?_⟩
    cases hsent : t.io.sendUdp with
    | ok => simp [Telegraf.flush, Telegraf.UdpSocket.send, hsent, Except.isOk, Except.toBool]
    | error kind => simp [Telegraf.flush, Telegraf.UdpSocket.send, hsent, Except.isOk, Except.toBool]

end Exporter

theorem launch_eq_some [LinearOrder α] {dst : ExportDst} {targetName az hostname : List Char}
    {intervalSecs : ℕ} {answer : Except E (List α)} {io : ExportIo} {l : Loop α}
    (h : launch dst targetName az hostname intervalSecs answer io = some l) :
    Exporter.new dst targetName az hostname intervalSecs io = .ok l.exporter ∧
      l.ended = false := by
  unfold launch at h
  split at h
  next resolved exporter hresolved hexporter =>
    obtain ⟨selection,-,rfl⟩ := Option.map_eq_some_iff.mp h
    exact ⟨hexporter,rfl⟩
  next => cases h

theorem newTelegraf_eq_ok {addr targetName az hostname : List Char} {intervalSecs : ℕ}
    {io : ExportIo} {x : Exporter}
    (h : Exporter.new (.telegrafUdp addr) targetName az hostname intervalSecs io = .ok x) :
    x = .telegraf ⟨⟨[]⟩,Telegraf.buildPrefix targetName az,[]⟩ := by
  simp only [Exporter.new, Telegraf.new] at h
  cases hbind : io.bind <;> cases hconnect : io.connectUdp <;> rw [hbind, hconnect] at h <;> cases h
  rfl

theorem newCollectd_eq_ok {path targetName az hostname : List Char} {intervalSecs : ℕ}
    {io : ExportIo} {x : Exporter}
    (h : Exporter.new (.collectdUds path) targetName az hostname intervalSecs io = .ok x) :
    x = .collectd (opened path hostname targetName intervalSecs) := by
  simp only [Exporter.new] at h
  cases hnew : newUds path hostname targetName intervalSecs io.io with
  | error kind =>
    rw [hnew] at h
    cases h
  | ok e =>
    rw [hnew, newUds_eq_ok hnew] at h
    cases h
    rfl

/-! ### What is read back -/

section Delivered
variable [LinearOrder α] (ryu : R → Token)

theorem point_decodes (p : Point R) : decodePoint (p.line ryu) = some (p.content ryu) :=
  p.line_eq ryu ▸ (p.content ryu).decode_body

theorem putval_decodes (v : Putval R) : decodePutval (v.line ryu) = some (v.content ryu) :=
  v.line_eq ryu ▸ (v.content ryu).decode_body

theorem putval_line (v : Putval R) : Line newline (v.line ryu) := by
  obtain ⟨body,hline,hbody,-⟩ := v.line_eq ryu ▸ oneLine_asBytes (v.content ryu).body_printable
  exact ⟨body,hline,hbody⟩

theorem putval_length (v : Putval R) : 2 ≤ (v.line ryu).length := by
  obtain ⟨rest,hverb⟩ := body_verb (v.content ryu)
  rw [v.line_eq, asBytes_ascii (ascii_line (v.content ryu).body_printable), hverb]
  simp

def pointOf (target az : Name) (t : Tick α E R) : Point R :=
  ⟨target,az,t.measured.toOption,t.tsNs⟩

/-- Every datagram Telegraf takes is one point, that of its own turn. -/
theorem datagrams_decode (addr : List Char) (target az : Name) (hostname : List Char)
    (intervalSecs interval : ℕ) (answer : Except E (List α)) (io : ExportIo) (l : Loop α)
    (hl : launch (.telegrafUdp addr) target.text az.text hostname intervalSecs answer io = some l)
    (ts : List (Tick α E R)) :
    ∃ e, (final (step (printed ryu) (.telegrafUdp addr) interval) l ts).exporter = .telegraf e ∧
      e.socket.taken.map decodePoint = (ts.filter fun t => t.io.sendUdp.isOk).map fun t =>
        some ((pointOf target az t).content ryu) := by
  obtain ⟨hnew,hended⟩ := launch_eq_some hl
  obtain ⟨e,hfinal,htaken⟩ := final_telegraf (printed ryu)
    ⟨⟨[]⟩,Telegraf.buildPrefix target.text az.text,[]⟩ ts
  refine ⟨e,?_,?_⟩
  · rw [final_exporter _ (by simp) interval hended, newTelegraf_eq_ok hnew, hfinal]
  · rw [htaken, List.nil_append, List.map_map]
    exact List.map_congr_left fun t _ => point_decodes ryu (pointOf target az t)

def putvalOf (host target : Name) (intervalSecs : ℕ) (t : Tick α E R) : Putval R :=
  ⟨host,target,intervalSecs,t.measured.toOption⟩

/-- What a reader makes of each line that arrives: the point of a line written
whole, unless a torn line still lies before it on the stream. -/
def arrived : Bool → List (Putval Token × Attempt) → List (Option (Putval Token))
  | _, [] => []
  | torn, (v,.whole)::calls => (if torn then none else some v)::arrived false calls
  | torn, (_,.kept n)::calls => arrived (torn || decide (n ≠ 0)) calls
  | _, (_,.replaced _)::calls => arrived false calls

theorem landed_decode (vs : List (Putval R × Attempt)) (torn : Bytes) :
    (landed torn (vs.map fun v => (v.1.line ryu,v.2))).map decodePutval =
      arrived (decide (torn ≠ [])) (vs.map fun v => (v.1.content ryu,v.2)) := by
  induction vs generalizing torn with
  | nil => rfl
  | cons c vs ih =>
    obtain ⟨v,a⟩ := c
    cases a with
    | whole =>
      simp only [List.map_cons, landed, arrived, ih]
      by_cases htorn : torn = []
      · simp [htorn, putval_decodes]
      · simp [htorn, decode_torn htorn]
    | kept n =>
      have hpiece : torn++piece n (v.line ryu) ≠ [] ↔ torn ≠ [] ∨ n ≠ 0 := by
        rw [Ne, List.append_eq_nil_iff, piece_eq_nil (putval_length ryu v)]
        tauto
      simp only [List.map_cons, landed, arrived, ih, hpiece, Bool.decide_or]
    | replaced n => exact ih []

/-- Over all connections of a run, in order, collectd reads the points of the
turns whose line was written whole and not behind a torn one; a line behind a
torn one it cannot read, and nothing else completes a line. -/
theorem putvals_decode (path : List Char) (host target : Name) (az : List Char)
    (intervalSecs interval : ℕ) (answer : Except E (List α)) (io : ExportIo) (l : Loop α)
    (hl : launch (.collectdUds path) target.text az host.text intervalSecs answer io = some l)
    (ts : List (Tick α E R)) :
    ∃ s, (final (step (printed ryu) (.collectdUds path) interval) l ts).exporter = .collectd s ∧
      ((delivered s).flatMap (linesOf newline)).map decodePutval = arrived false (ts.map fun t =>
        ((putvalOf host target intervalSecs t).content ryu,attempt t.io.io)) := by
  obtain ⟨hnew,hended⟩ := launch_eq_some hl
  have hon : OnUds (opened path host.text target.text intervalSecs) := ⟨path,⟨[]⟩,rfl⟩
  obtain ⟨honFinal,hwire⟩ := final_wire (printed ryu) _ hon (ts.map asCall)
  refine ⟨final (Collectd.call (printed ryu)) (opened path host.text target.text intervalSecs)
    (ts.map asCall),?_,?_⟩
  · rw [final_exporter _ (by simp) interval hended, newCollectd_eq_ok hnew, final_collectd]
  · have hwritten : written (printed ryu) (buildPrefix host.text target.text intervalSecs)
        (ts.map asCall) = (ts.map fun t => (putvalOf host target intervalSecs t,attempt t.io.io)).map
          fun v => (v.1.line ryu,v.2) := by
      simp only [written, List.map_map]
      refine List.map_congr_left fun t _ => ?_
      simp [asCall, putvalOf, Putval.line, newExec]
    rw [delivered_eq _ honFinal, hwire, show (opened path host.text target.text
      intervalSecs).exporter.linePrefix = buildPrefix host.text target.text intervalSecs from rfl,
      hwritten, lines_run]
    · refine (landed_decode ryu _ []).trans ?_
      rw [List.map_map]
      rfl
    · simp only [List.forall_mem_map]
      exact fun t _ => putval_line ryu _

end Delivered

end WireProbe.DeliveredPoints
