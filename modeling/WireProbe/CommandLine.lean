import WireProbe.PicoArgs

/-!
# The modes a command line can ask for

`parse` and the writing of a command line are inverse to each other on the
modes that `parse` can return, and these are known exactly: a server under any
address and port, a probe with sanitised labels and times in their ranges, as
far as their texts can be given at all. A call of `parse` prints what its
outcome calls for and nothing else.
-/

set_option autoImplicit false

namespace WireProbe.CommandLine
open WireProbe.Effect WireProbe.Durations WireProbe.Sanitize WireProbe.Text WireProbe.Cli
open WireProbe.PicoArgs
open WireProbe.ProbeLoop (ExportDst)

variable {E : Type}

/-! ### Destinations -/

def exportText : ExportDst → List Char
  | .telegrafUdp addr => "telegraf-udp://".toList++addr
  | .collectdUds path => "collectd-uds://".toList++path
  | .collectdExec => "collectd-exec".toList

theorem dropPrefix_eq_some_iff {s start rest : List Char} :
    s.dropPrefix? start = some rest ↔ s = start++rest := by
  simp [List.dropPrefix?_eq_some_iff]

/-- A text does not begin with what begins otherwise. -/
theorem dropPrefix_eq_none {c d : Char} (h : c ≠ d) (s start : List Char) :
    (c::s).dropPrefix? (d::start) = none := by
  rw [Option.eq_none_iff_forall_ne_some]
  intro rest hrest
  exact h (List.cons.inj (dropPrefix_eq_some_iff.mp hrest)).1

theorem parseExport_exportText (dst : ExportDst) : parseExport (E := E) (exportText dst) = .ok dst := by
  cases dst with
  | telegrafUdp addr =>
    have htelegraf : (exportText (.telegrafUdp addr)).dropPrefix? "telegraf-udp://".toList =
        some addr := dropPrefix_eq_some_iff.mpr rfl
    rw [parseExport, htelegraf]
  | collectdUds path =>
    have htelegraf : (exportText (.collectdUds path)).dropPrefix? "telegraf-udp://".toList = none :=
      dropPrefix_eq_none (by decide) _ _
    have hcollectd : (exportText (.collectdUds path)).dropPrefix? "collectd-uds://".toList =
        some path := dropPrefix_eq_some_iff.mpr rfl
    rw [parseExport, htelegraf, hcollectd]
  | collectdExec => rfl

/-- The texts of destinations are exactly what is accepted, and are told apart. -/
theorem parseExport_iff (s : List Char) (dst : ExportDst) :
    parseExport (E := E) s = .ok dst ↔ s = exportText dst := by
  constructor
  · intro h
    unfold parseExport at h
    cases htelegraf : s.dropPrefix? "telegraf-udp://".toList with
    | some addr =>
      rw [htelegraf] at h
      cases h
      exact dropPrefix_eq_some_iff.mp htelegraf
    | none =>
      cases hcollectd : s.dropPrefix? "collectd-uds://".toList with
      | some path =>
        rw [htelegraf, hcollectd] at h
        cases h
        exact dropPrefix_eq_some_iff.mp hcollectd
      | none =>
        rw [htelegraf, hcollectd] at h
        dsimp only at h
        split at h
        next hexec =>
          cases h
          exact hexec
        next => cases h
  · rintro rfl
    exact parseExport_exportText dst

/-! ### Durations -/

def durationText (d : Duration) : List Char := decimal d.asMillis++"ms".toList

/-- Milliseconds are written and read back, and nothing finer is ever read. -/
theorem parseDuration_durationText {d : Duration} (hmillis : 1000000 ∣ d.asNanos)
    (hd : d.asMillis < 2^64) : parseDuration (durationText d) = .ok d := by
  have hdenotes : Denotes (durationText d) d.asNanos := by
    refine ⟨decimal d.asMillis,d.asMillis,?_,hd,.inl ⟨rfl,?_⟩⟩
    · exact ⟨_,decimal_ne_nil _,fun c hc => decimal_isDigit hc,.inl rfl,
        Nat.ofDigitChars_ten_toDigits⟩
    · rw [d.asMillis_eq, Nat.div_mul_cancel hmillis]
  obtain ⟨d',hread,hnanos⟩ := read_of_denotes hdenotes
  rw [hread, Duration.asNanos_injective hnanos]

/-! ### Texts that can be given -/

def nul : Char := Char.ofNat 0

/-- An argument holds no NUL, and one that is a flag is taken for the flag. -/
def Sayable (s : List Char) : Prop := s ∉ helpKeys++versionKeys ∧ nul ∉ s

instance (s : List Char) : Decidable (Sayable s) := inferInstanceAs (Decidable (_ ∧ _))

theorem sayable_of_head {c : Char} {s : List Char} (hc : c ≠ '-') (hnul : nul ∉ c::s) :
    Sayable (c::s) := by
  refine ⟨?_,hnul⟩
  simp [helpKeys, versionKeys, hc]

/-- Only what has an underscore comes of a replaced character. -/
theorem eq_of_sanitize_eq {s t : List Char} (h : sanitize s = t) (ht : '_' ∉ t) : s = t := by
  have hkept : ∀ c ∈ s, (if c.isAlphanum ∨ c = '-' ∨ c = '.' then c else '_') = c := by
    intro c hc
    by_contra hne
    have hmem : (if c.isAlphanum ∨ c = '-' ∨ c = '.' then c else '_') ∈ sanitize s :=
      List.mem_map_of_mem hc
    split_ifs at hne hmem
    · exact hne rfl
    · exact ht (h ▸ hmem)
  rw [← h, sanitize]
  exact ((List.map_congr_left hkept).trans (List.map_id' s)).symm

theorem sayable_sanitize {s : List Char} (h : Sayable s) : Sayable (sanitize s) := by
  constructor
  · intro hflag
    have hplain : '_' ∉ sanitize s :=
      (by decide : ∀ key ∈ helpKeys++versionKeys, '_' ∉ key) _ hflag
    exact h.1 (by rwa [← eq_of_sanitize_eq rfl hplain] at hflag)
  · intro hnul
    exact absurd (sanitize_component s nul hnul) (by decide)

theorem nul_not_mem_decimal (n : ℕ) : nul ∉ decimal n := fun h =>
  absurd (decimal_isDigit h) (by decide)

theorem sayable_decimal {n : ℕ} {rest : List Char} (hrest : nul ∉ rest) :
    Sayable (decimal n++rest) := by
  obtain ⟨c,digits,hdecimal⟩ := List.exists_cons_of_ne_nil (decimal_ne_nil n)
  have hnul : nul ∉ decimal n++rest :=
    List.not_mem_append (nul_not_mem_decimal n) hrest
  have hc : c.isDigit = true := decimal_isDigit (n := n) (by simp [hdecimal])
  rw [hdecimal, List.cons_append] at hnul ⊢
  refine sayable_of_head ?_ hnul
  rintro rfl
  cases hc

/-! ### Modes -/

structure ValidProbe (target targetName az : List Char) (interval timeout : Duration)
    (dst : ExportDst) : Prop where
  target : Sayable target
  targetName : Sayable targetName ∧ sanitize targetName = targetName
  az : Sayable az ∧ sanitize az = az
  interval : 1000000 ∣ interval.asNanos ∧ IntervalRange interval.asNanos
  timeout : 1000000 ∣ timeout.asNanos ∧ TimeoutRange timeout.asNanos
  dst : Sayable (exportText dst)

/-- The modes that the rest of the program can be handed. -/
def Valid : Mode → Prop
  | .server bind _ => Sayable bind
  | .probe target targetName az interval timeout dst =>
    ValidProbe target targetName az interval timeout dst

/-- The command line that asks for a mode, every option given. -/
def commandLineOf : Mode → List (List Char)
  | .server bind port =>
    ["--mode".toList,"server".toList,"--bind".toList,bind,"--port".toList,decimal port.toNat]
  | .probe target targetName az interval timeout dst =>
    ["--mode".toList,"probe".toList,"--target".toList,target,"--target-name".toList,targetName,
      "--az".toList,az,"--interval".toList,durationText interval,"--timeout".toList,
      durationText timeout,"--export".toList,exportText dst]

theorem commandLineOf_sayable {mode : Mode} (h : Valid mode) :
    ∀ a ∈ commandLineOf mode, Sayable a := by
  cases mode with
  | server bind port =>
    have hport : Sayable (decimal port.toNat++[]) := sayable_decimal List.not_mem_nil
    rw [List.append_nil] at hport
    simp only [commandLineOf, List.forall_mem_cons]
    exact ⟨by decide,by decide,by decide,h,by decide,hport,by simp⟩
  | probe target targetName az interval timeout dst =>
    have hduration : ∀ d, Sayable (durationText d) := fun d => sayable_decimal (by decide)
    simp only [commandLineOf, List.forall_mem_cons]
    exact ⟨by decide,by decide,by decide,h.target,by decide,h.targetName.1,by decide,h.az.1,
      by decide,hduration _,by decide,hduration _,by decide,h.dst,by simp⟩

theorem u16FromStr_decimal (port : UInt16) : u16FromStr (decimal port.toNat) = some port := by
  have hport : port.toNat < 65536 := port.toNat_lt
  have hnumeral : Numeral (decimal port.toNat) port.toNat :=
    ⟨_,decimal_ne_nil _,fun c hc => decimal_isDigit hc,.inl rfl,Nat.ofDigitChars_ten_toDigits⟩
  obtain ⟨v,hread,hv⟩ := fromStr_of_numeral hnumeral (by omega)
  have hwhole : UInt16.ofNat v.toNat = port := by
    rw [hv]
    exact UInt16.ofNat_toNat
  rw [u16FromStr, hread]
  show (if v.toNat < 65536 then some (UInt16.ofNat v.toNat) else none) = some port
  rw [if_pos (by omega), hwhole]

section Parser
variable {pico : Calls E}

theorem contains_sayable (h : Documented pico) {keys argv : List (List Char)}
    (hkeys : keys ⊆ helpKeys++versionKeys) (hargv : ∀ a ∈ argv, Sayable a) :
    pico.contains keys argv = (false,argv) := by
  have habsent : (pico.contains keys argv).1 = false := by
    rw [← Bool.not_eq_true, h.contains_iff]
    rintro ⟨key,hkey,hmem⟩
    exact (hargv key hmem).1 (hkeys hkey)
  exact Prod.ext habsent (h.contains_absent keys argv habsent)

theorem given_text (h : Documented pico) (key v : List Char) (left : List (List Char)) :
    pico.optValueFromStr some key (key::v::left) = (.ok (some v),left) := h.given _ _ _ _ _ rfl

theorem given_port (h : Documented pico) (port : UInt16) (left : List (List Char)) :
    pico.optValueFromStr u16FromStr "--port".toList ("--port".toList::decimal port.toNat::left) =
      (.ok (some port),left) := h.given _ _ _ _ _ (u16FromStr_decimal port)

/-- Past its mode a command line is asked for the options of the mode. -/
theorem answers_mode (h : Documented pico) {mode : List Char} {left : List (List Char)}
    (hsayable : ∀ a ∈ "--mode".toList::mode::left, Sayable a) :
    pico.answers ("--mode".toList::mode::left) =
      pico.options (pico.asked false false (.ok (some mode)) left) := by
  have hhelp : pico.contains helpKeys _ = _ := contains_sayable h (by simp) hsayable
  have hversion : pico.contains versionKeys _ = _ := contains_sayable h (by simp) hsayable
  simp only [Calls.answers, hhelp, hversion, given_text h]

theorem answers_server (h : Documented pico) {bind : List Char} {port : UInt16}
    (hvalid : Valid (.server bind port)) :
    pico.answers (commandLineOf (.server bind port)) =
      { pico.asked false false (.ok (some "server".toList)) [] with
        bind := .ok (some bind), port := .ok (some port) } := by
  rw [commandLineOf, answers_mode h (commandLineOf_sayable hvalid)]
  simp only [Calls.options, Calls.asked, Calls.server, if_true, given_text h, given_port h]

theorem answers_probe (h : Documented pico) {target targetName az : List Char}
    {interval timeout : Duration} {dst : ExportDst}
    (hvalid : Valid (.probe target targetName az interval timeout dst)) :
    pico.answers (commandLineOf (.probe target targetName az interval timeout dst)) =
      { pico.asked false false (.ok (some "probe".toList)) [] with
        target := .ok target, targetName := .ok (some targetName), az := .ok (some az)
        interval := .ok (some (durationText interval))
        timeout := .ok (some (durationText timeout)), exportDst := .ok (some (exportText dst)) } := by
  have hmode : "probe".toList ≠ "server".toList := by decide
  rw [commandLineOf, answers_mode h (commandLineOf_sayable hvalid)]
  simp only [Calls.options, Calls.asked, Calls.probe, Calls.valueFromStr, if_neg hmode, if_true,
    given_text h]

theorem parse_commandLineOf (h : Documented pico) {mode : Mode} (hvalid : Valid mode)
    (printed : List Notice) : (parse (pico.answers (commandLineOf mode)) printed).1 = .ok mode := by
  cases mode with
  | server bind port =>
    rw [answers_server h hvalid]
    rfl
  | probe target targetName az interval timeout dst =>
    rw [answers_probe h hvalid, parse_times_iff]
    have hinterval := (intervalRange_iff hvalid.interval.1).mpr hvalid.interval.2
    have htimeout := (timeoutRange_iff hvalid.timeout.1).mpr hvalid.timeout.2
    have hi : interval.asMillis < 2^64 := lt_of_le_of_lt hinterval.2 (by decide)
    have ht : timeout.asMillis < 2^64 := lt_of_le_of_lt htimeout.2 (by decide)
    exact ⟨{
      probing := ⟨rfl,rfl,rfl⟩
      givenTarget := rfl
      givenName := ⟨_,rfl,hvalid.targetName.2⟩
      givenAz := ⟨_,rfl,hvalid.az.2⟩
      readDst := ⟨_,rfl,parseExport_exportText dst⟩
      nothingLeft := rfl },
      ⟨_,rfl,denotes_of_read (parseDuration_durationText hvalid.interval.1 hi)⟩,hvalid.interval.2,
      ⟨_,rfl,denotes_of_read (parseDuration_durationText hvalid.timeout.1 ht)⟩,hvalid.timeout.2⟩

/-- No argument is a flag where none has been found. -/
theorem sayable_of_absent (h : Documented pico) {argv : List (List Char)}
    (hnul : ∀ a ∈ argv, nul ∉ a) (hhelp : (pico.answers argv).help = false)
    (hversion : (pico.answers argv).version = false) : ∀ a ∈ argv, Sayable a := by
  obtain ⟨hhelp',hversion'⟩ := answers_flags pico argv
  rw [hhelp'] at hhelp
  rw [hversion', h.contains_absent _ _ hhelp] at hversion
  intro a ha
  refine ⟨?_,hnul a ha⟩
  intro hflag
  rcases List.mem_append.mp hflag with hkey | hkey
  · exact Bool.eq_false_iff.mp hhelp ((h.contains_iff _ _).mpr ⟨a,hkey,ha⟩)
  · exact Bool.eq_false_iff.mp hversion ((h.contains_iff _ _).mpr ⟨a,hkey,ha⟩)

theorem parse_eq_ok_server {args : Arguments E} {printed : List Notice} {bind : List Char}
    {port : UInt16} (h : (parse args printed).1 = .ok (.server bind port)) :
    args.help = false ∧ args.version = false ∧
      ∃ given, args.bind = .ok given ∧ given.getD "0.0.0.0".toList = bind := by
  unfold parse at h
  split_ifs at h with hhelp hversion
  · cases h
  · cases h
  · refine ⟨Bool.eq_false_iff.mpr hhelp,Bool.eq_false_iff.mpr hversion,?_⟩
    simp only [seq_eq_ok_iff, propagate_eq_ok_iff] at h
    obtain ⟨mode,-,h⟩ := h
    cases mode with
    | none =>
      simp only [seq_eq_ok_iff] at h
      obtain ⟨_,-,h⟩ := h
      exact absurd h (failure_not_ok _ _ _)
    | some mode =>
      simp only [parseMode] at h
      split_ifs at h
      · simp only [parseServer, seq_eq_ok_iff, propagate_eq_ok_iff, pure_eq_ok_iff] at h
        obtain ⟨given,hgiven,_,-,_,-,hserver⟩ := h
        exact ⟨given,hgiven,(Mode.server.inj hserver).1⟩
      · obtain ⟨_,_,_,_,_,_,⟨⟩,-⟩ := (parseProbe_eq_ok_iff _ _ _).mp h
      · exact absurd h (failure_not_ok _ _ _)

theorem parse_valid (h : Documented pico) {argv : List (List Char)} (hnul : ∀ a ∈ argv, nul ∉ a)
    {printed : List Notice} {mode : Mode} (hparse : (parse (pico.answers argv) printed).1 = .ok mode) :
    Valid mode := by
  have hwithin := within_answers h argv
  cases mode with
  | server bind port =>
    obtain ⟨hhelp,hversion,given,hgiven,rfl⟩ := parse_eq_ok_server hparse
    cases given with
    | none => exact (by decide : Sayable "0.0.0.0".toList)
    | some bind => exact sayable_of_absent h hnul hhelp hversion _ (hwithin.bind _ hgiven)
  | probe target targetName az interval timeout dst =>
    obtain ⟨hother,⟨s,-,hs⟩,hinterval,⟨t,-,ht⟩,htimeout⟩ :=
      (parse_times_iff _ _ _ _ _ _ _ _).mp hparse
    have hsayable := sayable_of_absent h hnul hother.probing.1 hother.probing.2.1
    have htarget := hsayable _ (hwithin.target _ hother.givenTarget)
    obtain ⟨name,hname,rfl⟩ := hother.givenName
    obtain ⟨zone,hzone,rfl⟩ := hother.givenAz
    obtain ⟨given,hgiven,hdst⟩ := hother.readDst
    have hidem : ∀ raw, sanitize (sanitize raw) = sanitize raw :=
      fun raw => sanitize_eq_self (sanitize_component raw)
    refine ⟨htarget,?_,?_,⟨hs.dvd,hinterval⟩,⟨ht.dvd,htimeout⟩,?_⟩
    · cases name with
      | none => exact ⟨sayable_sanitize htarget,hidem target⟩
      | some name =>
        exact ⟨sayable_sanitize (hsayable _ (hwithin.targetName _ hname)),hidem name⟩
    · cases zone with
      | none => exact (by decide :
          Sayable "default".toList ∧ sanitize "default".toList = "default".toList)
      | some zone => exact ⟨sayable_sanitize (hsayable _ (hwithin.az _ hzone)),hidem zone⟩
    · rw [← (parseExport_iff _ _).mp hdst]
      cases given with
      | none => exact (by decide : Sayable "collectd-exec".toList)
      | some given => exact hsayable _ (hwithin.exportDst _ hgiven)

end Parser

/-! ### What is printed -/

theorem exceeds_iff (d d' : Duration) : d.exceeds d' = true ↔ d'.asNanos < d.asNanos := by
  have hlt := d.nanos_lt
  have hlt' := d'.nanos_lt
  have hsecs : d'.secs = d.secs ↔ d'.secs.toNat = d.secs.toNat := UInt64.toNat_inj.symm
  unfold Duration.exceeds Duration.asNanos
  rw [decide_eq_true_eq, hsecs, UInt64.lt_iff_toNat_lt]
  omega

/-- A call that returns has printed such lines. -/
def Prints {β : Type} (m : Run E β) (P : β → List Notice → Prop) : Prop :=
  ∀ printed, wp m (fun r w => ∀ b, r = .ok b → ∃ lines, w = printed++lines ∧ P b lines) printed

section Prints
variable {β γ : Type} {m : Run E β} {f : β → Run E γ}

theorem prints_bind {P : β → List Notice → Prop} {Q : γ → List Notice → Prop} (hm : Prints m P)
    (hf : ∀ b lines, P b lines → Prints (f b) fun c more => Q c (lines++more)) :
    Prints (m >>= f) Q := by
  intro printed
  refine wp_seq (hm printed) ?_ (fun e w _ c h => by cases h)
  intro b w hb
  obtain ⟨lines,rfl,hP⟩ := hb b rfl
  refine wp_mono (hf b lines hP _) fun r w hr c hc => ?_
  obtain ⟨more,rfl,hQ⟩ := hr c hc
  exact ⟨lines++more,List.append_assoc ..,hQ⟩

theorem prints_pure {P : β → List Notice → Prop} {b : β} (h : P b []) :
    Prints (pure b : Run E β) P := by
  intro printed c hc
  cases hc
  exact ⟨[],(List.append_nil _).symm,h⟩

theorem prints_stop (reason : Stop E) (P : β → List Notice → Prop) : Prints (stop reason) P := by
  intro printed b hb
  cases hb

/-- A call that prints nothing before the others. -/
theorem prints_silent {Q : γ → List Notice → Prop} (hm : Prints m fun _ lines => lines = [])
    (hf : ∀ b, Prints (f b) Q) : Prints (m >>= f) Q :=
  prints_bind hm fun b _ hlines => hlines ▸ hf b

theorem silent_propagate {ε : Type} (into : ε → Error E) (r : Except ε β) :
    Prints (propagate into r) fun _ lines => lines = [] := by
  intro printed b hb
  exact ⟨[],(List.append_nil _).symm,rfl⟩

theorem silent_checkedInterval (s : List Char) :
    Prints (checkedInterval (E := E) s) fun _ lines => lines = [] := by
  refine prints_silent (silent_propagate _ _) fun interval => ?_
  split_ifs
  · exact prints_stop _ _
  · exact prints_stop _ _
  · exact prints_pure rfl

theorem silent_checkedTimeout (s : List Char) :
    Prints (checkedTimeout (E := E) s) fun _ lines => lines = [] := by
  refine prints_silent (silent_propagate _ _) fun timeout => ?_
  split_ifs
  · exact prints_stop _ _
  · exact prints_stop _ _
  · exact prints_pure rfl

theorem silent_rejectUnknown (leftover : List (List Char)) :
    Prints (rejectUnknown (E := E) leftover) fun _ lines => lines = [] := by
  cases leftover with
  | nil => exact prints_pure rfl
  | cons arg rest => exact prints_stop _ _

end Prints

/-- The warning about a timeout that the interval does not hold. -/
def timeoutWarning : Mode → List Notice
  | .server _ _ => []
  | .probe _ _ _ interval timeout _ =>
    if interval.asNanos < timeout.asNanos then
      [.timeoutExceedsInterval timeout.asMillis interval.asMillis] else []

theorem prints_warnTimeout (timeout interval : Duration) :
    Prints (warnTimeout (E := E) timeout interval) fun _ lines => lines =
      if interval.asNanos < timeout.asNanos then
        [.timeoutExceedsInterval timeout.asMillis interval.asMillis] else [] := by
  intro printed u _
  unfold warnTimeout
  by_cases h : interval.asNanos < timeout.asNanos
  · rw [if_pos ((exceeds_iff _ _).mpr h), if_pos h]
    exact ⟨_,rfl,rfl⟩
  · rw [if_neg fun hexceeds => h ((exceeds_iff _ _).mp hexceeds), if_neg h]
    exact ⟨[],(List.append_nil _).symm,rfl⟩

theorem prints_parseProbe (args : Arguments E) :
    Prints (parseProbe args) fun mode lines => lines = timeoutWarning mode := by
  refine prints_silent (silent_propagate _ _) fun target => ?_
  refine prints_silent (silent_propagate _ _) fun targetName => ?_
  refine prints_silent (silent_propagate _ _) fun az => ?_
  refine prints_silent (silent_propagate _ _) fun intervalStr => ?_
  refine prints_silent (silent_propagate _ _) fun timeoutStr => ?_
  refine prints_silent (silent_propagate _ _) fun exportStr => ?_
  refine prints_silent (silent_checkedInterval _) fun interval => ?_
  refine prints_silent (silent_checkedTimeout _) fun timeout => ?_
  refine prints_bind (prints_warnTimeout timeout interval) fun _ lines hlines => ?_
  refine prints_silent (silent_propagate _ _) fun dst => ?_
  refine prints_silent (silent_rejectUnknown _) fun _ => ?_
  exact prints_pure ((List.append_nil _).trans hlines)

theorem prints_parseServer (args : Arguments E) :
    Prints (parseServer args) fun mode lines => lines = timeoutWarning mode := by
  refine prints_silent (silent_propagate _ _) fun bind => ?_
  refine prints_silent (silent_propagate _ _) fun port => ?_
  refine prints_silent (silent_rejectUnknown _) fun _ => ?_
  exact prints_pure rfl

theorem prints_parse (args : Arguments E) :
    Prints (parse args) fun mode lines => lines = timeoutWarning mode := by
  have hstops : ∀ line reason, Prints (do print line; stop reason : Run E Mode)
      fun mode lines => lines = timeoutWarning mode := by
    intro line reason
    refine prints_bind (P := fun _ _ => True) (fun printed u _ => ⟨[line],rfl,trivial⟩) ?_
    exact fun _ _ _ => prints_stop _ _
  unfold parse
  split_ifs
  · exact hstops _ _
  · exact hstops _ _
  · refine prints_silent (silent_propagate _ _) fun mode => ?_
    cases mode with
    | none => exact hstops _ _
    | some mode =>
      show Prints (parseMode args mode) _
      unfold parseMode
      split_ifs
      · exact prints_parseServer args
      · exact prints_parseProbe args
      · exact prints_stop _ _

/-- From arguments without a NUL, `parse` returns the valid modes; each is what
its own command line asks for, and a call that returns a mode has printed its
warning alone. -/
theorem parse_range {pico : Calls E} (h : Documented pico) (mode : Mode) :
    ((∃ argv printed, (∀ a ∈ argv, nul ∉ a) ∧ (parse (pico.answers argv) printed).1 = .ok mode) ↔
      Valid mode) ∧
    (Valid mode → (∀ a ∈ commandLineOf mode, nul ∉ a) ∧
      ∀ printed, (parse (pico.answers (commandLineOf mode)) printed).1 = .ok mode) ∧
    ∀ argv printed, (parse (pico.answers argv) printed).1 = .ok mode →
      (parse (pico.answers argv) printed).2 = printed++timeoutWarning mode := by
  have hplain : Valid mode → ∀ a ∈ commandLineOf mode, nul ∉ a :=
    fun hvalid a ha => (commandLineOf_sayable hvalid a ha).2
  refine ⟨⟨?_,?_⟩,?_,?_⟩
  · rintro ⟨argv,printed,hnul,hparse⟩
    exact parse_valid h hnul hparse
  · intro hvalid
    exact ⟨_,[],hplain hvalid,parse_commandLineOf h hvalid []⟩
  · intro hvalid
    exact ⟨hplain hvalid,parse_commandLineOf h hvalid⟩
  · intro argv printed hparse
    obtain ⟨lines,hlines,rfl⟩ := prints_parse (pico.answers argv) printed mode hparse
    exact hlines

/-- No command line gives a server the address `-h`; the one of a server on an
ordinary address is read back. -/
theorem parse_range_scan :
    (∀ argv printed, (∀ a ∈ argv, nul ∉ a) →
      (parse (scan.answers argv) printed).1 ≠ .ok (.server "-h".toList 9999)) ∧
    (parse (scan.answers ["--mode".toList,"server".toList,"--bind".toList,"10.0.0.5".toList,
      "--port".toList,"7777".toList]) []).1 = .ok (.server "10.0.0.5".toList 7777) := by
  constructor
  · intro argv printed hnul hparse
    exact absurd ((parse_range scan_documented _).1.mp ⟨argv,printed,hnul,hparse⟩)
      (by decide : ¬ Sayable "-h".toList)
  · exact ((parse_range scan_documented (.server "10.0.0.5".toList 7777)).2.1
      (by decide : Sayable "10.0.0.5".toList)).2 []

end WireProbe.CommandLine
