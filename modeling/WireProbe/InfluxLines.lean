import WireProbe.Cli
import WireProbe.LineDecoding
import WireProbe.LineProtocol

/-!
# Lines of the Influx protocol from any command line

Sanitized names hold no separator, so the line of a probe is one of the Influx
protocol as soon as both its tags have a value. No option is refused for being
empty, and an empty name stays empty when it is sanitized.
-/

set_option autoImplicit false

namespace WireProbe.InfluxLines
open WireProbe.Collectd WireProbe.Sanitize WireProbe.Text WireProbe.LineProtocol WireProbe.Cli
open WireProbe.Durations WireProbe.LineDecoding

/-! ### Tokens -/

/-- What `ryu` prints for a finite float: a float of the protocol. -/
structure FloatToken where
  text : List Char
  literal : FloatLiteral text

theorem IntegerLiteral.printed {s : List Char} (h : IntegerLiteral s) :
    ∀ c ∈ s, c.isDigit = true ∨ c = '-' := by
  obtain ⟨sign,digits,rfl,hsign,-,hdigits⟩ := h
  intro c hc
  rcases List.mem_append.mp hc with hc | hc
  · rcases hsign with rfl | rfl
    · cases hc
    · exact .inr (List.mem_singleton.mp hc)
  · exact .inl (hdigits c hc)

theorem FloatLiteral.printed {s : List Char} (h : FloatLiteral s) :
    ∀ c ∈ s, c.isDigit = true ∨ c = '.' ∨ c = '-' ∨ c = 'e' := by
  obtain ⟨whole,fraction,exponent,rfl,hwhole,hfraction,hexponent⟩ := h
  intro c hc
  rcases List.mem_append.mp hc with hc | hc
  · rcases List.mem_append.mp hc with hc | hc
    · exact (IntegerLiteral.printed hwhole c hc).imp_right fun h => .inr (.inl h)
    · rcases hfraction with rfl | ⟨digits,rfl,-,hdigits⟩
      · cases hc
      · rcases List.mem_cons.mp hc with rfl | hc
        · exact .inr (.inl rfl)
        · exact .inl (hdigits c hc)
  · rcases hexponent with rfl | ⟨power,rfl,hpower⟩
    · cases hc
    · rcases List.mem_cons.mp hc with rfl | hc
      · exact .inr (.inr (.inr rfl))
      · exact (IntegerLiteral.printed hpower c hc).imp_right fun h => .inr (.inl h)

theorem FloatLiteral.ne_nil {s : List Char} (h : FloatLiteral s) : s ≠ [] := by
  obtain ⟨_,fraction,exponent,rfl,⟨sign,digits,rfl,-,hne,-⟩,-,-⟩ := h
  simp [hne]

def FloatToken.token (t : FloatToken) : Token :=
  ⟨t.text,FloatLiteral.ne_nil t.literal,FloatLiteral.printed t.literal⟩

/-! ### The line of a point -/

/-- The parts of a line, as the exporter renders them. -/
def lineOf (p : Point Token) : Line where
  measurement := "tcp_latency".toList
  tags := [("target".toList,p.target.text),("az".toList,p.az.text)]
  fields := match p.outcome with
    | none => [("success".toList,"0i".toList)]
    | some t => [("rtt_ms".toList,t.text),("success".toList,"1i".toList)]
  timestamp := decimal p.timestamp

theorem lineOf_text (p : Point Token) : (lineOf p).text = p.body++['\n'] := by
  obtain ⟨target,az,outcome,timestamp⟩ := p
  cases outcome with
  | none => rfl
  | some t => rfl

theorem Component.clear {s : List Char} (h : Component s) (seps : List Char)
    (hseps : seps.all (fun x => !decide (Safe x)) = true) : Clear seps s := by
  intro c hc hmem
  have hunsafe : ¬ Safe c := by simpa using List.all_eq_true.mp hseps c hmem
  exact hunsafe (h c hc)

theorem decimal_digits (n : ℕ) : Digits (decimal n) :=
  ⟨decimal_ne_nil n,fun _ h => decimal_isDigit h⟩

theorem decimal_integer (n : ℕ) : IntegerLiteral (decimal n) :=
  ⟨[],decimal n,rfl,.inl rfl,decimal_digits n⟩

theorem pair_clear {k v : List Char} (hkey : Component k) (hvalue : Component v) :
    Clear [' ',',','='] k ∧ Clear [' ',',','='] v :=
  ⟨Component.clear hkey _ (by decide),Component.clear hvalue _ (by decide)⟩

theorem forall_mem_two {α : Type*} {P : α → Prop} {a b : α} (ha : P a) (hb : P b) :
    ∀ x ∈ [a,b], P x :=
  List.forall_mem_cons.mpr ⟨ha,List.forall_mem_singleton.mpr hb⟩

theorem lineOf_plain (p : Point Token) : (lineOf p).Plain := by
  refine ⟨?_,?_,?_,(decimal_integer p.timestamp).clear⟩
  · exact Component.clear (s := "tcp_latency".toList) (by decide) _ (by decide)
  · exact forall_mem_two (pair_clear (k := "target".toList) (by decide) p.target.component)
      (pair_clear (k := "az".toList) (by decide) p.az.component)
  · unfold lineOf
    cases p.outcome with
    | none =>
      exact ⟨List.cons_ne_nil _ _,List.forall_mem_singleton.mpr
        (pair_clear (k := "success".toList) (v := "0i".toList) (by decide) (by decide))⟩
    | some t =>
      exact ⟨List.cons_ne_nil _ _,forall_mem_two
        (pair_clear (k := "rtt_ms".toList) (by decide) t.component)
        (pair_clear (k := "success".toList) (v := "1i".toList) (by decide) (by decide))⟩

theorem lineOf_no_escape (p : Point Token) : '\\' ∉ (lineOf p).text := by
  have hbody : Over ['=',',',' '] p.body :=
    over_intercalate (by decide) fun l hl => (p.words_over l hl).mono (by decide)
  rw [lineOf_text, List.mem_append, not_or]
  exact ⟨hbody.not_mem (by decide) (by decide),by decide⟩

/-- A component that is not empty is an item. -/
theorem item_iff {s : List Char} (h : Component s) : Item s ↔ s ≠ [] :=
  and_iff_left (free_of_clear (Component.clear h _ (by decide)))

/-- The value of `success`. -/
theorem flag_valid {n : List Char} (h : Digits n) (hn : Component n) :
    Item (n++['i']) ∧ FieldValue (n++['i']) := by
  have hcomponent : Component (n++['i']) :=
    List.forall_mem_append.mpr ⟨hn,show Component ['i'] by decide⟩
  exact ⟨(item_iff hcomponent).mpr (by simp),.inr ⟨n,rfl,[],n,rfl,.inl rfl,h⟩⟩

/-- Only the values of the tags can be missing. -/
theorem lineOf_valid_iff (p : Point Token) (h : ∀ t ∈ p.outcome, FloatLiteral t.text) :
    (lineOf p).Valid ↔ p.target.text ≠ [] ∧ p.az.text ≠ [] := by
  have hkey : ∀ s : List Char, Component s → s ≠ [] → Item s := fun s hs => (item_iff hs).mpr
  constructor
  · intro hvalid
    have htarget := (hvalid.tags.2 _ List.mem_cons_self).2
    have haz := (hvalid.tags.2 _ (List.mem_cons_of_mem _ List.mem_cons_self)).2
    exact ⟨htarget.1,haz.1⟩
  · rintro ⟨htarget,haz⟩
    have hsuccess := hkey "success".toList (by decide) (by decide)
    refine ⟨?_,⟨List.cons_ne_nil _ _,?_⟩,?_,decimal_integer p.timestamp⟩
    · exact ⟨List.cons_ne_nil _ _,
        free_of_clear (Component.clear (s := "tcp_latency".toList) (by decide) _ (by decide))⟩
    · exact forall_mem_two
        ⟨hkey "target".toList (by decide) (by decide),hkey _ p.target.component htarget⟩
        ⟨hkey "az".toList (by decide) (by decide),hkey _ p.az.component haz⟩
    · unfold lineOf
      cases houtcome : p.outcome with
      | none =>
        exact ⟨List.cons_ne_nil _ _,List.forall_mem_singleton.mpr
          ⟨hsuccess,flag_valid (n := ['0']) (by decide) (by decide)⟩⟩
      | some t =>
        exact ⟨List.cons_ne_nil _ _,forall_mem_two
          ⟨hkey "rtt_ms".toList (by decide) (by decide),hkey _ t.component t.nonempty,
            .inl (h t houtcome)⟩
          ⟨hsuccess,flag_valid (n := ['1']) (by decide) (by decide)⟩⟩

/-! ### Command lines -/

/-- The bytes are a line of the protocol. -/
def OnWire (bytes : Bytes) : Prop := ∃ text, Accepts text ∧ asBytes text = bytes

theorem sanitize_eq_nil_iff (s : List Char) : sanitize s = [] ↔ s = [] := List.map_eq_nil_iff

/-- Neither name is given as an empty string, and one that is derived from the
target has a target to be derived from. -/
def Named {E : Type} (args : Arguments E) : Prop :=
  args.targetName ≠ .ok (some []) ∧ (args.targetName = .ok none → args.target ≠ .ok []) ∧
    args.az ≠ .ok (some [])

theorem named_iff {E : Type} {args : Arguments E} {target : List Char}
    {name zone : Option (List Char)} (htarget : args.target = .ok target)
    (hname : args.targetName = .ok name) (hzone : args.az = .ok zone) :
    Named args ↔ name.getD target ≠ [] ∧ zone.getD "default".toList ≠ [] := by
  unfold Named
  rw [htarget, hname, hzone, ← and_assoc]
  refine and_congr ?_ ?_
  · cases name with
    | none => simp
    | some s => simp
  · cases zone with
    | none => simp
    | some s => simp

section Datagram
variable {R : Type*} (ryu : R → FloatToken)

/-- The datagram of an outcome. -/
def datagram (targetName az : List Char) (outcome : Option R) (timestamp : UInt64) : Bytes :=
  Telegraf.formatLine (fun r => asBytes (ryu r).text) (Telegraf.buildPrefix targetName az) outcome
    timestamp.toNat

theorem datagram_iff (target az : Name) (outcome : Option R) (timestamp : UInt64) :
    OnWire (datagram ryu target.text az.text outcome timestamp) ↔
      target.text ≠ [] ∧ az.text ≠ [] := by
  have hline : datagram ryu target.text az.text outcome timestamp =
      asBytes (lineOf ⟨target,az,outcome.map fun r => (ryu r).token,timestamp.toNat⟩).text := by
    rw [lineOf_text]
    exact Point.line_eq (fun r => (ryu r).token) ⟨target,az,outcome,timestamp.toNat⟩
  have hfloat : ∀ t ∈ outcome.map fun r => (ryu r).token, FloatLiteral t.text := by
    intro t ht
    obtain ⟨r,-,rfl⟩ := Option.map_eq_some_iff.mp ht
    exact (ryu r).literal
  rw [hline]
  refine Iff.trans ?_ ((accepts_text_iff (lineOf_plain _) (lineOf_no_escape _)).trans
    (lineOf_valid_iff ⟨target,az,_,timestamp.toNat⟩ hfloat))
  constructor
  · rintro ⟨text,haccepts,htext⟩
    exact asBytes_injective htext ▸ haccepts
  · exact fun haccepts => ⟨_,haccepts,rfl⟩

/-- The datagrams of an accepted command line are lines of the protocol exactly
where no name is given as an empty string. -/
theorem datagrams_valid_iff {E : Type} (args : Arguments E) (printed : List Notice)
    (target targetName az : List Char) (interval timeout : Duration) (addr : List Char)
    (h : (parse args printed).1 =
      .ok (.probe target targetName az interval timeout (.telegrafUdp addr)))
    (outcome : Option R) (timestamp : UInt64) :
    OnWire (datagram ryu targetName az outcome timestamp) ↔ Named args := by
  obtain ⟨-,haccepted⟩ := (parse_eq_ok_iff _ _ _ _ _ _ _ _).mp h
  have htarget := haccepted.givenTarget
  obtain ⟨name,hname,hsanitized⟩ := haccepted.givenName
  obtain ⟨zone,hzone,hsanitized'⟩ := haccepted.givenAz
  have htext : targetName = sanitize (name.getD target) := by
    rw [← hsanitized]
    cases name <;> rfl
  have htext' : az = sanitize (zone.getD "default".toList) := by
    rw [← hsanitized']
    cases zone with
    | none => decide
    | some s => rfl
  rw [named_iff htarget hname hzone, htext, htext', ne_eq, ne_eq,
    ← sanitize_eq_nil_iff (name.getD target), ← sanitize_eq_nil_iff (zone.getD "default".toList)]
  exact datagram_iff ryu ⟨_,_,rfl⟩ ⟨_,_,rfl⟩ outcome timestamp

end Datagram

/-- The answers to `--mode probe --target db:9999 --export
telegraf-udp://127.0.0.1:8094` with the given `--az`. -/
def telegrafArguments (az : Option (List Char)) : Arguments Empty where
  help := false
  version := false
  mode := .ok (some "probe".toList)
  bind := .ok none
  port := .ok none
  target := .ok "db:9999".toList
  targetName := .ok none
  az := .ok az
  interval := .ok none
  timeout := .ok none
  exportDst := .ok (some "telegraf-udp://127.0.0.1:8094".toList)
  leftover := []

def fourMillis (_ : Unit) : FloatToken :=
  ⟨"4.0".toList,['4'],['.','0'],[],rfl,⟨[],['4'],rfl,.inl rfl,by decide⟩,
    .inr ⟨['0'],rfl,by decide⟩,.inl rfl⟩

theorem datagrams_valid_iff_zone :
    OnWire (datagram fourMillis "db_9999".toList "eu-west".toList (some ()) 1686561230000000000) :=
  (datagrams_valid_iff fourMillis (telegrafArguments (some "eu-west".toList)) [] "db:9999".toList
    "db_9999".toList "eu-west".toList (Duration.fromMillis 1000) (Duration.fromMillis 5000)
    "127.0.0.1:8094".toList (by decide) (some ()) 1686561230000000000).mpr
    ⟨by decide,by decide,by decide⟩

/-- With `--az ""` no datagram is a line of the protocol. -/
theorem empty_zone_rejected : ¬ ∀ (args : Arguments Empty) (printed : List Notice)
    (target targetName az : List Char) (interval timeout : Duration) (addr : List Char),
    (parse args printed).1 = .ok (.probe target targetName az interval timeout (.telegrafUdp addr)) →
    ∀ (outcome : Option Unit) (timestamp : UInt64),
      OnWire (datagram fourMillis targetName az outcome timestamp) := by
  intro h
  have hline := h (telegrafArguments (some [])) [] "db:9999".toList "db_9999".toList []
    (Duration.fromMillis 1000) (Duration.fromMillis 5000) "127.0.0.1:8094".toList (by decide) none 0
  exact ((datagram_iff fourMillis ⟨"db_9999".toList,"db_9999".toList,by decide⟩ ⟨[],[],rfl⟩ none 0).mp
    hline).2 rfl

end WireProbe.InfluxLines
